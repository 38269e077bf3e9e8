import AtomArray.Proofs.SavedScalar

/-!
Reading saved waveforms back.

A saved form is read exactly if those of its parts are and its own numbers are, and then it is read
as what was saved (`Waveform.ofJson_saved_eq_ok`). So the waveforms that are restored can be told by
their sorts and numbers (`Waveform.restored_iff`). Of a waveform smoothed with a Gaussian kernel the
name of the kernel is not the one that is asked for.
-/

namespace AtomArray

open List Outcome Loaded Except

namespace Loaded

/-! ### Restored objects -/

section Restored

variable {N : Type} [Arith N] {α : Type} {saved : α → Outcome Json} {wrap : α → Loaded N} {a b : α}

/-- An object has a saved form, and this is read as the same object. -/
def Restores (saved : α → Outcome Json) (wrap : α → Loaded N) (a : α) : Prop :=
  ∃ j, saved a = .ok j ∧ ofJson j = .ok (wrap a)

theorem restores_body {outer : Json → Json} {make : Loaded N → Outcome (Loaded N)} {own : Prop}
    (hsaved : saved a = saved b >>= fun j => .ok (outer j))
    (hread : ∀ j, ofJson (outer j) = ofJson j >>= make)
    (hmake : ∀ x, make x = .ok (wrap a) ↔ x = wrap b ∧ own) :
    Restores saved wrap a ↔ Restores saved wrap b ∧ own := by
  constructor
  · rintro ⟨j, hj, ha⟩
    rw [hsaved] at hj
    obtain ⟨k, hk, h⟩ := bind_eq_ok.mp hj
    cases h
    rw [hread] at ha
    obtain ⟨x, hx, ha⟩ := bind_eq_ok.mp ha
    obtain ⟨rfl, hown⟩ := (hmake x).mp ha
    exact ⟨⟨k, hk, hx⟩, hown⟩
  · rintro ⟨⟨k, hk, hb⟩, hown⟩
    refine ⟨outer k, ?_, ?_⟩
    · rw [hsaved, hk, ok_bind]
    · rw [hread, hb, ok_bind]
      exact (hmake _).mpr ⟨rfl, hown⟩

theorem ofItems_eq_mapM (js : List Json) :
    (ofItems js : Outcome (List (Loaded N))) = js.mapM ofJson := by
  induction js with
  | nil => rfl
  | cons j js ih => rw [ofItems, ih, mapM_cons]

variable {as : List α}

/-- All of a list are restored if their saved forms are read together. -/
theorem restores_all : (∃ js, as.mapM saved = .ok js ∧ ofItems js = .ok (as.map wrap)) ↔
      ∀ b ∈ as, Restores saved wrap b := by
  simp only [ofItems_eq_mapM, mapM_eq_ok_iff]
  constructor
  · rintro ⟨js, hsaved, hread⟩
    induction hsaved with
    | nil => simp
    | cons hj _ ih =>
      obtain ⟨hx, hread⟩ := forall₂_cons.mp hread
      exact forall_mem_cons.mpr ⟨⟨_, hj, hx⟩, ih hread⟩
  · intro h
    induction as with
    | nil => exact ⟨[], .nil, .nil⟩
    | cons b as ih =>
      obtain ⟨⟨j, hj, hx⟩, h⟩ := forall_mem_cons.mp h
      obtain ⟨js, hjs, hxs⟩ := ih h
      exact ⟨j :: js, .cons hj hjs, .cons hx hxs⟩

theorem restores_list {head key : String} (hkey : heads.contains key = false)
    (hsaved : saved a = as.mapM saved >>= fun js => .ok (.obj [(head, .obj [(key, .arr js)])]))
    (hmake : ∀ x, build [(head, dict [(key, x)])] = .ok (wrap a) ↔ x = list (as.map wrap)) :
    Restores saved wrap a ↔ ∀ b ∈ as, Restores saved wrap b := by
  rw [← restores_all]
  constructor
  · rintro ⟨j, hj, ha⟩
    rw [hsaved] at hj
    obtain ⟨js, hjs, h⟩ := bind_eq_ok.mp hj
    cases h
    rw [ofJson_one _ hkey, ofJson_arr, bind_assoc] at ha
    obtain ⟨xs, hxs, ha⟩ := bind_eq_ok.mp ha
    obtain rfl := list.inj ((hmake _).mp ha)
    exact ⟨js, hjs, hxs⟩
  · rintro ⟨js, hjs, hxs⟩
    refine ⟨_, by rw [hsaved, hjs, ok_bind], ?_⟩
    rw [ofJson_one _ hkey, ofJson_arr, hxs]
    exact (hmake _).mpr rfl

end Restored

/-! ### Waveforms of their parts -/

section Parts

variable {N : Type}

theorem asInterpolation_name (i : Interpolation) :
    asInterpolation (text i.name : Loaded N) = .ok i := by
  cases i <;> rfl

theorem asKernel_name (k : Kernel) : asKernel (text k.name : Loaded N) =
      if k = .gaussian then .error (.unknownKernel k.name) else .ok k := by
  cases k <;> rfl

end Parts

variable {N : Type} [Arith N]

attribute [local simp] build firstOf buildScalar buildWaveform checkArguments checkParts part

section Scalars

variable (a b c : Scalar N) (x : Loaded N)

theorem build_linear :
    build [("linear", dict [("start", scalar a), ("stop", scalar b), ("duration", scalar c)])] =
      .ok (waveform (.linear a b c)) := by
  simp [heads, isScalarLike, lookup_cons, castScalar]

theorem build_constant : build [("constant", dict [("value", scalar a), ("duration", scalar b)])] =
    .ok (waveform (.constant a b)) := by
  simp [heads, isScalarLike, lookup_cons, castScalar]

theorem build_poly (cs : List (Scalar N)) :
    build [("poly", dict [("coeffs", list (cs.map scalar)), ("duration", scalar a)])] =
      .ok (waveform (.poly cs a)) := by
  have hcast : asList castScalar (list (cs.map scalar)) = .ok cs :=
    asList_map scalar (fun _ => rfl) cs
  simp [heads, isScalarLike, lookup_cons, castScalar, isScalarList, hcast]

theorem build_scale : build [("scale", dict [("waveform", x), ("scalar", scalar a)])] =
    asWaveform x >>= fun w => .ok (waveform (.scale a w)) := by
  simp [heads, lookup_cons, castScalar]

theorem build_smooth (y : Loaded N) :
    build [("smooth", dict [("waveform", x), ("radius", scalar a), ("kernel", y)])] =
      asKernel y >>= fun k => asWaveform x >>= fun w => .ok (waveform (.smooth a k w)) := by
  simp [heads, lookup_cons, castScalar]

theorem build_sample (y : Loaded N) :
    build [("sample", dict [("waveform", x), ("dt", scalar a), ("interpolation", y)])] =
      asWaveform x >>= fun w => asInterpolation y >>= fun i =>
        .ok (waveform (.sample w i a)) := by
  simp [heads, lookup_cons, asScalar]

end Scalars

section Waveforms

variable (x y : Loaded N)

theorem build_negative_waveform : build [("negative_waveform", dict [("waveform", x)])] =
    asWaveform x >>= fun w => .ok (waveform (.neg w)) := by
  simp [heads, lookup_cons]

theorem build_add_waveform : build [("add_waveform", dict [("left", x), ("right", y)])] =
    asWaveform x >>= fun a => asWaveform y >>= fun b => .ok (waveform (.add a b)) := by
  simp [heads, lookup_cons]

theorem build_slice_waveform : build [("slice_waveform", dict [("waveform", x), ("interval", y)])] =
      asWaveform x >>= fun w => asInterval y >>= fun i => .ok (waveform (.slice w i)) := by
  simp [heads, lookup_cons]

theorem build_append_waveform : build [("append_waveform", dict [("waveforms", x)])] =
    asList asWaveform x >>= fun ws => .ok (waveform (.append ws)) := by
  simp [heads, lookup_cons]

end Waveforms

end Loaded

/-! ### Restored waveforms -/

namespace Waveform

variable {N : Type}

/-- The waveform is read back from its saved form. -/
def Restored [Arith N] (w : Waveform N) : Prop := Restores saved .waveform w

/-! ### Which waveforms are restored -/

mutual

/-- Are all expressions of the waveform as the operations build them? -/
def isFormed : Waveform Quantity → Bool
  | linear a b d => a.isFormed && b.isFormed && d.isFormed
  | constant v d => v.isFormed && d.isFormed
  | poly cs d => Scalar.areFormed cs && d.isFormed
  | profile _ d ps _ => d.isFormed && Scalar.areFormed ps
  | smooth r _ w => isFormed w && r.isFormed
  | slice w i => isFormed w && i.isFormed
  | append ws => areFormed ws
  | neg w => isFormed w
  | scale s w => isFormed w && s.isFormed
  | add a b => isFormed a && isFormed b
  | record w name => isFormed w && (checkName name).isOk
  | sample w _ dt => isFormed w && dt.isFormed
  | aligned w _ (.scalar e) => isFormed w && e.isFormed
  | aligned w _ _ => isFormed w

def areFormed : List (Waveform Quantity) → Bool
  | [] => true
  | w :: ws => isFormed w && areFormed ws

end

mutual

/-- Is the waveform free of profiles, records and alignments? -/
def isSavable : Waveform N → Bool
  | linear .. => true
  | constant .. => true
  | poly .. => true
  | profile .. => false
  | smooth _ _ w => isSavable w
  | slice w _ => isSavable w
  | append ws => areSavable ws
  | neg w => isSavable w
  | scale _ w => isSavable w
  | add a b => isSavable a && isSavable b
  | record .. => false
  | sample w _ _ => isSavable w
  | aligned .. => false

def areSavable : List (Waveform N) → Bool
  | [] => true
  | w :: ws => isSavable w && areSavable ws

end

mutual

/-- Are all numbers of the waveform finite, and no kernel Gaussian? -/
def isReadable : Waveform Quantity → Bool
  | linear a b d => a.isFinite && b.isFinite && d.isFinite
  | constant v d => v.isFinite && d.isFinite
  | poly cs d => Scalar.areFinite cs && d.isFinite
  | profile .. => true
  | smooth r k w => isReadable w && r.isFinite && decide (k ≠ .gaussian)
  | slice w i => isReadable w && i.isFinite
  | append ws => areReadable ws
  | neg w => isReadable w
  | scale s w => isReadable w && s.isFinite
  | add a b => isReadable a && isReadable b
  | record w _ => isReadable w
  | sample w _ dt => isReadable w && dt.isFinite
  | aligned w _ _ => isReadable w

def areReadable : List (Waveform Quantity) → Bool
  | [] => true
  | w :: ws => isReadable w && areReadable ws

end

mutual

theorem exists_saved_iff [Arith N] : ∀ {w : Waveform N}, (∃ j, w.saved = .ok j) ↔ w.isSavable
  | linear .. | constant .. | poly .. | profile .. | record .. => by simp [saved, isSavable]
  | smooth .. | slice .. | neg _ | scale .. | add .. | sample .. => by
    simp [saved, isSavable, bind_eq_ok, ← exists_saved_iff]
  | append ws => by simp [saved, isSavable, bind_eq_ok, ← exists_savedAll_iff]
  | aligned .. => by simp [saved, isSavable, bind_eq_ok]

theorem exists_savedAll_iff [Arith N] : ∀ {ws : List (Waveform N)},
    (∃ js, savedAll ws = .ok js) ↔ areSavable ws
  | [] => by simp [savedAll, areSavable]
  | w :: ws => by
    simp [savedAll, areSavable, bind_eq_ok, ← exists_saved_iff, ← exists_savedAll_iff]

end

section Reading

attribute [local simp] bind_eq_ok and_assoc isReadable areReadable ofJson_two
  ofJson_three ofJson_str ofJson_arr Loaded.asWaveform

mutual

/-- A saved waveform is read as what it was, exactly if its numbers are finite and no kernel is
Gaussian, and never as anything else. -/
theorem ofJson_saved_eq_ok {w : Waveform Quantity} {j : Json} (h : w.isFormed)
    (hs : w.saved = .ok j) {x : Loaded Quantity} :
    ofJson j = .ok x ↔ w.isReadable ∧ x = .waveform w := by
  cases w <;> simp only [saved, bind_eq_ok, Except.ok.injEq, return_eq_ok, throw_eq_error,
    reduceCtorEq, and_false, exists_false] at hs
  all_goals simp only [isFormed, Bool.and_eq_true] at h
  case linear | constant =>
    subst hs
    simp [Scalar.ofJson_saved_eq_ok, h, build_linear, build_constant, eq_comm (a := x)]
  case poly cs d =>
    subst hs
    rw [← Scalar.savedAll_eq_map, ofJson_two, ofJson_arr, Scalar.ofItems_savedAll h.1, isReadable]
    cases Scalar.areFinite cs <;>
      simp [Scalar.ofJson_saved_eq_ok h.2, build_poly, eq_comm (a := x)]
  case smooth r k w =>
    obtain ⟨l, hl, rfl⟩ := hs
    by_cases hk : k = .gaussian <;>
      simp [ofJson_saved_eq_ok h.1 hl, Scalar.ofJson_saved_eq_ok h.2, build_smooth,
        asKernel_name, hk, eq_comm (a := x)]
  case slice w i =>
    obtain ⟨l, hl, rfl⟩ := hs
    rw [ofJson_two, Interval.ofJson_saved h.2, isReadable]
    cases i.isFinite <;>
      simp [ofJson_saved_eq_ok h.1 hl, build_slice_waveform, Loaded.asInterval, eq_comm (a := x)]
  case append ws =>
    obtain ⟨ls, hls, rfl⟩ := hs
    have hmap : Loaded.asList Loaded.asWaveform (.list (ws.map .waveform)) = .ok ws :=
      asList_map .waveform (fun _ => rfl) ws
    rw [ofJson_one _ rfl]
    simp [ofItems_savedAll_eq_ok h hls, build_append_waveform, hmap, eq_comm (a := x)]
  case neg w =>
    obtain ⟨l, hl, rfl⟩ := hs
    rw [ofJson_one _ rfl]
    simp [ofJson_saved_eq_ok h hl, build_negative_waveform, eq_comm (a := x)]
  case scale s w =>
    obtain ⟨l, hl, rfl⟩ := hs
    simp [ofJson_saved_eq_ok h.1 hl, Scalar.ofJson_saved_eq_ok h.2, build_scale, eq_comm (a := x)]
  case add a b =>
    obtain ⟨l, hl, r, hr, rfl⟩ := hs
    simp [ofJson_saved_eq_ok h.1 hl, ofJson_saved_eq_ok h.2 hr, build_add_waveform,
      eq_comm (a := x)]
  case sample w i dt =>
    obtain ⟨l, hl, rfl⟩ := hs
    simp [ofJson_saved_eq_ok h.1 hl, Scalar.ofJson_saved_eq_ok h.2, build_sample,
      asInterpolation_name, eq_comm (a := x)]

theorem ofItems_savedAll_eq_ok : ∀ {ws : List (Waveform Quantity)} {js : List Json},
    areFormed ws → savedAll ws = .ok js →
      ∀ {xs}, Loaded.ofItems js = .ok xs ↔ areReadable ws ∧ xs = ws.map .waveform
  | [], js, _, hs, xs => by
    cases hs
    simp [Loaded.ofItems]
  | w :: ws, js, h, hs, xs => by
    simp only [areFormed, Bool.and_eq_true] at h
    obtain ⟨l, ls, hl, hls, hs⟩ := bind₂_eq_ok.mp hs
    cases hs
    simp [Loaded.ofItems, ofJson_saved_eq_ok h.1 hl, ofItems_savedAll_eq_ok h.2 hls,
      eq_comm (a := xs)]

end

end Reading

theorem restored_iff {w : Waveform Quantity} (h : w.isFormed) :
    w.Restored ↔ w.isSavable ∧ w.isReadable := by
  rw [← exists_saved_iff]
  constructor
  · rintro ⟨j, hj, hread⟩
    exact ⟨⟨j, hj⟩, ((ofJson_saved_eq_ok h hj).mp hread).1⟩
  · rintro ⟨⟨j, hj⟩, hreadable⟩
    exact ⟨j, hj, (ofJson_saved_eq_ok h hj).mpr ⟨hreadable, rfl⟩⟩

/-- **Saved waveforms.** A waveform without profiles, records and alignments has a saved form, and
no other. It is read back from it exactly if its numbers are finite and no kernel is Gaussian. -/
theorem saved_and_restored_iff (w : Waveform Quantity) (h : w.isFormed = true) :
    ((∃ j, w.saved = .ok j) ↔ w.isSavable = true) ∧
      ((∃ j, w.saved = .ok j ∧ ofJson j = .ok (.waveform w)) ↔
        w.isSavable = true ∧ w.isReadable = true) :=
  ⟨exists_saved_iff, restored_iff h⟩

/-- Part of a scaled ramp, then the opposite of a smoothed parabola that was sampled before. -/
def nestedWaveform : Waveform Quantity :=
  .append [.slice (.scale (.var "a") (.linear (.lit 0) (.var "b") (.lit 2)))
      ⟨none, some (.lit 1)⟩,
    .neg (.smooth (.lit 1) .sigmoid (.sample
      (.poly [.lit 0, .var "b"] (.lit 4)) .linear (.lit 1)))]

theorem nestedWaveform_restored : nestedWaveform.isFormed = true ∧
      ∃ j, nestedWaveform.saved = .ok j ∧ ofJson j = .ok (.waveform nestedWaveform) := by
  have hformed : nestedWaveform.isFormed = true := by
    have hnames : ∀ name ∈ ["a", "b"], (checkName name).isOk = true := by decide
    have hnumbers : ∀ d ∈ [0, 1, 2, (4 : Decimal)], d.inRange = true := by decide
    simp_all [nestedWaveform, isFormed, areFormed, Scalar.isFormed, Scalar.areFormed,
      Interval.isFormed, Scalar.isFormedBound, Quantity.isWritable]
  exact ⟨hformed, (saved_and_restored_iff nestedWaveform hformed).2.mpr ⟨rfl, rfl⟩⟩

def unitPulse : Waveform Quantity := .constant (.lit 1) (.lit 1)

/-- Records and alignments of a constant are not saved; what a Gaussian kernel smooths is saved and
not read. -/
theorem unitPulse_not_restored : (record unitPulse "x").saved = .error .type ∧
      (aligned unitPulse .left .left).saved = .error .part ∧
      ∃ j, (smooth (.lit (.decimal 1)) .gaussian unitPulse).saved = .ok j ∧
        (ofJson j : Outcome (Loaded Quantity)) = .error (.unknownKernel "Gaussian") :=
  ⟨rfl, rfl, _, rfl, rfl⟩

end Waveform

end AtomArray
