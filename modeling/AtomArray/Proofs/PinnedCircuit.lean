import AtomArray.Circuit
import AtomArray.Proofs.Bundles
import AtomArray.Proofs.PinnedWaveform
import AtomArray.Proofs.RegisterSubstitution

/-!
Binding one parameter in a circuit, before or after anything else is done to it.

* `Circuit.assign_supplies`: to supply one value more is to supply the others and bind it;
* `Circuit.Pins.assign_eq`: a bound parameter counts as one that is supplied with the rest;
* `Circuit.Pins.scanRecords_agree`: the recorded values are the same.

All this is about a parameter that names no vector of coefficients. A number for a vector is refused
(`Circuit.assign_vector_ne_ok`).
-/

namespace AtomArray

open List Outcome Scalar Register Sequence

variable {N : Type}

/-! ### Members by their keys -/

section Members

variable {κ α β γ : Type}

theorem lookup_map_snd [BEq κ] (h : α → β) (l : List (κ × α)) (k : κ) :
    (l.map fun q => (q.1, h q.2)).lookup k = (l.lookup k).map h := by
  induction l with
  | nil => rfl
  | cons q l ih =>
    obtain ⟨j, a⟩ := q
    rw [map_cons, lookup_cons, lookup_cons, ih]
    cases k == j <;> rfl

variable {f : α → Outcome β} {g : α → Outcome γ} {xs : List (κ × α)}

theorem agree_members {P : β → Prop} {h : β → γ}
    (hstep : ∀ q ∈ xs, Agree (fun b c => P b ∧ c = h b) (f q.2) (g q.2)) :
    Agree (fun bs cs => (∀ b ∈ bs, P b.2) ∧ cs = bs.map fun b => (b.1, h b.2))
      (xs.mapM fun q => do return (q.1, ← f q.2)) (xs.mapM fun q => do return (q.1, ← g q.2)) := by
  exact Agree.mapM_map fun q hq => (hstep q hq).map fun b hb => ⟨hb, rfl⟩

theorem mapM_members_eq {h : α → β} {f : β → Outcome γ} (hstep : ∀ q ∈ xs, f (h q.2) = g q.2) :
    ((xs.map fun q => (q.1, h q.2)).mapM fun q => do return (q.1, ← f q.2)) =
      xs.mapM fun q => do return (q.1, ← g q.2) :=
  mapM_map_eq fun q hq => by rw [hstep q hq]

/-- What is found at an item exactly if it is found at its result is found in both lists or in
none. -/
theorem exists_mem_mapM_iff {as : List α} {bs : List β}
    (h : as.mapM f = .ok bs) {P : α → Prop} {Q : β → Prop}
    (hstep : ∀ a ∈ as, ∀ b, f a = .ok b → (Q b ↔ P a)) : (∃ b ∈ bs, Q b) ↔ ∃ a ∈ as, P a := by
  have hresults := mapM_eq_ok_iff.mp h
  constructor
  · rintro ⟨b, hb, hQ⟩
    obtain ⟨a, ha, hab⟩ := exists_of_mem_forall₂ hresults.flip hb
    exact ⟨a, ha, (hstep a ha b hab).mp hQ⟩
  · rintro ⟨a, ha, hP⟩
    obtain ⟨b, hb, hab⟩ := exists_of_mem_forall₂ hresults ha
    exact ⟨b, hb, (hstep a ha b hab).mpr hP⟩

end Members

/-! ### Parts of a circuit -/

/-- A sort of parts of a circuit, and what binding does to them. -/
structure Part (N A : Type) where
  assign : Env N → A → Outcome A
  scanRecords : Env N → A → Outcome (Env N)
  vectorNames : A → List (Option String)
  pin : A → A
  Clear : A → Prop

namespace Part

variable {A B κ : Type}

/-- For a part it does not matter when a parameter is bound to a number: if it is free, and names
no vector, the value can be supplied with others or later. A vector keeps its name and takes no
number. -/
structure Commutes (P : Part N A) (x : String) (v : N) (a : A) : Prop where
  assign_supplies {env env' : Env N} : env.Supplies x v env' → P.Clear a →
    some x ∉ P.vectorNames a →
    Agree (fun a a' => P.Clear a ∧ a' = P.pin a) (P.assign env a) (P.assign env' a)
  assign_pin {env env' : Env N} : env.Supplies x v env' → P.Clear a →
    some x ∉ P.vectorNames a → P.assign env (P.pin a) = P.assign env' a
  scanRecords_pin {env env' : Env N} : env.Precedes x v env' → P.Clear a →
    Agree (Env.Precedes x v) (P.scanRecords env (P.pin a)) (P.scanRecords env' a)
  mem_vectorNames {env : Env N} {n : Option String} {a' : A} : P.assign env a = .ok a' →
    (n ∈ P.vectorNames a' ↔ n ∈ P.vectorNames a)
  assign_ne_ok {env : Env N} {u : N} : env.lookup x = some (.number u) →
    some x ∈ P.vectorNames a → ∀ a', P.assign env a ≠ .ok a'

def keyed (P : Part N A) (κ : Type) : Part N (κ × A) where
  assign env q := do return (q.1, ← P.assign env q.2)
  scanRecords env q := P.scanRecords env q.2
  vectorNames q := P.vectorNames q.2
  pin q := (q.1, P.pin q.2)
  Clear q := P.Clear q.2

/-- A part of one sort is put together from a list of parts of another; binding is done in these,
and what becomes of them is put together by `r`. -/
structure Joins (P : Part N A) (Q : Part N B) (c r : List A → B) : Prop where
  assign_eq (env : Env N) (as : List A) :
    Q.assign env (c as) = do return r (← as.mapM (P.assign env)) := by intros; rfl
  scanRecords_eq (env : Env N) (as : List A) :
    Q.scanRecords env (c as) = as.foldlM P.scanRecords env := by intros; rfl
  vectorNames_eq (as : List A) : Q.vectorNames (c as) = as.flatMap P.vectorNames := by intros; rfl
  pin_eq (as : List A) : Q.pin (c as) = c (as.map P.pin) := by intros; rfl
  clear_iff (as : List A) : Q.Clear (c as) ↔ ∀ a ∈ as, P.Clear a := by intros; rfl

/-- Parts with a parameter bound make one with the parameter bound, and keep the names of vectors. -/
structure Yields (P : Part N A) (Q : Part N B) (r : List A → B) : Prop where
  pins {as : List A} : (∀ a ∈ as, P.Clear a) → Q.Clear (r as) ∧ r (as.map P.pin) = Q.pin (r as)
  mem_vectorNames {n : Option String} {as : List A} :
    n ∈ Q.vectorNames (r as) ↔ ∃ a ∈ as, n ∈ P.vectorNames a

/-- A part is put around another one of its sort, in which binding is done; it is put around the
result too, or there is no result. -/
structure Wraps (P : Part N A) (c : A → A) (next : A → Outcome A) : Prop where
  assign_eq (env : Env N) (a : A) : P.assign env (c a) = P.assign env a >>= next := by intros; rfl
  next_eq : (∀ a, next a = .ok (c a)) ∨ ∃ fault, ∀ a, next a = .error fault
  scanRecords_eq (env : Env N) (a : A) : P.scanRecords env (c a) = P.scanRecords env a := by
    intros; rfl
  vectorNames_eq (a : A) : P.vectorNames (c a) = P.vectorNames a := by intros; rfl
  pin_eq (a : A) : P.pin (c a) = c (P.pin a) := by intros; rfl
  clear_iff (a : A) : P.Clear (c a) ↔ P.Clear a := by intros; rfl

variable {P : Part N A} {Q : Part N B} {x : String} {v : N} {n : Option String} {c r : List A → B}

theorem Commutes.keyed {q : κ × A} (h : P.Commutes x v q.2) : (P.keyed κ).Commutes x v q where
  assign_supplies henv hclear hx := (h.assign_supplies henv hclear hx).map fun a ha => ⟨ha, rfl⟩
  assign_pin henv hclear hx := by
    have ha := h.assign_pin henv hclear hx
    simp only [Part.keyed, ha]
  scanRecords_pin := h.scanRecords_pin
  mem_vectorNames hassign := by
    obtain ⟨a, ha, hassign⟩ := bind_eq_ok.mp hassign
    cases hassign
    exact h.mem_vectorNames ha
  assign_ne_ok henv hn q' hassign := by
    obtain ⟨a, ha, -⟩ := bind_eq_ok.mp hassign
    exact h.assign_ne_ok henv hn a ha

theorem Joins.not_mem_vectorNames (hc : P.Joins Q c r) {as : List A}
    (h : n ∉ Q.vectorNames (c as)) {a : A} (ha : a ∈ as) : n ∉ P.vectorNames a := by
  rw [hc.vectorNames_eq] at h
  exact fun hn => h (mem_flatMap.mpr ⟨a, ha, hn⟩)

theorem Joins.yields (hc : P.Joins Q c c) : P.Yields Q c where
  pins h := ⟨(hc.clear_iff _).mpr h, (hc.pin_eq _).symm⟩
  mem_vectorNames {_ _} := by rw [hc.vectorNames_eq, mem_flatMap]

theorem Joins.commutes (hc : P.Joins Q c r) (hr : P.Yields Q r) {as : List A}
    (h : ∀ a ∈ as, P.Commutes x v a) : Q.Commutes x v (c as) where
  assign_supplies {env env'} henv hclear hx := by
    rw [hc.clear_iff] at hclear
    have hparts := Agree.mapM_map fun a ha =>
      (h a ha).assign_supplies henv (hclear a ha) (hc.not_mem_vectorNames hx ha)
    rw [hc.assign_eq, hc.assign_eq]
    exact hparts.map fun bs hbs => hr.pins hbs
  assign_pin {env env'} henv hclear hx := by
    rw [hc.clear_iff] at hclear
    have hparts := mapM_map_eq fun a ha =>
      (h a ha).assign_pin henv (hclear a ha) (hc.not_mem_vectorNames hx ha)
    rw [hc.pin_eq, hc.assign_eq, hc.assign_eq, hparts]
  scanRecords_pin henv hclear := by
    rw [hc.clear_iff] at hclear
    rw [hc.pin_eq, hc.scanRecords_eq, hc.scanRecords_eq]
    exact .foldlM_map (fun a ha _ _ hm => (h a ha).scanRecords_pin hm (hclear a ha)) henv
  mem_vectorNames hassign := by
    rw [hc.assign_eq] at hassign
    obtain ⟨bs, hbs, hassign⟩ := bind_eq_ok.mp hassign
    cases hassign
    rw [hr.mem_vectorNames, hc.vectorNames_eq, mem_flatMap]
    exact exists_mem_mapM_iff hbs fun a ha b hassign => (h a ha).mem_vectorNames hassign
  assign_ne_ok henv hn b hassign := by
    rw [hc.assign_eq] at hassign
    obtain ⟨bs, hbs, -⟩ := bind_eq_ok.mp hassign
    rw [hc.vectorNames_eq, mem_flatMap] at hn
    obtain ⟨a, ha, hn⟩ := hn
    obtain ⟨b, -, hassign⟩ := exists_of_mem_forall₂ (mapM_eq_ok_iff.mp hbs) ha
    exact (h a ha).assign_ne_ok henv hn b hassign

theorem Wraps.commutes {c : A → A} {next : A → Outcome A} (hc : P.Wraps c next) {a : A}
    (h : P.Commutes x v a) : P.Commutes x v (c a) where
  assign_supplies henv hclear hx := by
    rw [hc.clear_iff] at hclear
    rw [hc.vectorNames_eq] at hx
    rw [hc.assign_eq, hc.assign_eq]
    apply (h.assign_supplies henv hclear hx).bind
    rintro b _ ⟨hb, rfl⟩
    rcases hc.next_eq with hnext | ⟨fault, hnext⟩
    · rw [hnext, hnext]
      exact .ok ⟨(hc.clear_iff b).mpr hb, (hc.pin_eq b).symm⟩
    · rw [hnext, hnext]
      exact .error fault
  assign_pin henv hclear hx := by
    rw [hc.clear_iff] at hclear
    rw [hc.vectorNames_eq] at hx
    rw [hc.pin_eq, hc.assign_eq, hc.assign_eq, h.assign_pin henv hclear hx]
  scanRecords_pin henv hclear := by
    rw [hc.clear_iff] at hclear
    rw [hc.pin_eq, hc.scanRecords_eq, hc.scanRecords_eq]
    exact h.scanRecords_pin henv hclear
  mem_vectorNames hassign := by
    rw [hc.assign_eq] at hassign
    obtain ⟨b, hb, hassign⟩ := bind_eq_ok.mp hassign
    rcases hc.next_eq with hnext | ⟨fault, hnext⟩
    · rw [hnext] at hassign
      cases hassign
      rw [hc.vectorNames_eq, hc.vectorNames_eq]
      exact h.mem_vectorNames hb
    · rw [hnext] at hassign
      cases hassign
  assign_ne_ok henv hn b hassign := by
    rw [hc.assign_eq] at hassign
    obtain ⟨b, hb, -⟩ := bind_eq_ok.mp hassign
    rw [hc.vectorNames_eq] at hn
    exact h.assign_ne_ok henv hn b hb

end Part

/-! ### Modulations -/

variable {m : Modulation N}

namespace Modulation

def pin (x : String) (v : N) : Modulation N → Modulation N
  | scaled s => scaled (s.map fun q => (q.1, q.2.pin x v))
  | m => m

def Clear (x : String) : Modulation N → Prop
  | scaled s => ∀ q ∈ s, q.2.Clear x
  | _ => True

def Pins (x : String) (v : N) (m m' : Modulation N) : Prop := m.Clear x ∧ m' = m.pin x v

variable [Arith N] {x : String} {v : N}

variable {m' : Modulation N}

theorem same_pin [Arith.Exact N] (h : m.Clear x)
    (h' : m'.Clear x) : (m.pin x v).same (m'.pin x v) = m.same m' := by
  cases m <;> cases m'
  case scaled.scaled a b =>
    simp only [pin, same, Scales.same, length_map, all_map]
    congr 1
    rw [Bool.eq_iff_iff, all_eq_true, all_eq_true]
    refine forall₂_congr fun q hq => ?_
    simp only [Function.comp_apply, lookup_map_snd]
    cases hk : b.lookup q.1 with
    | none => rfl
    | some e => simp [same_pin (h q hq) (h' _ (mem_of_lookup hk))]
  all_goals rfl

variable {env env' : Env N}

theorem assign_supplies [Arith.Exact N] (henv : env.Supplies x v env') (h : m.Clear x)
    (hx : some x ∉ m.vectorNames) : Agree (Pins x v) (m.assign env) (m.assign env') := by
  cases m with
  | uniform => exact .ok ⟨trivial, rfl⟩
  | vector n =>
    have hn : n ≠ x := fun hn => hx (by simp [vectorNames, hn])
    rw [assign, assign, henv.lookup_of_ne hn]
    refine .self fun m' hm => ?_
    split at hm
    · obtain ⟨values, -, hm⟩ := bind_eq_ok.mp hm
      cases hm
      exact ⟨trivial, rfl⟩
    · cases hm
      exact ⟨trivial, rfl⟩
  | boundVector name values =>
    cases name with
    | none => exact .ok ⟨trivial, rfl⟩
    | some n =>
      have hn : n ≠ x := fun hn => hx (by simp [vectorNames, hn])
      simp only [assign, henv.has_of_ne hn]
      refine .self fun m' hm => ?_
      split at hm <;> cases hm
      exact ⟨trivial, rfl⟩
  | scaled s =>
    have hs := agree_members fun q hq => assign_supplies henv (h q hq)
    exact hs.map fun s hs => ⟨hs, rfl⟩

theorem assign_pin [Arith.Exact N] (henv : env.Supplies x v env') (h : m.Clear x)
    (hx : some x ∉ m.vectorNames) : (m.pin x v).assign env = m.assign env' := by
  cases m with
  | uniform => rfl
  | vector n =>
    have hn : n ≠ x := fun hn => hx (by simp [vectorNames, hn])
    rw [pin, assign, assign, henv.lookup_of_ne hn]
    simp
  | boundVector name values =>
    cases name with
    | none => rfl
    | some n =>
      have hn : n ≠ x := fun hn => hx (by simp [vectorNames, hn])
      simp only [pin, assign, henv.has_of_ne hn]
  | scaled s =>
    have hs := mapM_members_eq fun q hq => assign_pin henv (h q hq)
    exact congrArg (fun z => z >>= fun s => .ok (scaled s)) hs

theorem vectorNames_assign (h : m.assign env = .ok m') : m'.vectorNames = m.vectorNames := by
  cases m with
  | uniform =>
    cases h
    rfl
  | vector n =>
    rw [assign] at h
    split at h
    · obtain ⟨values, -, h⟩ := bind_eq_ok.mp h
      cases h
      rfl
    · cases h
      rfl
  | boundVector name values =>
    cases name with
    | none =>
      cases h
      rfl
    | some n =>
      simp only [assign] at h
      split at h <;> cases h
      rfl
  | scaled s =>
    obtain ⟨s', -, h⟩ := bind_eq_ok.mp h
    cases h
    rfl

theorem assign_vector_ne_ok (hx : env.lookup x = some (.number v)) (hm : some x ∈ m.vectorNames)
    (m' : Modulation N) : m.assign env ≠ .ok m' := by
  cases m with
  | uniform | scaled => cases hm
  | vector n =>
    obtain rfl : x = n := by simpa [vectorNames] using hm
    rw [assign, hx]
    rintro ⟨⟩
  | boundVector name values =>
    obtain rfl : some x = name := by simpa [vectorNames] using hm
    have hhas : env.has x := by rw [Env.has, hx, Option.isSome_some]
    simp only [assign, hhas, if_true]
    rintro ⟨⟩

theorem vectorNames_of_same (h : m.same m') : m.vectorNames = m'.vectorNames := by
  cases m <;> cases m' <;> simp_all [same, vectorNames]

end Modulation

/-! ### Fields -/

namespace Field

def pinDrive (x : String) (v : N) (d : Modulation N × Waveform N) : Drive N :=
  (d.1.pin x v, d.2.pin x v)

def ClearDrive (x : String) (d : Modulation N × Waveform N) : Prop := d.1.Clear x ∧ d.2.Clear x

def pin (x : String) (v : N) (f : Field N) : Field N := ⟨f.drives.map (pinDrive x v)⟩

def Clear (x : String) (f : Field N) : Prop := ∀ d ∈ f.drives, ClearDrive x d

def Pins (x : String) (v : N) (f f' : Field N) : Prop := f.Clear x ∧ f' = f.pin x v

variable [Arith N] {x : String} {v : N}

variable {ds : List (Drive N)} {w : Waveform N}

theorem insertDrive_pin [Arith.Exact N] (hm : m.Clear x) (hds : ∀ d ∈ ds, ClearDrive x d) :
    insertDrive (m.pin x v) (w.pin x v) (ds.map (pinDrive x v)) =
      (insertDrive m w ds).map (pinDrive x v) := by
  induction ds with
  | nil => rfl
  | cons d ds ih =>
    obtain ⟨m', w'⟩ := d
    rw [forall_mem_cons] at hds
    rw [map_cons, insertDrive, pinDrive, insertDrive]
    simp only [Modulation.same_pin hds.1.1 hm]
    split
    · rfl
    · rw [ih hds.2]
      rfl

theorem clear_insertDrive (h : ClearDrive x (m, w)) (hds : ∀ d ∈ ds, ClearDrive x d) :
    ∀ d ∈ insertDrive m w ds, ClearDrive x d := by
  induction ds with
  | nil => simpa [insertDrive] using h
  | cons d ds ih =>
    obtain ⟨m', w'⟩ := d
    rw [forall_mem_cons] at hds
    rw [insertDrive]
    split
    · exact forall_mem_cons.mpr ⟨⟨hds.1.1, h.2⟩, hds.2⟩
    · exact forall_mem_cons.mpr ⟨hds.1, ih hds.2⟩

theorem ofDrives_pin [Arith.Exact N] (hds : ∀ d ∈ ds, ClearDrive x d) :
    Pins x v (ofDrives ds) (ofDrives (ds.map (pinDrive x v))) := by
  -- What was gathered so far is a field with the parameter bound, too.
  suffices h : ∀ (ds : List (Drive N)) (f f' : Field N),
      (∀ d ∈ ds, ClearDrive x d) → Pins x v f f' →
      Pins x v (ds.foldl (fun f d => f.insert d.1 d.2) f)
        ((ds.map (pinDrive x v)).foldl (fun f d => f.insert d.1 d.2) f') from
    h ds ⟨[]⟩ ⟨[]⟩ hds ⟨by simp [Clear], rfl⟩
  intro ds
  induction ds with
  | nil => exact fun _ _ _ hf => hf
  | cons d ds ih =>
    rintro f _ hds ⟨hf, rfl⟩
    rw [forall_mem_cons] at hds
    have hinsert : (f.pin x v).insert (d.1.pin x v) (d.2.pin x v) = (f.insert d.1 d.2).pin x v :=
      congrArg Field.mk (insertDrive_pin hds.1.1 hf)
    exact ih _ _ hds.2 ⟨clear_insertDrive hds.1 hf, hinsert⟩

variable {env env' : Env N}

def assignDrive (env : Env N) (d : Modulation N × Waveform N) :
    Outcome (Drive N) := do
  let m ← d.1.assign env
  return (m, ← d.2.assign env)

/-! ### The vectors of a field -/

theorem mem_vectorNames_insertDrive : (∃ d ∈ insertDrive m w ds, n ∈ d.1.vectorNames) ↔
      n ∈ m.vectorNames ∨ ∃ d ∈ ds, n ∈ d.1.vectorNames := by
  induction ds with
  | nil => simp [insertDrive]
  | cons d ds ih =>
    obtain ⟨m', w'⟩ := d
    rw [insertDrive]
    split
    · rename_i hsame
      have hnames := Modulation.vectorNames_of_same hsame
      simp [← hnames]
    · simp only [exists_mem_cons_iff, ih]
      rw [or_left_comm]

theorem mem_vectorNames_ofDrives :
    n ∈ (ofDrives ds).vectorNames ↔ ∃ d ∈ ds, n ∈ d.1.vectorNames := by
  suffices h : ∀ (ds : List (Drive N)) (f : Field N),
      n ∈ (ds.foldl (fun f d => f.insert d.1 d.2) f).vectorNames ↔
        (∃ d ∈ f.drives, n ∈ d.1.vectorNames) ∨ ∃ d ∈ ds, n ∈ d.1.vectorNames from
    (h ds ⟨[]⟩).trans (by simp)
  intro ds
  induction ds with
  | nil => simp [vectorNames]
  | cons d ds ih =>
    intro f
    rw [foldl_cons, ih, insert]
    simp only [mem_vectorNames_insertDrive, exists_mem_cons_iff]
    rw [or_assoc, or_left_comm]

/-! ### Binding in a field -/

def drivePart (x : String) (v : N) : Part N (Drive N) :=
  ⟨assignDrive, fun env d => d.2.scanRecords env, fun d => d.1.vectorNames, pinDrive x v,
    ClearDrive x⟩

def part (x : String) (v : N) : Part N (Field N) :=
  ⟨assign, scanRecords, vectorNames, pin x v, Clear x⟩

theorem commutes_drive [Arith.Exact N] (d : Modulation N × Waveform N) :
    (drivePart x v).Commutes x v d where
  assign_supplies henv hclear hx :=
    (Modulation.assign_supplies henv hclear.1 hx).both (Waveform.assign_supplies henv hclear.2)
      fun m w hm hw => ⟨⟨hm, hw⟩, rfl⟩
  assign_pin henv hclear hx := by
    have hm := Modulation.assign_pin henv hclear.1 hx
    have hw := Waveform.assign_pin henv hclear.2
    simp only [drivePart, pinDrive, assignDrive, hm, hw]
  scanRecords_pin henv hclear := Waveform.scanRecords_pin hclear.2 henv
  mem_vectorNames hassign := by
    obtain ⟨m, w, hm, -, hassign⟩ := bind₂_eq_ok.mp hassign
    cases hassign
    simp only [drivePart, Modulation.vectorNames_assign hm]
  assign_ne_ok henv hn d' hassign := by
    obtain ⟨m, hm, -⟩ := bind_eq_ok.mp hassign
    exact Modulation.assign_vector_ne_ok henv hn m hm

theorem joins_drives : (drivePart x v).Joins (part x v) Field.mk ofDrives := {}

theorem commutes [Arith.Exact N] (f : Field N) : (part x v).Commutes x v f :=
  joins_drives.commutes ⟨ofDrives_pin, mem_vectorNames_ofDrives⟩ fun d _ => commutes_drive d

end Field

/-! ### Pulses and sequences -/

namespace Bundle

variable {κ α : Type} {x : String} {v : N}

def change (f : α → α) : Algebra κ α N (Bundle κ α N) where
  members ms := members (ms.map fun m => (m.1, f m.2))
  named := named
  append := append
  slice := slice

def all (P : α → Prop) : Algebra κ α N Prop where
  members ms := ∀ m ∈ ms, P m.2
  append ps := ∀ p ∈ ps, p

/-- Bundles whose parts are of some sort. -/
def part (κ : Type) (refused : Fault) (P : Part N α) : Part N (Bundle κ α N) where
  assign env := fold (bind (P.assign env) refused)
  scanRecords env b := b.fold (scan P.scanRecords) env
  vectorNames := fold (gather P.vectorNames fun _ => [])
  pin := fold (change P.pin)
  Clear := fold (all P.Clear)

variable {refused : Fault} {P : Part N α}

theorem joins_members : (P.keyed κ).Joins (part κ refused P) members members := {}

theorem joins_append : (part κ refused P).Joins (part κ refused P) append append where
  assign_eq _ bs := bind_append _ _ bs
  scanRecords_eq env bs := (congrFun (fold_append (scan _) bs) env).trans foldlM_map
  vectorNames_eq bs := fold_append (gather _ _) bs
  pin_eq bs := fold_append (change _) bs
  clear_iff bs := (iff_of_eq (fold_append (all _) bs)).trans forall_mem_map

theorem wraps_named (n : String) :
    (part κ refused P).Wraps (named · n) fun b => .ok (named b n) where
  next_eq := .inl fun _ => rfl

theorem wraps_slice (i : Interval N) :
    (part κ refused P).Wraps (slice · i) fun _ => .error refused where
  next_eq := .inr ⟨_, fun _ => rfl⟩

theorem commutes (h : ∀ a, P.Commutes x v a) (b : Bundle κ α N) :
    (part κ refused P).Commutes x v b := by
  induction b using induct with
  | members ms => exact joins_members.commutes joins_members.yields fun m _ => (h m.2).keyed
  | named b n ih => exact (wraps_named n).commutes ih
  | append bs ih => exact joins_append.commutes joins_append.yields ih
  | slice b i ih => exact (wraps_slice i).commutes ih

end Bundle

open AtomArray.Bundle (fold change all)

variable [Arith N] {x : String} {v : N}

namespace Pulse

def pin (x : String) (v : N) : Pulse N → Pulse N := fold (change (Field.pin x v))

def Clear (x : String) : Pulse N → Prop := fold (all (Field.Clear x))

def part (x : String) (v : N) : Part N (Pulse N) :=
  ⟨assign, scanRecords, vectorNames, pin x v, Clear x⟩

theorem commutes [Arith.Exact N] (p : Pulse N) : (part x v).Commutes x v p :=
  Bundle.commutes Field.commutes p

end Pulse

namespace Sequence

def pin (x : String) (v : N) : Sequence N → Sequence N := fold (change (Pulse.pin x v))

def Clear (x : String) : Sequence N → Prop := fold (all (Pulse.Clear x))

def part (x : String) (v : N) : Part N (Sequence N) :=
  ⟨assign, scanRecords, vectorNames, pin x v, Clear x⟩

theorem commutes [Arith.Exact N] (s : Sequence N) : (part x v).Commutes x v s :=
  Bundle.commutes Pulse.commutes s

end Sequence

/-! ### Registers -/

namespace Site

def pin (x : String) (v : N) (s : Site N) : Site N := ⟨s.x.pin x v, s.y.pin x v, s.filled⟩

def Clear (x : String) (s : Site N) : Prop := s.x.Clear x ∧ s.y.Clear x

end Site

namespace Register

def pin (x : String) (v : N) : Register N → Register N
  | list ss => list (ss.map (Site.pin x v))
  | lattice l s scaled => lattice l (s.pin x v) scaled

/-- A parameter is not bound in the places of sites, or in the spacing of a lattice. -/
def Clear (x : String) : Register N → Prop
  | list ss => ∀ s ∈ ss, s.Clear x
  | lattice _ s _ => s.Clear x

def Pins (x : String) (v : N) (r r' : Register N) : Prop := r.Clear x ∧ r' = r.pin x v

variable {env env' : Env N} {r : Register N}

theorem assign_supplies [Arith.Exact N] (henv : env.Supplies x v env') (h : r.Clear x) :
    Agree (Pins x v) (r.assign env) (r.assign env') := by
  cases r with
  | list ss =>
    have hsites : Agree (fun ss ss' => (∀ s ∈ ss, s.Clear x) ∧ ss' = ss.map (Site.pin x v))
        (ss.mapM fun s => do return ⟨← s.x.assign env, ← s.y.assign env, s.filled⟩)
        (ss.mapM fun s => do return ⟨← s.x.assign env', ← s.y.assign env', s.filled⟩) := by
      refine Agree.mapM_map fun s hs => ?_
      exact (assign_supplies henv (h s hs).1).both (assign_supplies henv (h s hs).2)
        fun a b ha hb => ⟨⟨ha, hb⟩, rfl⟩
    exact hsites.map fun ss hss => ⟨hss, rfl⟩
  | lattice l s scaled =>
    cases l with
    | rectangular => exact .error _
    | _ => exact (assign_supplies henv (e := s) h).map fun a ha => ⟨ha, rfl⟩

theorem assign_pin [Arith.Exact N] (henv : env.Supplies x v env') (h : r.Clear x) :
    (r.pin x v).assign env = r.assign env' := by
  cases r with
  | list ss =>
    rw [pin, assign, assign, mapM_map_eq]
    intro s hs
    rw [Site.pin, assign_pin henv (h s hs).1, assign_pin henv (h s hs).2]
  | lattice l s scaled =>
    cases l with
    | rectangular => rfl
    | _ => simp only [pin, assign, assign_pin henv (e := s) h]

/-- The vectors of a lattice are numbers. -/
def IsNumeric : Register N → Prop
  | list _ => True
  | lattice l _ _ => l.isRectangular = false

theorem assign_isNumeric {r' : Register N} (h : r.assign env = .ok r') : r'.IsNumeric := by
  cases r with
  | list ss =>
    obtain ⟨_, -, h⟩ := bind_eq_ok.mp h
    cases h
    trivial
  | lattice l s scaled =>
    cases l with
    | rectangular => cases h
    | _ =>
      obtain ⟨_, -, h⟩ := bind_eq_ok.mp h
      cases h
      rfl

omit [Arith N] in
theorem atomCount_pin (r : Register N) : (r.pin x v).atomCount = r.atomCount := by
  cases r with
  | list ss => simp [pin, atomCount, Function.comp_def, Site.pin]
  | lattice => rfl

theorem scalar_of_isNumber {c : Coordinate N} (h : c.isNumber) :
    Scalar.Pins x v c.scalar c.scalar := by
  cases c with
  | whole | real => exact pins_lit _
  | expr => cases h

theorem sites_pin [Arith.Exact N] (hr : r.IsNumeric) (h : r.Clear x) :
    Agree (fun ss ss' => (∀ s ∈ ss, s.Clear x) ∧ ss' = ss.map (Site.pin x v)) r.sites
      (r.pin x v).sites := by
  cases r with
  | list ss => exact .ok ⟨h, rfl⟩
  | lattice l s scaled =>
    have hs : s.Clear x := h
    have hcells : Agree (fun cells cells' => (∀ ss ∈ cells, ∀ s ∈ ss, s.Clear x) ∧
          cells' = cells.map (map (Site.pin x v)))
        (l.cells.mapM fun index => do (← l.coordinates index).mapM fun c => do
          return (⟨← s.times c.1.scalar, ← s.times c.2.scalar, true⟩ : Site N))
        (l.cells.mapM fun index => do (← l.coordinates index).mapM fun c => do
          return (⟨← (s.pin x v).times c.1.scalar, ← (s.pin x v).times c.2.scalar, true⟩ :
            Site N)) := by
      refine Agree.mapM_map fun index hindex => ?_
      obtain ⟨cs, hcs, hnumeric⟩ := Lattice.exists_coordinates hr hindex
      rw [hcs, ok_bind, ok_bind]
      refine Agree.mapM_map fun c hc => ?_
      obtain ⟨hx, hy⟩ := Lattice.isNumeric_iff.mp (hnumeric c hc)
      have htimes : ∀ {e : Scalar N}, Scalar.Pins x v e e →
          Agree (Scalar.Pins x v) (s.times e) ((s.pin x v).times e) := by
        rintro e ⟨he, hpin⟩
        have := times_pin (v := v) hs he
        rwa [← hpin] at this
      exact (htimes (scalar_of_isNumber hx)).both (htimes (scalar_of_isNumber hy))
        fun a b ha hb => ⟨⟨ha, hb⟩, rfl⟩
    exact hcells.map fun cells hclear => ⟨forall_mem_flatten.mpr hclear, map_flatten.symm⟩

end Register

/-! ### Copies of a register -/

omit [Arith N] in
theorem runningExtremum_pin {op : Scalar N → Scalar N → Outcome (Scalar N)}
    (hop : ∀ {a b}, a.Clear x → b.Clear x →
      Agree (Scalar.Pins x v) (op a b) (op (a.pin x v) (b.pin x v)))
    {es : List (Scalar N)} (hes : ∀ e ∈ es, e.Clear x) {a : Scalar N} (ha : a.Clear x) :
    Agree (Scalar.Pins x v) (runningExtremum op a es)
      (runningExtremum op (a.pin x v) (es.map (Scalar.pin x v))) := by
  induction es generalizing a with
  | nil => exact .ok ⟨ha, rfl⟩
  | cons e es ih =>
    rw [forall_mem_cons] at hes
    rw [map_cons, runningExtremum, runningExtremum]
    apply (hop hes.1 ha).bind
    rintro b _ ⟨hb, rfl⟩
    exact ih hes.2 hb

theorem extentPlus_pin [Arith.Exact N] {spacing first : Scalar N}
    {rest : List (Scalar N)} (hspacing : spacing.Clear x) (hfirst : first.Clear x)
    (hrest : ∀ e ∈ rest, e.Clear x) :
    Agree (Scalar.Pins x v) (extentPlus spacing first rest)
      (extentPlus (spacing.pin x v) (first.pin x v) (rest.map (Scalar.pin x v))) := by
  rw [extentPlus, extentPlus]
  apply (runningExtremum_pin (lesser_pin) hrest hfirst).bind
  rintro least _ ⟨hleast, rfl⟩
  apply (runningExtremum_pin (greater_pin) hrest hfirst).bind
  rintro most _ ⟨hmost, rfl⟩
  apply (minus_pin hmost hleast).bind
  rintro width _ ⟨hwidth, rfl⟩
  exact plus_pin hwidth hspacing

namespace Tiling

/-- Copies of a register are laid out with a parameter bound as they are without. -/
theorem ofRegister_pin [Arith.Exact N] {r : Register N} {spacing : Scalar N}
    (hr : r.IsNumeric) (h : r.Clear x) (hspacing : spacing.Clear x) :
    Agree (fun t t' => (t.register = r ∧ t.spacing = spacing) ∧
        t'.register = r.pin x v ∧ t'.spacing = spacing.pin x v)
      (ofRegister r spacing) (ofRegister (r.pin x v) (spacing.pin x v)) := by
  rw [ofRegister, ofRegister, atomCount_pin]
  apply (Agree.self (R := Eq) fun _ _ => rfl).bind
  rintro count _ rfl
  split
  · exact .error _
  apply (sites_pin hr h).bind
  rintro sites _ ⟨hsites, rfl⟩
  cases sites with
  | nil => exact .error _
  | cons s ss =>
    rw [forall_mem_cons] at hsites
    have hxs : (ss.map (Site.pin x v)).map (·.x) = (ss.map (·.x)).map (Scalar.pin x v) := by
      simp [Site.pin]
    have hys : (ss.map (Site.pin x v)).map (·.y) = (ss.map (·.y)).map (Scalar.pin x v) := by
      simp [Site.pin]
    have hclear : (∀ e ∈ ss.map (·.x), e.Clear x) ∧ ∀ e ∈ ss.map (·.y), e.Clear x := by
      constructor
      · exact forall_mem_map.mpr fun s hs => (hsites.2 s hs).1
      · exact forall_mem_map.mpr fun s hs => (hsites.2 s hs).2
    simp only [map_cons, hxs, hys]
    apply (extentPlus_pin hspacing hsites.1.1 hclear.1).bind₂
      (extentPlus_pin hspacing hsites.1.2 hclear.2)
    intro _ _ _ _ _ _
    exact .ok ⟨⟨rfl, rfl⟩, rfl, rfl⟩

end Tiling

namespace Arrangement

/-- A parameter is not bound in a register, or in the register and the spacing of its copies. -/
def Clear (x : String) : Arrangement N → Prop
  | plain r => r.Clear x
  | tiled t => t.register.Clear x ∧ t.spacing.Clear x

/-- The second arrangement is the first one with a parameter bound, as far as it is read again when
parameters are bound. -/
inductive Pins (x : String) (v : N) : Arrangement N → Arrangement N → Prop where
  | plain {r : Register N} : r.Clear x → Pins x v (.plain r) (.plain (r.pin x v))
  | tiled {t t' : Tiling N} : t.register.Clear x → t.spacing.Clear x →
      t'.register = t.register.pin x v → t'.spacing = t.spacing.pin x v →
      Pins x v (.tiled t) (.tiled t')

variable {env env' : Env N} {a : Arrangement N}

theorem assign_supplies [Arith.Exact N] (henv : env.Supplies x v env') (h : a.Clear x) :
    Agree (Pins x v) (a.assign env) (a.assign env') := by
  cases a with
  | plain r =>
    have hr : r.Clear x := h
    apply (assign_supplies henv hr).bind
    rintro r' _ ⟨hr', rfl⟩
    exact .ok (.plain hr')
  | tiled t =>
    have htiling : Agree (fun t t' => Pins x v (.tiled t) (.tiled t')) (t.assign env)
        (t.assign env') := by
      rw [Tiling.assign, Tiling.assign]
      apply (assign_supplies henv h.1).results.bind₂ (assign_supplies henv h.2)
      rintro r _ ⟨⟨hr, rfl⟩, hassign, -⟩ spacing _ ⟨hspacing, rfl⟩
      apply (Tiling.ofRegister_pin (assign_isNumeric hassign) hr hspacing).imp
      rintro t t' ⟨⟨rfl, rfl⟩, hregister', hspacing'⟩
      exact .tiled hr hspacing hregister' hspacing'
    exact htiling.bind fun _ _ ht => .ok ht

theorem Pins.assign_eq [Arith.Exact N] (henv : env.Supplies x v env') {a' : Arrangement N}
    (h : Pins x v a a') : a'.assign env = a.assign env' := by
  cases h with
  | plain hr => rw [assign, assign, assign_pin henv hr]
  | @tiled t t' hr hs hregister hspacing =>
    rw [assign, assign, Tiling.assign, Tiling.assign, hregister, hspacing,
      assign_pin henv hr, assign_pin henv hs]

end Arrangement

namespace Circuit

def Clear (x : String) (c : Circuit N) : Prop := c.register.Clear x ∧ c.sequence.Clear x

/-- The second circuit is the first one with a parameter bound, as far as it is read again when
parameters are bound. -/
structure Pins (x : String) (v : N) (c c' : Circuit N) : Prop where
  register : c.register.Pins x v c'.register
  sequence_clear : c.sequence.Clear x
  sequence_eq : c'.sequence = c.sequence.pin x v

variable [Arith.Exact N] {env env' : Env N} {c c' : Circuit N}

/-- Supplying one value more is supplying the others and binding it. -/
theorem assign_supplies (henv : env.Supplies x v env') (h : c.Clear x)
    (hx : some x ∉ c.sequence.vectorNames) :
    Agree (Pins x v) (c.assign env) (c.assign env') := by
  have hsequence : Agree (fun s s' => s.Clear x ∧ s' = s.pin x v) (c.sequence.assign env)
      (c.sequence.assign env') := (commutes c.sequence).assign_supplies henv h.2 hx
  apply (Arrangement.assign_supplies henv h.1).bind₂ hsequence
  rintro a a' ha s _ ⟨hs, rfl⟩
  exact .ok ⟨ha, hs, rfl⟩

theorem Pins.assign_eq (henv : env.Supplies x v env') (h : c.Pins x v c')
    (hx : some x ∉ c.sequence.vectorNames) : c'.assign env = c.assign env' := by
  have hsequence : (c.sequence.pin x v).assign env = c.sequence.assign env' :=
    (commutes c.sequence).assign_pin henv h.sequence_clear hx
  rw [assign, assign, h.register.assign_eq henv, h.sequence_eq, hsequence]

/-- The values recorded with a parameter bound are those recorded if it is supplied. -/
theorem Pins.scanRecords_agree (henv : env.Precedes x v env') (h : c.Pins x v c') :
    Agree (Env.Precedes x v) (c'.scanRecords env) (c.scanRecords env') := by
  rw [scanRecords, scanRecords, h.sequence_eq]
  exact (commutes c.sequence).scanRecords_pin henv h.sequence_clear

theorem mem_vectorNames_assign (h : c.assign env = .ok c') :
    some x ∈ c'.sequence.vectorNames ↔ some x ∈ c.sequence.vectorNames := by
  obtain ⟨_, s, -, hs, h⟩ := bind₂_eq_ok.mp h
  cases h
  exact (commutes (x := x) (v := Arith.zero) c.sequence).mem_vectorNames hs

theorem assign_vector_ne_ok {u : N} (henv : env.lookup x = some (.number u))
    (hx : some x ∈ c.sequence.vectorNames) : c.assign env ≠ .ok c' := by
  intro h
  obtain ⟨_, s, -, hs, -⟩ := bind₂_eq_ok.mp h
  exact (commutes (v := u) c.sequence).assign_ne_ok henv hx s hs

end Circuit

end AtomArray
