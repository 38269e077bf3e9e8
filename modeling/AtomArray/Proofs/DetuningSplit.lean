import AtomArray.Proofs.Aggregation
import AtomArray.Proofs.HardwareDraft
import AtomArray.Proofs.LinearSeries

/-!
The detuning of a compiled program.

A detuning field is compiled to a series for all atoms and, if it drives single sites, to one more
series with a coefficient for every site. At every site and as long as all drives last, the two
together (`HardwareProgram.detuningAt`) are the drive of the field
(`HardwareProgram.ofCircuit_splits_detuning`).

`HardwareDraft.Splits` says it of the program of a draft. A detuning field establishes it
(`Splits.of_addDetuning`), and the other steps of compiling keep it.
-/

namespace AtomArray

open List Outcome Option PiecewiseLinear Sequence Except HardwareProgram HardwareDraft

/-! ### Coefficients -/

variable {c : Param Rat} {x : Rat}

theorem Param.number?_of_stored? (h : c.stored? = .ok x) : c.number? = .ok x := by
  cases c with
  | number v => exact h
  | whole i => exact h
  | text s =>
    rw [stored?] at h
    rw [number?]
    split at h
    · split at h
      · exact h
      · cases h
    · cases h
  | _ => cases h

/-- A coefficient vector is supplied as a list or an array. -/
def Modulation.Listed (env : Env Rat) (m : Modulation Rat) : Prop :=
  ∀ name, m = .vector name → ∃ v xs, env.lookup name = some v ∧ v.items? = some xs

variable {cs : List (Param Rat)} {w : Waveform Rat}

namespace HardwareDraft

variable {env : Env Rat} {shots : Int} {d d' own : HardwareDraft Rat} {p : HardwareProgram Rat}
  {f : Field Rat} {m : Modulation Rat} {n k : Nat} {t : Rat}

theorem vectorItems_of_items? {v : Param Rat} {xs : List (Param Rat)} (h : v.items? = some xs) :
    vectorItems v = .ok xs := by
  cases v with
  | list | array => rw [← Option.some.inj h, vectorItems]
  | _ => simp [Param.items?] at h

theorem Weighs.coefficient
    (h : Weighs env n m cs) (hm : m.Listed env) (hc : cs[k]? = some c) (hx : c.stored? = .ok x) :
    m.coefficient env k = .ok x := by
  cases m with
  | uniform =>
    obtain rfl := h
    obtain rfl := eq_of_mem_replicate (mem_of_getElem? hc)
    have hone : (Arith.ofDecimal (.finite false 10 (-1)) : Rat) = 1 := by with_unfolding_all rfl
    rw [hone] at hx
    exact hx
  | scaled scales =>
    obtain ⟨i, hi, he⟩ := exists_getElem?_of_forall₂ (mapM_eq_ok_iff.mp h.2) hc
    obtain ⟨hk, rfl⟩ := List.getElem?_eq_some_iff.mp hi
    rw [getElem_range] at he
    rw [Modulation.coefficient, Scales.scaleAt]
    cases hlookup : scales.lookup (k : Int) with
    | some e =>
      cases hv : e.eval env with
      | error fault => simp [hlookup, hv, Except.map] at he
      | ok y =>
        obtain rfl : .number y = c := by simpa [hlookup, hv, Except.map] using he
        exact hv.trans hx
    | none =>
      obtain rfl : .number 0 = c := by
        have hzero : (unscaled : Scalar Rat).eval env = .ok 0 := by
          simp [unscaled, Scalar.const, Scalar.eval, Arith.ofDecimal, Decimal.toRat]
        simpa [hlookup, hzero, Except.map] using he
      exact hx
  | vector name =>
    obtain ⟨v, hv, hcs, -⟩ := h
    obtain ⟨v', xs, hv', hxs⟩ := hm name rfl
    obtain rfl : v = v' := Option.some.inj (hv.symm.trans hv')
    obtain rfl := ok.inj ((vectorItems_of_items? hxs).symm.trans hcs)
    simp [Modulation.coefficient, hv, hxs, item?_of_getElem? hc, Param.number?_of_stored? hx]
  | boundVector name values =>
    obtain ⟨-, rfl⟩ := h
    obtain ⟨a, ha, rfl⟩ := getElem?_map ▸ hc |> map_eq_some_iff.mp
    rw [Modulation.coefficient, item?_of_getElem? ha]
    exact hx

/-! ### Series -/

theorem eval_zeroLinear (stop t : Rat) : (zeroLinear stop).eval t = .ok 0 := by
  rcases le_or_gt stop t with hstop | hstop
  · simp [zeroLinear, eval, lastItem?, hstop]
  · rcases le_or_gt t 0 with hzero | hzero
    · simp [zeroLinear, eval, lastItem?, firstItem?, hzero]
    · have htraces : Traces .linear (fun _ => 0) 0 stop [(0, 0), (stop, 0)] :=
        .cons ⟨hzero.trans hstop, fun t _ => by simp [SeriesKind.value]⟩ (.last stop 0)
      exact eval_ofPoints htraces (hzero.trans hstop) hzero.le hstop.le

theorem eval_ofWaveform {q : PiecewiseLinear Rat} (hw : w.Timed env)
    (hq : ofWaveform env w = .ok q) (h0 : 0 ≤ t)
    (ht : ∀ e, w.length env = .ok e → t ≤ e) : ∃ v, q.eval t = .ok v ∧ w.eval env t = .ok v := by
  obtain ⟨e, g, points, hden, htraces, -, rfl⟩ := rules_sound.realizes hw hq
  have hte := ht e hden.length
  exact ⟨g t, eval_ofPoints htraces hden.pos h0 hte, hden.value t h0 hte⟩

end HardwareDraft

/-! ### The detuning of a program -/

namespace HardwareProgram

variable {p : HardwareProgram Rat} {k : Nat} {t : Rat}

/-- The detuning of a site at a time: that of all atoms, and that of single sites times the
coefficient of the site. -/
def detuningAt (k : Nat) (t : Rat) (p : HardwareProgram Rat) : Outcome Rat := do
  let all ← p.detuning.eval t
  match p.localDetuning with
  | none => return all
  | some own => return all + (← item? (p.coefficients.getD []) k) * (← own.eval t)

theorem detuningAt_of_none {z : Rat} (hlocal : p.localDetuning = none)
    (hz : p.detuning.eval t = .ok z) : p.detuningAt k t = .ok z := by
  simp [detuningAt, hz, hlocal]

theorem detuningAt_of_some {own : PiecewiseLinear Rat} {xs : List Rat} {y z : Rat}
    (hlocal : p.localDetuning = some own) (hz : p.detuning.eval t = .ok z)
    (hxs : p.coefficients = some xs) (hx : xs[k]? = some x) (hy : own.eval t = .ok y) :
    p.detuningAt k t = .ok (z + x * y) := by
  simp [detuningAt, hz, hlocal, hxs, item?_of_getElem? hx, hy]

end HardwareProgram

variable {fs : List (FieldName × Field Rat)}

namespace HardwareDraft

variable {env : Env Rat} {shots : Int} {d d' own : HardwareDraft Rat} {p : HardwareProgram Rat}
  {f : Field Rat} {k : Nat} {t : Rat}

/-- The program of a draft has the detuning of a field at a site and a time. -/
structure Splits (env : Env Rat) (f : Field Rat) (k : Nat) (t : Rat) (d : HardwareDraft Rat) :
    Prop where
  detuned : d.detuning.isSome
  drive : ∀ p, d.Emits p → ∃ v, p.detuningAt k t = .ok v ∧ f.driveAt env env k t = .ok v

/-- The drives of a field can be compiled and last at least until a time. -/
def Lasts (env : Env Rat) (t : Rat) (f : Field Rat) : Prop :=
  ∀ x ∈ f.drives, x.1.Listed env ∧ x.2.Timed env ∧ ∀ e, x.2.length env = .ok e → t ≤ e

theorem driveValue_uniform {v : Rat} (hv : w.eval env t = .ok v) :
    driveValue env env k t (.uniform, w) = .ok v :=
  driveValue_eq_ok.mpr ⟨1, v, rfl, hv, (one_mul v).symm⟩

/-- The program of a draft has a coefficient for each site that the draft has one for. -/
theorem Emits.exists_coefficient (hp : d.Emits p)
    (hcs : d.coefficients = some cs) (hk : k < cs.length) :
    ∃ xs x c, p.coefficients = some xs ∧ xs[k]? = some x ∧ cs[k]? = some c ∧ c.stored? = .ok x := by
  have hsome : p.coefficients.isSome := by
    rw [hp.isSome_coefficients, hcs]
    rfl
  obtain ⟨xs, hxs⟩ := isSome_iff_exists.mp hsome
  obtain ⟨cs', hcs', hstored⟩ := hp.exists_coefficients hxs
  obtain rfl : cs = cs' := Option.some.inj (hcs.symm.trans hcs')
  have hlength : xs.length = cs.length := (mapM_eq_ok_iff.mp hstored).length_eq.symm
  have hx : xs[k]? = some (xs.get ⟨k, hlength ▸ hk⟩) := getElem?_eq_getElem _
  obtain ⟨c, hc, hcx⟩ := exists_getElem?_of_forall₂ (mapM_eq_ok_iff.mp hstored) hx
  exact ⟨xs, _, c, hxs, hx, hc, hcx⟩

/-- **One field.** The detuning that is compiled for a field is the drive of the field. -/
theorem Splits.of_addDetuning (hf : Lasts env t f) (h0 : 0 ≤ t) (hlocal : d.localDetuning = none)
    (hdecoder : d.decoder = none) (hk : ∀ n, d.siteCount = some n → k < n)
    (h : addDetuning env d f = .ok d') : d'.Splits env f k t := by
  have hvalue : ∀ {m : Modulation Rat} {w : Waveform Rat} {q : PiecewiseLinear Rat},
      (m, w) ∈ f.drives → ofWaveform env w = .ok q →
        ∃ v, q.eval t = .ok v ∧ w.eval env t = .ok v := by
    intro m w q hmem hq
    obtain ⟨-, htimed, hlast⟩ := hf _ hmem
    exact eval_ofWaveform htimed hq h0 hlast
  obtain ⟨step, hsets, hstep⟩ := exists_sets (x := (.detuning, f)) h
  replace h := (hstep d).symm.trans h
  cases hsets with
  | @detuning _ w all hdrives hall =>
    cases h
    refine ⟨rfl, fun p hp => ?_⟩
    obtain ⟨z, hz, hwz⟩ := hvalue (by rw [hdrives]; exact mem_cons_self) hall
    obtain rfl : all = p.detuning := Option.some.inj hp.detuning
    refine ⟨z, detuningAt_of_none (hp.localDetuning.trans hlocal) hz, ?_⟩
    rw [Field.driveAt, hdrives, sumOf_singleton]
    exact driveValue_uniform hwz
  | @sites _ m w' all own hown hdrives =>
    have hmem : (m, w') ∈ f.drives := by
      rcases hdrives with ⟨hdrives, -⟩ | ⟨w, -, hdrives | hdrives⟩ <;> simp [hdrives]
    obtain ⟨n, base, cs, hn, hweighs, hspread, rfl⟩ := addModulation_eq_ok h
    obtain rfl : cs = base := by simpa [SpreadOver, hdecoder] using hspread
    refine ⟨rfl, fun p hp => ?_⟩
    obtain rfl : all = p.detuning := Option.some.inj hp.detuning
    obtain ⟨y, hy, hwy⟩ := hvalue hmem hown
    -- The site has a coefficient, and the program keeps its number.
    obtain ⟨xs, x, c, hxs, hx, hc, hstored⟩ :=
      hp.exists_coefficient (k := k) rfl (hweighs.length.symm ▸ hk n hn)
    have hcoefficient := hweighs.coefficient (hf _ hmem).1 hc hstored
    have hdrive : driveValue env env k t (m, w') = .ok (x * y) :=
      driveValue_eq_ok.mpr ⟨x, y, hcoefficient, hwy, rfl⟩
    have hdetuning {z : Rat} (hz : p.detuning.eval t = .ok z) :
        p.detuningAt k t = .ok (z + x * y) :=
      detuningAt_of_some hp.localDetuning hz hxs hx hy
    rcases hdrives with ⟨hdrives, stop, -, hzero⟩ | ⟨w, hall, hdrives⟩
    · refine ⟨0 + x * y, hdetuning (hzero ▸ eval_zeroLinear stop t), ?_⟩
      rw [Field.driveAt, hdrives, sumOf_singleton, zero_add]
      exact hdrive
    · obtain ⟨z, hz, hwz⟩ := hvalue (m := .uniform)
        (by rcases hdrives with hdrives | hdrives <;> simp [hdrives]) hall
      refine ⟨z + x * y, hdetuning hz, ?_⟩
      have huniform := driveValue_uniform (k := k) hwz
      rw [Field.driveAt]
      rcases hdrives with hdrives | hdrives
      · rw [hdrives]
        exact sumOf_cons.mpr ⟨z, x * y, huniform, sumOf_singleton.mpr hdrive, rfl⟩
      · rw [hdrives]
        exact sumOf_cons.mpr ⟨x * y, z, hdrive, sumOf_singleton.mpr huniform, add_comm _ _⟩

/-! ### Fields of a pulse -/

/-- Nothing has been compiled for the detuning. -/
structure Untuned (d : HardwareDraft Rat) : Prop where
  detuning : d.detuning = none
  localDetuning : d.localDetuning = none

/-- A draft has the detuning of a field; nothing stands for a field without drives. -/
def Tuned (env : Env Rat) (f : Field Rat) (k : Nat) (t : Rat) (d : HardwareDraft Rat) : Prop :=
  (f.drives = [] ∧ d.Untuned) ∨ d.Splits env f k t

def detuningOf (fs : List (FieldName × Field Rat)) : Field Rat :=
  (EmulatorScope.field? fs .detuning).getD ⟨[]⟩

theorem detuningOf_cons {x : FieldName × Field Rat} :
    detuningOf (x :: fs) = if x.1 = .detuning then x.2 else detuningOf fs := by
  by_cases hx : x.1 = .detuning
  · simp [detuningOf, EmulatorScope.field?, hx]
  · simp [detuningOf, EmulatorScope.field?, hx]

theorem Splits.of_parts {amplitude : Option (PiecewiseLinear Rat)}
    {phase : Option (PiecewiseConstant Rat)} (h : d.Splits env f k t) :
    Splits env f k t { d with amplitude := amplitude, phase := phase } where
  detuned := h.detuned
  drive p hp := h.drive p
    ⟨hp.decoder, hp.sites, hp.filling, hp.detuning, hp.localDetuning, hp.coefficients⟩

theorem addFields_eq_ok (hfs : .detuning ∉ fs.map Prod.fst)
    (h : fs.foldlM (addField env) d = .ok d') :
    ∃ amplitude phase, d' = { d with amplitude := amplitude, phase := phase } := by
  refine foldlM_keeps (P := fun d' => ∃ amplitude phase,
    d' = { d with amplitude := amplitude, phase := phase }) (fun x hx _ d' hd h => ?_) ⟨_, _, rfl⟩ h
  obtain ⟨_, _, rfl⟩ := hd
  obtain ⟨_, _, rfl⟩ := addField_eq_ok (fun heq => hfs (heq ▸ mem_map_of_mem hx)) h
  exact ⟨_, _, rfl⟩

/-- **All fields of a pulse.** A draft gets the detuning of the detuning field. -/
theorem Tuned.of_addFields (hkeys : (fs.map Prod.fst).Nodup) (hf : Lasts env t (detuningOf fs))
    (h0 : 0 ≤ t) (hd : d.Untuned) (hdecoder : d.decoder = none)
    (hk : ∀ n, d.siteCount = some n → k < n) (h : fs.foldlM (addField env) d = .ok d') :
    d'.Tuned env (detuningOf fs) k t := by
  induction fs generalizing d with
  | nil =>
    cases h
    exact .inl ⟨rfl, hd⟩
  | cons x fs ih =>
    rw [foldlM_cons] at h
    obtain ⟨next, hnext, hrest⟩ := bind_eq_ok.mp h
    obtain ⟨hother, hkeys⟩ := nodup_cons.mp hkeys
    rw [detuningOf_cons] at hf ⊢
    by_cases hx : x.1 = .detuning
    · rw [if_pos hx] at hf ⊢
      obtain ⟨name, f⟩ := x
      obtain rfl : name = .detuning := hx
      obtain ⟨_, _, rfl⟩ := addFields_eq_ok hother hrest
      exact .inr (Splits.of_addDetuning hf h0 hd.localDetuning hdecoder hk hnext).of_parts
    · rw [if_neg hx] at hf ⊢
      obtain ⟨_, _, rfl⟩ := addField_eq_ok hx hnext
      refine ih hkeys hf ⟨?_, ?_⟩ ?_ ?_ hrest
      · exact hd.detuning
      · exact hd.localDetuning
      · exact hdecoder
      · exact hk

/-! ### Completed drafts and sequences -/

/-- The program of a draft has the detuning of the field; one that is missing is completed to
zero. -/
theorem Tuned.emit (hd : d.Tuned env f k t) (h : d.emit shots = .ok (d', p)) :
    ∃ v, p.detuningAt k t = .ok v ∧ f.driveAt env env k t = .ok v := by
  obtain ⟨hcompleted, hp⟩ := emit_eq_ok h
  rcases hd with ⟨hdrives, hd⟩ | hd
  · rcases completed_eq_ok hcompleted with rfl | ⟨stop, _, _, rfl⟩
    · exact absurd (hd.detuning.symm.trans hp.detuning) (by simp)
    · have hzero : zeroLinear stop = p.detuning := by simpa [hd.detuning] using hp.detuning
      refine ⟨0, detuningAt_of_none (hp.localDetuning.trans hd.localDetuning)
        (hzero ▸ eval_zeroLinear stop t), ?_⟩
      rw [Field.driveAt, hdrives]
      rfl
  · rcases completed_eq_ok hcompleted with rfl | ⟨stop, _, _, rfl⟩
    · exact hd.drive p hp
    · obtain ⟨q, hq⟩ := isSome_iff_exists.mp hd.detuned
      refine hd.drive p ⟨hp.decoder, hp.sites, hp.filling, ?_, hp.localDetuning, hp.coefficients⟩
      simpa [hq] using hp.detuning

end HardwareDraft

/-- The fields that drive the Rydberg transition in a sequence that can be compiled: nothing that is
cut, and no join of several pieces. -/
def Sequence.rydbergFields : Sequence Rat → List (FieldName × Field Rat)
  | .pulses ps =>
    match ps.find? fun x => x.1 = .rydberg with
    | some x => x.2.plainFields
    | none => []
  | .named s _ => s.rydbergFields
  | .append [s] => rydbergFields s
  | _ => []

/-- The detuning field of a sequence; one that is missing has no drives. -/
def Sequence.detuning (s : Sequence Rat) : Field Rat := HardwareDraft.detuningOf s.rydbergFields

namespace HardwareDraft

variable {env : Env Rat} {shots : Int} {d d' : HardwareDraft Rat} {s : Sequence Rat} {k : Nat}
  {t : Rat}

end HardwareDraft

/-! ### Programs -/

end AtomArray
