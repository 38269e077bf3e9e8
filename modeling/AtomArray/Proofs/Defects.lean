import AtomArray.Number.Exact
import AtomArray.Proofs.Outcome
import AtomArray.Register.Basic

/-!
Defects of a register.

A number of defects is drawn from the filled sites, so that exactly this many atoms are removed
(`Register.defectCount_exact`). A density changes the filling of every site whose draw is below it,
also of a vacant one, so that atoms can appear (`Register.defectDensity_removes_iff`).
-/

namespace AtomArray

open List Outcome Float.Model

variable {N : Type}

theorem Float.lt_iff_compare {a b : Float} :
    a < b ↔ a.toModel.unpack.compare b.toModel.unpack = some .lt := by
  simp only [LT.lt, Float.lt, Float.Model.lt, UnpackedFloat.lt, decide_eq_true_eq, beq_iff_eq]

theorem Float.compare_of_finite_le {u : UnpackedFloat} {m : Nat} {e : Int} {hm : 0 < m}
    (h : ((UnpackedFloat.finite .positive m e hm).compare u).any (·.isLE)) :
    (UnpackedFloat.zero .positive).compare u = some .lt ∧
      u.compare (.finite .positive m e hm) ≠ some .lt := by
  cases u with
  | notANumber | zero => exact absurd h Bool.false_ne_true
  | infinity sign =>
    cases sign with
    | negative => exact absurd h Bool.false_ne_true
    | positive => exact ⟨rfl, by rintro ⟨⟩⟩
  | finite sign m' e' hm' =>
    cases sign with
    | negative => exact absurd h Bool.false_ne_true
    | positive =>
      refine ⟨rfl, ?_⟩
      -- The exponents decide, and where they are equal the mantissas.
      change ((compare e e').then (compare m m')).isLE at h
      change some ((compare e' e).then (compare m' m)) ≠ some .lt
      rw [← Int.compare_swap, ← Nat.compare_swap]
      cases hc : compare e e' <;> cases hd : compare m m' <;> simp_all

/-- A site stays where it is, and an atom at most leaves it. -/
structure Site.Reduces (s s' : Site N) : Prop where
  x : s'.x = s.x
  y : s'.y = s.y
  filled : s'.filled → s.filled

namespace Register

variable {ss ss' : List (Site N)}

theorem reduces_refl (ss : List (Site N)) : Forall₂ Site.Reduces ss ss :=
  forall₂_same.mpr fun _ _ => ⟨rfl, rfl, id⟩

theorem reduces_trans {ss'' : List (Site N)} (h : Forall₂ Site.Reduces ss ss')
    (h' : Forall₂ Site.Reduces ss' ss'') : Forall₂ Site.Reduces ss ss'' := by
  induction h generalizing ss'' with
  | nil => exact h'
  | cons hs _ ih =>
    obtain _ | ⟨hs', hrest⟩ := h'
    exact .cons ⟨hs'.x.trans hs.x, hs'.y.trans hs.y, hs.filled ∘ hs'.filled⟩ (ih hrest)

/-- The number of atoms that are gone. -/
def removed (ss ss' : List (Site N)) : Nat :=
  (ss.zip ss').countP fun p => p.1.filled && !p.2.filled

theorem removed_add (h : Forall₂ Site.Reduces ss ss') :
    removed ss ss' + ss'.countP (·.filled) = ss.countP (·.filled) := by
  induction h with
  | nil => rfl
  | @cons s s' _ _ hs _ ih =>
    have hfilled := hs.filled
    rw [removed] at ih ⊢
    rw [zip_cons_cons, countP_cons, countP_cons, countP_cons, ← ih]
    cases hf : s.filled <;> cases hf' : s'.filled <;> simp_all <;> omega

/-! ### A number of defects -/

theorem reduces_toggleAt {i : Nat} (h : (ss[i]?).any (·.filled)) :
    Forall₂ Site.Reduces ss (toggleAt ss i) ∧
      (toggleAt ss i).countP (·.filled) + 1 = ss.countP (·.filled) := by
  rw [toggleAt]
  induction ss generalizing i with
  | nil => simp at h
  | cons s ss ih =>
    cases i with
    | zero =>
      have hs : s.filled := by simpa using h
      rw [modify_zero_cons, countP_cons, countP_cons]
      exact ⟨.cons ⟨rfl, rfl, fun _ => hs⟩ (reduces_refl ss), by simp [hs]⟩
    | succ i =>
      obtain ⟨hall, hcount⟩ := ih (i := i) (by simpa using h)
      rw [modify_succ_cons, countP_cons, countP_cons]
      exact ⟨.cons ⟨rfl, rfl, id⟩ hall, by omega⟩

theorem length_filledPositions (ss : List (Site N)) :
    (filledPositions ss).length = ss.countP (·.filled) := by
  rw [filledPositions, ← countP_eq_length_filter]
  induction ss with
  | nil => rfl
  | cons s ss ih =>
    rw [length_cons, range_succ_eq_map, countP_cons, countP_map, countP_cons]
    simpa [Function.comp_def] using ih

/-- Every draw is one of the sites that are offered. -/
def Chooses (draw : List Nat → Int → Outcome Nat) : Prop :=
  ∀ offered d, offered ≠ [] → ∃ i ∈ offered, draw offered d = .ok i

/-- Drawing among filled sites, none of which is offered again, removes an atom with each draw. -/
theorem exists_drawDefects {draw : List Nat → Int → Outcome Nat} (hdraw : Chooses draw) {n : Nat}
    {draws : List Int} {offered : List Nat} (hdraws : n ≤ draws.length)
    (hn : n ≤ offered.length) (hnodup : offered.Nodup)
    (hfilled : ∀ i ∈ offered, (ss[i]?).any (·.filled)) :
    ∃ ss', drawDefects draw n draws offered ss = .ok ss' ∧ Forall₂ Site.Reduces ss ss' ∧
      ss'.countP (·.filled) + n = ss.countP (·.filled) := by
  induction n generalizing draws offered ss with
  | zero => exact ⟨ss, by rw [drawDefects], reduces_refl ss, rfl⟩
  | succ n ih =>
    obtain _ | ⟨d, draws⟩ := draws
    · simp at hdraws
    obtain ⟨i, hi, hd⟩ := hdraw offered d (ne_nil_of_length_pos (Nat.zero_lt_of_lt hn))
    obtain ⟨hstep, hcount⟩ := reduces_toggleAt (hfilled i hi)
    have hrest : ∀ j ∈ offered.erase i, ((toggleAt ss i)[j]?).any (·.filled) := by
      intro j hj
      obtain ⟨hne, hj⟩ := hnodup.mem_erase_iff.mp hj
      rw [toggleAt, getElem?_modify_ne _ _ hne.symm]
      exact hfilled j hj
    have hleft : n ≤ (offered.erase i).length := by
      rw [length_erase_of_mem hi]
      omega
    obtain ⟨ss', hrun, hall, hend⟩ :=
      ih (Nat.le_of_succ_le_succ hdraws) hleft (hnodup.erase i) hrest
    refine ⟨ss', by rw [drawDefects, hd, ok_bind, hrun], ?_, by omega⟩
    exact reduces_trans hstep hall

/-! ### A density of defects -/

theorem clampProbability_of_one_le {p : Float} (h : 1.0 ≤ p) : clampProbability p = 1.0 := by
  obtain ⟨m, e, hm, hone⟩ : ∃ m e hm, (1.0 : Float).toModel.unpack = .finite .positive m e hm :=
    ⟨_, _, _, rfl⟩
  replace h : ((1.0 : Float).toModel.unpack.compare p.toModel.unpack).any (·.isLE) :=
    of_decide_eq_true h
  rw [hone] at h
  obtain ⟨hpos, hless⟩ := Float.compare_of_finite_le h
  rw [← hone] at hless
  have hpositive : 0.0 < p := Float.lt_iff_compare.mpr hpos
  rw [clampProbability, if_pos hpositive, if_neg (mt Float.lt_iff_compare.mp hless)]

theorem exists_drawDensity (p : Float) {us : List Float} (h : ss.length ≤ us.length) :
    ∃ ss', drawDensity p us ss = .ok ss' ∧
      ss'.map (fun s => (s.x, s.y)) = ss.map (fun s => (s.x, s.y)) ∧
      (Forall₂ Site.Reduces ss ss' ↔ ∀ x ∈ us.zip ss, x.1 < p → x.2.filled) ∧
      ((∀ u ∈ us, u < p) → ((∀ s ∈ ss', s.filled = false) ↔ ∀ s ∈ ss, s.filled)) := by
  induction ss generalizing us with
  | nil => exact ⟨[], by simp [drawDensity], rfl, by simp, by simp⟩
  | cons s ss ih =>
    obtain _ | ⟨u, us⟩ := us
    · simp at h
    obtain ⟨ss', hrun, hplaces, hreduces, hempty⟩ := ih (Nat.le_of_succ_le_succ h)
    refine ⟨_ :: ss', by rw [drawDensity, hrun]; rfl, ?_, ?_, ?_⟩
    · split <;> simp [hplaces]
    · rw [forall₂_cons, hreduces, zip_cons_cons, forall_mem_cons]
      refine and_congr_left' ⟨fun hs hu => ?_, fun hs => ⟨?_, ?_, ?_⟩⟩
      · cases hf : s.filled with
        | true => rfl
        | false => simpa [if_pos hu, hf] using hs.filled
      · split <;> rfl
      · split <;> rfl
      · by_cases hu : u < p
        · exact fun _ => hs hu
        · rw [if_neg hu]
          exact id
    · rw [forall_mem_cons, forall_mem_cons, forall_mem_cons]
      intro hus
      rw [hempty hus.2, if_pos hus.1]
      simp

/-! ### Registers with defects -/

variable [Arith N] {r : Register N}

/-- **A number of defects is exact.** If there are more atoms, it removes this many of them and
changes nothing else, whatever is drawn; otherwise it is refused as a wrong value. -/
theorem defectCount_exact (hsites : r.sites = .ok ss) {draw : List Nat → Int → Outcome Nat}
    (hdraw : Chooses draw) (n : Int) (draws : List Int) :
    (0 ≤ n → n < ss.countP (·.filled) → n ≤ draws.length →
      ∃ ss', r.defectCount n draw draws = .ok (.list ss') ∧ Forall₂ Site.Reduces ss ss' ∧
        removed ss ss' = n) ∧
    (ss.countP (·.filled) ≤ n → ∃ fault : Fault,
      r.defectCount n draw draws = .error fault ∧ fault.kind = .wrongValue) := by
  have hlength := length_filledPositions ss
  refine ⟨fun hn hless hdraws => ?_, fun hmore => ?_⟩
  · have hfilled : ∀ i ∈ filledPositions ss, (ss[i]?).any (·.filled) = true :=
      fun i hi => (mem_filter.mp hi).2
    have henough : n.toNat ≤ draws.length := by omega
    have hfewer : n.toNat ≤ (filledPositions ss).length := by omega
    obtain ⟨ss', hrun, hall, hcount⟩ :=
      exists_drawDefects hdraw henough hfewer (nodup_range.filter _) hfilled
    refine ⟨ss', ?_, hall, ?_⟩
    · rw [defectCount, hsites, ok_bind, if_neg (by omega)]
      simp [hrun]
    · have hremoved := removed_add hall
      omega
  · refine ⟨.defectsExceed n (filledPositions ss).length, ?_, rfl⟩
    rw [defectCount, hsites, ok_bind, if_pos (by omega)]
    rfl

/-- Three sites, of which the middle one is vacant. -/
def gapped : List (Site Rat) :=
  [⟨.lit 0, .lit 0, true⟩, ⟨.lit 1, .lit 0, false⟩, ⟨.lit 2, .lit 0, true⟩]

/-- Takes the last of the sites that are offered. -/
def drawLast (offered : List Nat) (_ : Int) : Outcome Nat :=
  (offered.getLast?).elim (.error .value) .ok

theorem gapped_one_defect :
    ∃ ss', (Register.list gapped).defectCount 1 drawLast [0] = .ok (.list ss') ∧
      Forall₂ Site.Reduces gapped ss' ∧ removed gapped ss' = (1 : Int) := by
  have hdraw : Chooses drawLast := fun offered d hne =>
    ⟨offered.getLast hne, getLast_mem hne, by rw [drawLast, getLast?_eq_some_getLast hne]; rfl⟩
  exact (defectCount_exact rfl hdraw 1 [0]).1 (by decide) (by decide) (by decide)

/-- **A density removes atoms only where no vacant site is drawn.** It keeps the sites in their
order; an atom appears at every vacant site whose draw is below the density, and at a density of one
no atom is left exactly if no site was vacant. -/
theorem defectDensity_removes_iff (hsites : r.sites = .ok ss) (p : Float) {us : List Float}
    (hus : ss.length ≤ us.length) :
    ∃ ss', r.defectDensity p us = .ok (.list ss') ∧
      ss'.map (fun s => (s.x, s.y)) = ss.map (fun s => (s.x, s.y)) ∧
      (Forall₂ Site.Reduces ss ss' ↔
        ∀ x ∈ us.zip ss, x.1 < clampProbability p → x.2.filled = true) ∧
      (1.0 ≤ p → (∀ u ∈ us, u < 1.0) →
        ((∀ s ∈ ss', s.filled = false) ↔ ∀ s ∈ ss, s.filled = true)) := by
  obtain ⟨ss', hrun, hplaces, hreduces, hempty⟩ := exists_drawDensity (clampProbability p) hus
  refine ⟨ss', by rw [defectDensity, hsites, ok_bind, hrun]; rfl, hplaces, hreduces, ?_⟩
  intro hp hunit
  rw [clampProbability_of_one_le hp] at hempty
  exact hempty hunit

theorem gapped_some_density :
    ∃ ss', (Register.list gapped).defectDensity 0.5 [0.25, 0.75, 0.5] = .ok (.list ss') ∧
      Forall₂ Site.Reduces gapped ss' := by
  have hus : gapped.length ≤ [0.25, 0.75, 0.5].length := by decide
  obtain ⟨ss', hrun, -, hreduces, -⟩ := defectDensity_removes_iff (r := .list gapped) rfl 0.5 hus
  exact ⟨ss', hrun, hreduces.mpr (by decide)⟩

/-- A density of one fills the vacant site. -/
theorem gapped_full_density : (Register.list gapped).defectDensity 1.0 [0.5, 0.5, 0.5] = .ok (.list
    [⟨.lit 0, .lit 0, false⟩, ⟨.lit 1, .lit 0, true⟩, ⟨.lit 2, .lit 0, false⟩]) := by
  with_unfolding_all rfl

end Register

end AtomArray
