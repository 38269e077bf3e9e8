import AtomArray.Emulator.Space
import AtomArray.Proofs.Outcome
import Mathlib.Data.List.Sort
import Mathlib.Tactic.Ring

/-!
The configurations that a register's space holds.

A configuration is independent if no two near atoms are excited in it. A space is built by adding
one atom after the other (`Space.grow`). What it holds (`Space.mem_ofNear`) is listed in order
(`AtomRegister.space_strictly_sorted_sound`) and need not be all that is independent
(`AtomRegister.space_complete_iff`).
-/

namespace AtomArray

open List Outcome Nat Space

/-! ### The digits of a configuration -/

theorem levelOf_eq (levels i c : Nat) : levelOf levels i c = c / levels ^ i % levels := rfl

variable {levels : Nat}

theorem levelOf_lt (hl : 0 < levels) (i c : Nat) : levelOf levels i c < levels :=
  mod_lt _ hl

variable {c i : Nat}

theorem levelOf_eq_zero (hc : c < levels ^ i) : levelOf levels i c = 0 := by
  simp [levelOf_eq, div_eq_of_lt hc]

theorem levelOf_place_self {s : Nat} (hc : c < levels ^ i) (hs : s < levels) :
    levelOf levels i (c + s * levels ^ i) = s := by
  have hpos : 0 < levels ^ i := by omega
  rw [levelOf_eq, add_mul_div_right _ _ hpos, div_eq_of_lt hc, zero_add, mod_eq_of_lt hs]

variable {j : Nat}

theorem levelOf_place_below (hl : 0 < levels) (hji : j < i) (c s : Nat) :
    levelOf levels j (c + s * levels ^ i) = levelOf levels j c := by
  obtain ⟨k, rfl⟩ := Nat.exists_eq_add_of_lt hji
  have hpos : 0 < levels ^ j := Nat.pow_pos hl
  have hsplit : s * levels ^ (j + k + 1) = (s * levels ^ k * levels) * levels ^ j := by ring
  rw [levelOf_eq, levelOf_eq, hsplit, add_mul_div_right _ _ hpos, add_mul_mod_self_right]

theorem levelOf_mod_pow (hl : 0 < levels) (hji : j < i) (c : Nat) :
    levelOf levels j (c % levels ^ i) = levelOf levels j c := by
  conv_rhs => rw [← mod_add_div c (levels ^ i), mul_comm]
  exact (levelOf_place_below hl hji _ _).symm

theorem place_levelOf (hc : c < levels ^ (i + 1)) :
    c % levels ^ i + levelOf levels i c * levels ^ i = c := by
  have hdiv : c / levels ^ i < levels := by
    rw [pow_succ] at hc
    exact Nat.div_lt_of_lt_mul hc
  rw [levelOf_eq, mod_eq_of_lt hdiv, mul_comm]
  exact mod_add_div c _

theorem place_lt {s : Nat} (hc : c < levels ^ i) (hs : s < levels) :
    c + s * levels ^ i < levels ^ (i + 1) := by
  calc c + s * levels ^ i < levels ^ i + s * levels ^ i := by omega
    _ = (s + 1) * levels ^ i := by ring
    _ ≤ levels * levels ^ i := mul_le_mul_right _ hs
    _ = levels ^ (i + 1) := by ring

theorem AtomKind.two_le_levels (k : AtomKind) : 2 ≤ k.levels := by
  cases k <;> decide

theorem AtomKind.levels_pos (k : AtomKind) : 0 < k.levels :=
  lt_of_lt_of_le zero_lt_two k.two_le_levels

namespace Space

/-! ### What the first atoms can do -/

/-- The configurations of the first `n` atoms that growing reaches: no excited atom is near an
earlier excited one, and an atom apart from all earlier ones is left in its ground level. -/
structure Reached (levels n : Nat) (near : Nat → Nat → Bool) (c : Nat) : Prop where
  lt : c < levels ^ n
  apart : ∀ i < n, ∀ j < i, near i j →
    ¬ (levelOf levels i c = levels - 1 ∧ levelOf levels j c = levels - 1)
  idle : ∀ i < n, 0 < i → (∀ j < i, near i j = false) → levelOf levels i c = 0

section Step

variable {levels m : Nat} {near : Nat → Nat → Bool}

theorem reached_succ_of_apart (hl : 0 < levels) (hm : 0 < m)
    (hapart : ∀ j < m, near m j = false) (c : Nat) :
    Reached levels (m + 1) near c ↔ Reached levels m near c := by
  constructor
  · intro h
    have hzero := h.idle m (by omega) hm hapart
    have hsplit := place_levelOf h.lt
    have hlt : c < levels ^ m := by
      have := Nat.mod_lt c (Nat.pow_pos hl : 0 < levels ^ m)
      rw [hzero] at hsplit
      omega
    exact ⟨hlt, fun i hi => h.apart i (by omega), fun i hi => h.idle i (by omega)⟩
  · intro h
    refine ⟨h.lt.trans_le (Nat.pow_le_pow_right hl (by omega)), ?_, ?_⟩
    · intro i hi j hj hnear
      rcases Nat.lt_succ_iff_lt_or_eq.mp hi with hi | rfl
      · exact h.apart i hi j hj hnear
      · simp [hapart j hj] at hnear
    · intro i hi hpos hfar
      rcases Nat.lt_succ_iff_lt_or_eq.mp hi with hi | rfl
      · exact h.idle i hi hpos hfar
      · exact levelOf_eq_zero h.lt

/-- An atom near an earlier one takes every level on top of what is reached, the highest only where
no near atom is excited. -/
theorem reached_succ_of_near (hl : 0 < levels) {k : Nat} (hk : k < m) (hnear : near m k)
    (c : Nat) :
    Reached levels (m + 1) near c ↔
      ∃ d, Reached levels m near d ∧ ∃ s < levels, c = d + s * levels ^ m ∧
        (s = levels - 1 → ∀ j < m, near m j → levelOf levels j d ≠ levels - 1) := by
  constructor
  · intro h
    refine ⟨c % levels ^ m, ⟨Nat.mod_lt _ (Nat.pow_pos hl), ?_, ?_⟩, levelOf levels m c,
      levelOf_lt hl _ _, (place_levelOf h.lt).symm, ?_⟩
    · intro i hi j hj hij
      rw [levelOf_mod_pow hl hi, levelOf_mod_pow hl (hj.trans hi)]
      exact h.apart i (by omega) j hj hij
    · intro i hi hpos hfar
      rw [levelOf_mod_pow hl hi]
      exact h.idle i (by omega) hpos hfar
    · intro hs j hj hmj
      rw [levelOf_mod_pow hl hj]
      exact fun hexc => h.apart m (by omega) j hj hmj ⟨hs, hexc⟩
  · rintro ⟨d, h, s, hs, rfl, hfree⟩
    refine ⟨place_lt h.lt hs, ?_, ?_⟩
    · intro i hi j hj hij
      rcases Nat.lt_succ_iff_lt_or_eq.mp hi with hi | rfl
      · rw [levelOf_place_below hl hi, levelOf_place_below hl (hj.trans hi)]
        exact h.apart i hi j hj hij
      · rw [levelOf_place_self h.lt hs, levelOf_place_below hl hj]
        exact fun ⟨hexc, hexc'⟩ => hfree hexc j hj hij hexc'
    · intro i hi hpos hfar
      rcases Nat.lt_succ_iff_lt_or_eq.mp hi with hi | rfl
      · rw [levelOf_place_below hl hi]
        exact h.idle i hi hpos hfar
      · simp [hfar k hk] at hnear

end Step

/-! ### One step of growing -/

variable {cs : List Nat}

section Grow

variable {levels m : Nat} {near : Nat → Nat → Bool}

def earlierNear (near : Nat → Nat → Bool) (i : Nat) : List Nat := (range i).filter (near i)

theorem mem_earlierNear : j ∈ earlierNear near i ↔ j < i ∧ near i j := by
  simp [earlierNear]

theorem earlierNear_eq_nil : earlierNear near i = [] ↔ ∀ j < i, near i j = false := by
  simp [earlierNear]

variable {choices : Nat} {js : List Nat}

theorem mem_placeAtom {d : Nat} :
    c ∈ placeAtom levels i choices d ↔ ∃ s < choices, c = d + s * levels ^ i := by
  simp only [placeAtom, mem_map, mem_range]
  exact ⟨fun ⟨s, hs, h⟩ => ⟨s, hs, h.symm⟩, fun ⟨s, hs, h⟩ => ⟨s, hs, h.symm⟩⟩

theorem isBlocked_eq_false :
    isBlocked levels js c = false ↔ ∀ j ∈ js, levelOf levels j c ≠ levels - 1 := by
  simp [isBlocked]

/-- Growing by an atom near others, as one rule: a configuration takes any level, the highest only
if it is not blocked. -/
theorem mem_grow (hne : js ≠ []) (hl : 0 < levels) : c ∈ grow levels cs m js ↔
      ∃ d ∈ cs, ∃ s < levels, c = d + s * levels ^ m ∧
        (s = levels - 1 → isBlocked levels js d = false) := by
  rw [grow, if_neg (by simpa using hne)]
  simp only [mem_append, mem_flatMap, mem_filter, mem_placeAtom]
  constructor
  · rintro (⟨d, ⟨hd, hblocked⟩, s, hs, rfl⟩ | ⟨d, ⟨hd, hfree⟩, s, hs, rfl⟩)
    · exact ⟨d, hd, s, by omega, rfl, fun h => by omega⟩
    · exact ⟨d, hd, s, hs, rfl, fun _ => by simpa using hfree⟩
  · rintro ⟨d, hd, s, hs, rfl, hfree⟩
    cases hb : isBlocked levels js d with
    | true =>
      have : s ≠ levels - 1 := fun h => by simp [hfree h] at hb
      exact Or.inl ⟨d, ⟨hd, hb⟩, s, by omega, rfl⟩
    | false => exact Or.inr ⟨d, ⟨hd, by simp [hb]⟩, s, hs, rfl⟩

/-- **Growing by one atom** takes a list of what the first `m` atoms reach to a list of what the
first `m + 1` atoms reach. -/
theorem mem_grow_iff_reached (hl : 0 < levels) (hm : 0 < m)
    (hcs : ∀ c, c ∈ cs ↔ Reached levels m near c) (c : Nat) :
    c ∈ grow levels cs m (earlierNear near m) ↔ Reached levels (m + 1) near c := by
  cases hempty : earlierNear near m with
  | nil =>
    rw [reached_succ_of_apart hl hm (earlierNear_eq_nil.mp hempty), ← hcs]
    rfl
  | cons k ks =>
    have hk : k ∈ earlierNear near m := by simp [hempty]
    obtain ⟨hkm, hnear⟩ := mem_earlierNear.mp hk
    rw [reached_succ_of_near hl hkm hnear, ← hempty, mem_grow (by simp [hempty]) hl]
    simp [hcs, isBlocked_eq_false, mem_earlierNear]

theorem mod_mem_of_mem_placed (hlt : ∀ d ∈ cs, d < levels ^ m)
    (hc : c ∈ cs.flatMap (placeAtom levels m choices)) : c % levels ^ m ∈ cs := by
  obtain ⟨d, hd, hplaced⟩ := mem_flatMap.mp hc
  obtain ⟨s, _, rfl⟩ := mem_placeAtom.mp hplaced
  rwa [add_mul_mod_self_right, mod_eq_of_lt (hlt d hd)]

theorem nodup_placed (hl : 0 < levels) (hnd : cs.Nodup)
    (hlt : ∀ d ∈ cs, d < levels ^ m) : (cs.flatMap (placeAtom levels m choices)).Nodup := by
  have hpos : 0 < levels ^ m := Nat.pow_pos hl
  refine nodup_flatMap.mpr ⟨?_, ?_⟩
  · intro d _
    refine Nodup.map_on ?_ nodup_range
    intro s _ s' _ heq
    exact eq_of_mul_eq_mul_right hpos (add_left_cancel heq)
  · refine hnd.imp_of_mem ?_
    intro d d' hd hd' hne c hc hc'
    obtain ⟨s, _, rfl⟩ := mem_placeAtom.mp hc
    obtain ⟨s', _, heq⟩ := mem_placeAtom.mp hc'
    have hmod := congrArg (· % levels ^ m) heq
    simp only [add_mul_mod_self_right, mod_eq_of_lt (hlt d hd), mod_eq_of_lt (hlt d' hd')] at hmod
    exact hne hmod

/-- Growing repeats nothing: the digits below the new one tell blocked from free configurations. -/
theorem nodup_grow (hl : 0 < levels) (hnd : cs.Nodup)
    (hlt : ∀ d ∈ cs, d < levels ^ m) : (grow levels cs m js).Nodup := by
  rw [grow]
  split
  · exact hnd
  · have hsub : ∀ p : Nat → Bool, ∀ d ∈ cs.filter p, d < levels ^ m :=
      fun p d hd => hlt d (mem_of_mem_filter hd)
    rw [nodup_append]
    refine ⟨nodup_placed hl (hnd.filter _) (hsub _), nodup_placed hl (hnd.filter _) (hsub _), ?_⟩
    intro c hc c' hc' heq
    subst heq
    have hblocked := (mem_filter.mp (mod_mem_of_mem_placed (hsub _) hc)).2
    have hfree := (mem_filter.mp (mod_mem_of_mem_placed (hsub _) hc')).2
    simp [hblocked] at hfree

end Grow

/-! ### All atoms -/

section Grown

variable {levels : Nat} {near : Nat → Nat → Bool}

/-- The list that growing arrives at after `n` atoms. -/
def grown (levels n : Nat) (near : Nat → Nat → Bool) : List Nat :=
  (neighbours n near).foldl (fun cs (i, js) => grow levels cs i js) (range levels)

theorem grown_one : grown levels 1 near = range levels := rfl

theorem grown_succ (m : Nat) : grown levels (m + 2) near =
      grow levels (grown levels (m + 1) near) (m + 1) (earlierNear near (m + 1)) := by
  simp [grown, neighbours, range_succ, earlierNear]

theorem grown_spec (hl : 0 < levels) (m : Nat) : (grown levels (m + 1) near).Nodup ∧
      ∀ c, c ∈ grown levels (m + 1) near ↔ Reached levels (m + 1) near c := by
  induction m with
  | zero =>
    refine ⟨nodup_range, fun c => ?_⟩
    rw [grown_one, mem_range]
    constructor
    · intro hc
      exact ⟨by simpa using hc, fun i hi j hj => by omega, fun i hi hpos => by omega⟩
    · intro h
      simpa using h.lt
  | succ m ih =>
    obtain ⟨hnd, hmem⟩ := ih
    rw [grown_succ]
    exact ⟨nodup_grow hl hnd fun d hd => ((hmem d).mp hd).lt,
      mem_grow_iff_reached hl (succ_pos m) hmem⟩

end Grown

/-! ### The space under a relation of nearness -/

/-- No two near atoms among the first `n` are excited together. -/
def Independent (kind : AtomKind) (n : Nat) (near : Nat → Nat → Bool) (c : Nat) : Prop :=
  ∀ i < n, ∀ j < n, i ≠ j → near i j →
    ¬ (levelOf kind.levels i c = kind.excited ∧ levelOf kind.levels j c = kind.excited)

/-- No two atoms among the first `n` are near each other. -/
def Scattered (n : Nat) (near : Nat → Nat → Bool) : Prop :=
  ∀ i < n, ∀ j < i, near i j = false

section OfNear

variable {kind : AtomKind} {n : Nat} {near : Nat → Nat → Bool}

theorem neighbours_all_empty :
    ((neighbours n near).all fun (_, js) => js.isEmpty) ↔ Scattered n near := by
  simp only [neighbours, all_map, all_eq_true, mem_range, Function.comp, List.isEmpty_iff]
  constructor
  · intro h i hi j hj
    obtain ⟨m, rfl⟩ : ∃ m, i = m + 1 := ⟨i - 1, by omega⟩
    exact earlierNear_eq_nil.mp (h m (by omega)) j hj
  · intro h m hm
    exact earlierNear_eq_nil.mpr (h (m + 1) (by omega))

theorem ofNear_of_scattered (h : Scattered n near) :
    ofNear kind n near = ⟨kind, n, true, range (kind.levels ^ n)⟩ := by
  rw [ofNear, if_pos (neighbours_all_empty.mpr h)]
  rfl

theorem ofNear_of_not_scattered (h : ¬ Scattered n near) : ofNear kind n near =
      ⟨kind, n, false, (grown kind.levels n near).mergeSort fun a b => decide (a ≤ b)⟩ := by
  rw [ofNear, if_neg (by rwa [neighbours_all_empty])]
  rfl

/-- The space depends only on which atoms are near which earlier ones. -/
theorem ofNear_congr {near' : Nat → Nat → Bool}
    (h : ∀ i < n, ∀ j < i, near i j = near' i j) : ofNear kind n near = ofNear kind n near' := by
  have hneighbours : neighbours n near = neighbours n near' := by
    refine map_congr_left fun m hm => ?_
    have hm' : m + 1 < n := by
      have := mem_range.mp hm
      omega
    rw [filter_congr fun j hj => h (m + 1) hm' j (mem_range.mp hj)]
  rw [ofNear, ofNear, hneighbours]

theorem independent_iff (hsymm : ∀ i j, near i j = near j i) : Independent kind n near c ↔
      ∀ i < n, ∀ j < i, near i j → ¬ (levelOf kind.levels i c = kind.levels - 1 ∧
          levelOf kind.levels j c = kind.levels - 1) := by
  constructor
  · intro h i hi j hj hnear
    exact h i hi j (hj.trans hi) (by omega) hnear
  · intro h i hi j hj hne hnear hexc
    rcases lt_or_gt_of_ne hne with hlt | hlt
    · exact h j hj i hlt (hsymm i j ▸ hnear) ⟨hexc.2, hexc.1⟩
    · exact h i hi j hlt hnear hexc

/-- **What a space holds**: the independent configurations and, unless it is full, of these only the
ones in which every later atom without an earlier near atom is in its ground level. -/
theorem mem_ofNear (hsymm : ∀ i j, near i j = near j i) : c ∈ (ofNear kind n near).configurations ↔
      c < kind.levels ^ n ∧ Independent kind n near c ∧
        (¬ Scattered n near → ∀ i < n, 0 < i → (∀ j < i, near i j = false) →
          levelOf kind.levels i c = 0) := by
  rw [independent_iff hsymm]
  by_cases hs : Scattered n near
  · rw [ofNear_of_scattered hs, mem_range]
    refine ⟨fun hc => ⟨hc, fun i hi j hj hnear => ?_, fun h => absurd hs h⟩, fun h => h.1⟩
    simp [hs i hi j hj] at hnear
  · -- A near pair needs two atoms, so growing has begun.
    obtain ⟨m, rfl⟩ : ∃ m, n = m + 1 := by
      cases n with
      | zero => exact absurd (fun i hi => by omega) hs
      | succ m => exact ⟨m, rfl⟩
    rw [ofNear_of_not_scattered hs, mem_mergeSort, (grown_spec kind.levels_pos m).2]
    exact ⟨fun h => ⟨h.lt, h.apart, fun _ => h.idle⟩, fun ⟨hlt, hapart, hidle⟩ =>
      ⟨hlt, hapart, hidle hs⟩⟩

theorem pairwise_lt_mergeSort (hnd : cs.Nodup) :
    (cs.mergeSort fun a b => decide (a ≤ b)).Pairwise (· < ·) := by
  have hle := @pairwise_mergeSort Nat (fun a b => decide (a ≤ b))
    (by intro a b c hab hbc; simp only [decide_eq_true_eq] at *; omega)
    (by intro a b; simp only [Bool.or_eq_true, decide_eq_true_eq]; omega) cs
  have hne : (cs.mergeSort fun a b => decide (a ≤ b)).Pairwise (· ≠ ·) :=
    (mergeSort_perm cs _).nodup_iff.mpr hnd
  refine (hle.and hne).imp ?_
  intro a b h
  exact lt_of_le_of_ne (of_decide_eq_true h.1) h.2

theorem pairwise_lt_ofNear : (ofNear kind n near).configurations.Pairwise (· < ·) := by
  by_cases hs : Scattered n near
  · rw [ofNear_of_scattered hs]
    exact pairwise_lt_range
  · rw [ofNear_of_not_scattered hs]
    cases n with
    | zero => exact absurd (fun i hi => by omega) hs
    | succ m => exact pairwise_lt_mergeSort (grown_spec kind.levels_pos m).1

theorem zero_mem_ofNear (hsymm : ∀ i j, near i j = near j i) :
    0 ∈ (ofNear kind n near).configurations := by
  have hzero : ∀ i, levelOf kind.levels i 0 = 0 := fun i => by simp [levelOf]
  refine (mem_ofNear hsymm).mpr ⟨Nat.pow_pos kind.levels_pos, ?_, fun _ i _ _ _ => hzero i⟩
  intro i _ j _ _ _ hexc
  have := kind.two_le_levels
  rw [hzero, AtomKind.excited] at hexc
  omega

theorem levelOf_pow (hl : 2 ≤ levels) (i k : Nat) :
    levelOf levels k (levels ^ i) = if k = i then 1 else 0 := by
  have hplace : levels ^ i = 0 + 1 * levels ^ i := by omega
  rcases lt_trichotomy k i with hlt | rfl | hlt
  · rw [hplace, levelOf_place_below (by omega) hlt, if_neg (by omega), levelOf, Nat.zero_div,
      zero_mod]
  · rw [hplace, levelOf_place_self (Nat.pow_pos (by omega)) (by omega), if_pos rfl]
  · rw [levelOf_eq_zero (Nat.pow_lt_pow_right (by omega) hlt), if_neg (by omega)]

theorem independent_pow (i : Nat) : Independent kind n near (kind.levels ^ i) := by
  intro j _ k _ hne _ hexc
  have hl := kind.two_le_levels
  rw [levelOf_pow hl, levelOf_pow hl, AtomKind.excited] at hexc
  split at hexc <;> split at hexc <;> omega

/-- **When nothing independent is missing**: if no two atoms are near, or every later atom has an
earlier one near it. An atom apart from all earlier ones never leaves its ground level in a space
that is not full, although alone it may. -/
theorem ofNear_complete_iff (hsymm : ∀ i j, near i j = near j i) :
    (∀ c < kind.levels ^ n, Independent kind n near c → c ∈ (ofNear kind n near).configurations) ↔
      Scattered n near ∨ ∀ i < n, 0 < i → ∃ j < i, near i j := by
  constructor
  · intro hcomplete
    by_contra hcon
    obtain ⟨hs, hlater⟩ := not_or.mp hcon
    push Not at hlater
    obtain ⟨i, hi, hpos, hapart⟩ := hlater
    have hl := kind.two_le_levels
    have hmem := hcomplete (kind.levels ^ i) (Nat.pow_lt_pow_right (by omega) hi)
      (independent_pow i)
    have hidle := ((mem_ofNear hsymm).mp hmem).2.2 hs i hi hpos
      fun j hj => by simpa using hapart j hj
    rw [levelOf_pow hl, if_pos rfl] at hidle
    omega
  · intro hcond c hc hind
    refine (mem_ofNear hsymm).mpr ⟨hc, hind, fun hs i hi hpos hapart => ?_⟩
    rcases hcond with hs' | hlater
    · exact absurd hs' hs
    · obtain ⟨j, hj, hnear⟩ := hlater i hi hpos
      simp [hapart j hj] at hnear

end OfNear

end Space

/-! ### The space of a register -/

namespace AtomRegister

variable {N : Type}

theorem mem_take_zipIdx {α : Type} {xs : List α} {q : α} :
    (q, j) ∈ xs.zipIdx.take i ↔ j < i ∧ xs[j]? = some q := by
  rw [mem_take_iff_getElem]
  constructor
  · rintro ⟨k, hk, heq⟩
    simp only [getElem_zipIdx, zero_add, Prod.mk.injEq] at heq
    obtain ⟨rfl, rfl⟩ := heq
    exact ⟨by omega, getElem?_eq_getElem _⟩
  · rintro ⟨hj, hq⟩
    obtain ⟨hlt, rfl⟩ := List.getElem?_eq_some_iff.mp hq
    exact ⟨j, by simp; omega, by simp⟩

def pairIfNear (near : Nat → Nat → Bool) (i j : Nat) : List (Nat × Nat) :=
  if near i j then [(i, j)] else []

variable {near : Nat → Nat → Bool}

theorem mem_pairIfNear {x : Nat × Nat} :
    x ∈ pairIfNear near i j ↔ x = (i, j) ∧ near i j := by
  unfold pairIfNear
  split <;> simp [*]

variable (r : AtomRegister N)

/-- The near pairs of a register whose later atom is `i`. -/
def pairsBefore (near : Nat → Nat → Bool) (i : Nat) : List (Nat × Nat) :=
  ((r.sites.zipIdx.take i).map fun y => pairIfNear near i y.2).flatten

variable {r : AtomRegister N}

theorem mem_pairsBefore {k : Nat} (hi : i < r.sites.length) (hj : j < i) :
    (i, j) ∈ r.pairsBefore near k ↔ k = i ∧ near i j := by
  simp only [pairsBefore, mem_flatten, mem_map]
  constructor
  · rintro ⟨_, ⟨y, _, rfl⟩, hmem⟩
    obtain ⟨heq, hnear⟩ := mem_pairIfNear.mp hmem
    cases heq
    exact ⟨rfl, hnear⟩
  · rintro ⟨rfl, hnear⟩
    have hpair : (r.sites[j], j) ∈ r.sites.zipIdx.take k := mem_take_zipIdx.mpr ⟨hj, by simp⟩
    exact ⟨_, ⟨_, hpair, rfl⟩, mem_pairIfNear.mpr ⟨rfl, hnear⟩⟩

variable [Arith N]

/-- `near` is what the distance test says of each site and each earlier one. -/
def Decides (near : Nat → Nat → Bool) : Prop :=
  ∀ i j p q, j < i → r.sites[i]? = some p → r.sites[j]? = some q →
    areNear r.radius p q = .ok (near i j)

theorem nearPairs_eq (hnear : r.Decides near) :
    r.nearPairs = .ok (r.sites.zipIdx.map fun x => r.pairsBefore near x.2).flatten := by
  rw [nearPairs]
  refine bind_eq_ok.mpr ⟨_, mapM_eq_ok (g := fun x => r.pairsBefore near x.2) ?_, rfl⟩
  rintro ⟨p, i⟩ hp
  refine bind_eq_ok.mpr ⟨_, mapM_eq_ok (g := fun y => pairIfNear near i y.2) ?_, rfl⟩
  rintro ⟨q, j⟩ hq
  obtain ⟨hj, hq⟩ := mem_take_zipIdx.mp hq
  show (areNear r.radius p q >>= fun b => pure (if b then [(i, j)] else [])) = _
  rw [hnear i j p q hj (mk_mem_zipIdx_iff_getElem?.mp hp) hq]
  rfl

theorem nearPairs_spec (hnear : r.Decides near) : ∃ pairs, r.nearPairs = .ok pairs ∧
      ∀ i < r.sites.length, ∀ j < i, pairs.contains (i, j) = near i j := by
  refine ⟨_, nearPairs_eq hnear, fun i hi j hj => ?_⟩
  rw [Bool.eq_iff_iff, contains_iff_mem]
  simp only [mem_flatten, mem_map]
  constructor
  · rintro ⟨_, ⟨x, _, rfl⟩, hmem⟩
    exact ((mem_pairsBefore hi hj).mp hmem).2
  · intro hij
    have hatom : (r.sites[i], i) ∈ r.sites.zipIdx := by simp [mk_mem_zipIdx_iff_getElem?]
    exact ⟨_, ⟨_, hatom, rfl⟩, (mem_pairsBefore hi hj).mpr ⟨rfl, hij⟩⟩

/-- A register whose distance test always decides has a space: that of its nearness. -/
theorem space_eq_ofNear (hnear : r.Decides near) :
    r.space = .ok (ofNear r.kind r.sites.length near) := by
  obtain ⟨pairs, hpairs, hcontains⟩ := nearPairs_spec hnear
  rw [space, hpairs, ok_bind, pure_eq_ok, ofNear_congr hcontains]

/-- **The space of a register is ordered and sound.** Its configurations increase strictly, so none
is listed twice; zero is one of them; each is a number of as many digits as there are atoms, and
excites no two near atoms. -/
theorem space_strictly_sorted_sound (r : AtomRegister N) (near : Nat → Nat → Bool)
    (hsymm : ∀ i j, near i j = near j i) (hnear : r.Decides near) :
    ∃ s, r.space = .ok s ∧ s.configurations.Pairwise (· < ·) ∧ 0 ∈ s.configurations ∧
      ∀ c ∈ s.configurations, c < r.kind.levels ^ r.sites.length ∧
        Space.Independent r.kind r.sites.length near c := by
  refine ⟨_, space_eq_ofNear hnear, pairwise_lt_ofNear, zero_mem_ofNear hsymm, ?_⟩
  intro c hc
  obtain ⟨hlt, hind, _⟩ := (mem_ofNear hsymm).mp hc
  exact ⟨hlt, hind⟩

/-- **When the space of a register is complete.** A register always has a space; every independent
configuration of its atoms is in it exactly when no two atoms are near each other or every atom but
the first has an earlier one near it. -/
theorem space_complete_iff (r : AtomRegister N) (near : Nat → Nat → Bool)
    (hsymm : ∀ i j, near i j = near j i) (hnear : r.Decides near) :
    ∃ s, r.space = .ok s ∧
      ((∀ c < r.kind.levels ^ r.sites.length, Space.Independent r.kind r.sites.length near c →
          c ∈ s.configurations) ↔
        (∀ i < r.sites.length, ∀ j < i, near i j = false) ∨
          ∀ i < r.sites.length, 0 < i → ∃ j < i, near i j = true) :=
  ⟨_, space_eq_ofNear hnear, ofNear_complete_iff hsymm⟩

/-! ### Three atoms, one of them apart -/

/-- Two atoms near each other and a third far from both. -/
def distantAtom : AtomRegister Quantity where
  kind := .twoLevel
  sites := [(0, 0), (0, 5), (100, 0)]
  radius := 5

/-- The first two atoms are near each other, and no others. -/
def firstTwoNear (i j : Nat) : Bool := i + j == 1

theorem firstTwoNear_symm (i j : Nat) : firstTwoNear i j = firstTwoNear j i := by
  rw [firstTwoNear, firstTwoNear, add_comm]

theorem distantAtom_decides : distantAtom.Decides firstTwoNear := by
  intro i j p q hj hp hq
  match i, j, hj with
  | 1, 0, _ | 2, 0, _ | 2, 1, _ => cases hp; cases hq; rfl
  | i + 3, _, _ => simp [distantAtom] at hp

theorem distantAtom_sorted_sound : distantAtom.Decides firstTwoNear ∧
      ∃ s, distantAtom.space = .ok s ∧ s.configurations.Pairwise (· < ·) ∧ 0 ∈ s.configurations ∧
        ∀ c ∈ s.configurations, c < 2 ^ 3 ∧ Space.Independent .twoLevel 3 firstTwoNear c :=
  ⟨distantAtom_decides,
    space_strictly_sorted_sound distantAtom firstTwoNear firstTwoNear_symm distantAtom_decides⟩

theorem distantAtom_complete_iff : distantAtom.Decides firstTwoNear ∧
      ∃ s, distantAtom.space = .ok s ∧
        ((∀ c < 2 ^ 3, Space.Independent .twoLevel 3 firstTwoNear c → c ∈ s.configurations) ↔
          (∀ i < 3, ∀ j < i, firstTwoNear i j = false) ∨
            ∀ i < 3, 0 < i → ∃ j < i, firstTwoNear i j = true) :=
  ⟨distantAtom_decides,
    space_complete_iff distantAtom firstTwoNear firstTwoNear_symm distantAtom_decides⟩

/-- The space of these atoms lacks the configuration `4`, in which the third atom alone is
excited. -/
theorem distantAtom_incomplete : distantAtom.Decides firstTwoNear ∧
      ∃ s, distantAtom.space = .ok s ∧ 4 < distantAtom.kind.levels ^ distantAtom.sites.length ∧
        Space.Independent distantAtom.kind distantAtom.sites.length firstTwoNear 4 ∧
        4 ∉ s.configurations := by
  refine ⟨distantAtom_decides, _, space_eq_ofNear distantAtom_decides, by decide,
    independent_pow 2, fun hmem => ?_⟩
  have hidle := ((mem_ofNear firstTwoNear_symm).mp hmem).2.2
    (fun hscattered => absurd (hscattered 1 (by decide) 0 (by decide)) (by decide))
    2 (by decide) (by decide) (by decide)
  exact absurd hidle (by decide)

end AtomRegister

end AtomArray
