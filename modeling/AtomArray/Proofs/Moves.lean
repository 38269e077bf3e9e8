import AtomArray.Emulator.Hamiltonian
import AtomArray.Proofs.Blockade

/-!
Moving one atom between its levels.

`MovesAtom levels a x y c c'` says that two configurations differ in the level of the atom `a` only,
which is `x` in the first and `y` in the second. In numbers this is a step of
`(y - x) * levels ^ a` (`movesAtom_up`, `movesAtom_down`).

`Space.Regular.mem_movesOf` says that for atoms of three levels the moves of an atom in a space are
the pairs of configurations that the drive moves into each other.
-/

namespace AtomArray

open List Nat

/-! ### Moving one atom -/

section Digits

variable {levels a b d x y c c' : Nat}

theorem levelOf_add (hl : 0 < levels) (h : levelOf levels a c + d < levels) (b : Nat) :
    levelOf levels b (c + d * levels ^ a) =
      if b = a then levelOf levels a c + d else levelOf levels b c := by
  have hpos : 0 < levels ^ a := Nat.pow_pos hl
  rw [levelOf_eq] at h
  have hsplit : c / levels ^ a + d =
      c / levels ^ a % levels + d + levels * (c / levels ^ a / levels) := by
    have := mod_add_div (c / levels ^ a) levels
    omega
  rcases lt_trichotomy b a with hlt | rfl | hgt
  · rw [if_neg (by omega), levelOf_place_below hl hlt]
  · rw [if_pos rfl, levelOf_eq, add_mul_div_right _ _ hpos, hsplit,
      add_mul_mod_self_left, mod_eq_of_lt h, levelOf_eq]
  · obtain ⟨k, rfl⟩ := Nat.exists_eq_add_of_lt hgt
    have hdiv (n : Nat) : n / levels ^ (a + k + 1) = n / levels ^ a / levels / levels ^ k := by
      rw [Nat.div_div_eq_div_mul, Nat.div_div_eq_div_mul]
      congr 1
      ring
    rw [if_neg (by omega), levelOf_eq, levelOf_eq, hdiv, hdiv, add_mul_div_right _ _ hpos,
      hsplit, add_mul_div_left _ _ hl, div_eq_of_lt h, zero_add]

theorem eq_of_levelOf (hl : 2 ≤ levels) (h : ∀ b, levelOf levels b c = levelOf levels b c') :
    c = c' := by
  have hmod : ∀ n, c % levels ^ n = c' % levels ^ n := by
    intro n
    induction n with
    | zero => simp [mod_one]
    | succ n ih =>
      have hn := h n
      rw [levelOf_eq, levelOf_eq] at hn
      rw [mod_pow_succ, mod_pow_succ, ih, hn]
  have hlt : c + c' < levels ^ (c + c') := Nat.lt_pow_self hl
  have := hmod (c + c')
  rwa [mod_eq_of_lt (by omega), mod_eq_of_lt (by omega)] at this

/-- Two configurations that differ in the level of one atom, `x` in the first and `y` in the
second. -/
structure MovesAtom (levels a x y c c' : Nat) : Prop where
  source : levelOf levels a c = x
  target : levelOf levels a c' = y
  others : ∀ b, b ≠ a → levelOf levels b c = levelOf levels b c'

theorem MovesAtom.symm (h : MovesAtom levels a x y c c') : MovesAtom levels a y x c' c :=
  ⟨h.target, h.source, fun b hb => (h.others b hb).symm⟩

theorem movesAtom_up (hl : 2 ≤ levels) (hx : x + d < levels) : MovesAtom levels a x (x + d) c c' ↔
      levelOf levels a c = x ∧ c' = c + d * levels ^ a := by
  have hpos : 0 < levels := by omega
  constructor
  · intro h
    refine ⟨h.source, eq_of_levelOf hl fun b => ?_⟩
    rw [levelOf_add hpos (by rwa [h.source]), h.source]
    split
    · rename_i hb
      rw [hb, h.target]
    · rename_i hb
      exact (h.others b hb).symm
  · rintro ⟨hsource, rfl⟩
    have hadd := levelOf_add (c := c) (a := a) (d := d) hpos (by rwa [hsource])
    refine ⟨hsource, by rw [hadd, if_pos rfl, hsource], fun b hb => ?_⟩
    rw [hadd, if_neg hb]

theorem levelOf_sub (hl : 0 < levels) (h : levelOf levels a c = x + d) :
    d * levels ^ a ≤ c ∧ levelOf levels a (c - d * levels ^ a) = x := by
  have hpos : 0 < levels ^ a := Nat.pow_pos hl
  rw [levelOf_eq] at h
  have hdiv : c / levels ^ a % levels ≤ c / levels ^ a := mod_le _ _
  have hle : d * levels ^ a ≤ c := (le_div_iff_mul_le hpos).mp (by omega)
  refine ⟨hle, ?_⟩
  have hlt := mod_lt (c / levels ^ a) hl
  have hsplit : c / levels ^ a - d = x + levels * (c / levels ^ a / levels) := by
    have := mod_add_div (c / levels ^ a) levels
    omega
  rw [levelOf_eq, mul_comm, sub_mul_div_of_le _ _ _ (by rwa [mul_comm]), hsplit,
    add_mul_mod_self_left, mod_eq_of_lt (by omega)]

theorem movesAtom_down (hl : 2 ≤ levels) (hx : x + d < levels) : MovesAtom levels a (x + d) x c c' ↔
      levelOf levels a c = x + d ∧ c' = c - d * levels ^ a := by
  constructor
  · intro h
    obtain ⟨-, rfl⟩ := (movesAtom_up hl hx).mp h.symm
    exact ⟨h.source, (Nat.add_sub_cancel _ _).symm⟩
  · rintro ⟨hsource, rfl⟩
    obtain ⟨hle, hlevel⟩ := levelOf_sub (by omega) hsource
    exact ((movesAtom_up hl hx).mpr ⟨hlevel, (Nat.sub_add_cancel hle).symm⟩).symm

end Digits

/-! ### Places in a space -/

namespace Space

variable {s : Space} {i j a c c' p low : Nat} {rows columns : List Nat}

/-- No configuration is listed twice, and in a full space each is its own place. -/
structure Regular (s : Space) : Prop where
  nodup : s.configurations.Nodup
  full : s.full → s.configurations = range s.size

theorem ofNear_regular (kind : AtomKind) (n : Nat) (near : Nat → Nat → Bool) :
    (ofNear kind n near).Regular := by
  refine ⟨(pairwise_lt_ofNear).imp fun h => ne_of_lt h, fun hfull => ?_⟩
  by_cases hscattered : Scattered n near
  · simp [ofNear_of_scattered hscattered, size]
  · simp [ofNear_of_not_scattered hscattered] at hfull

theorem Regular.position?_eq_some (hs : s.Regular) :
    s.position? c = some p ↔ s.configurations[p]? = some c := by
  rw [position?, idxOf?_eq_some_iff, getElem?_eq_some_iff]
  constructor
  · rintro ⟨hp, hc, -⟩
    exact ⟨hp, hc⟩
  · rintro ⟨hp, rfl⟩
    refine ⟨hp, rfl, fun q hq heq => ?_⟩
    have := (hs.nodup.getElem_inj_iff).mp heq
    omega

theorem mem_matching {test : Nat → Bool} :
    (p, c) ∈ s.matching test ↔ s.configurations[p]? = some c ∧ test c := by
  simp only [matching, mem_map, mem_filter, Prod.mk.injEq]
  constructor
  · rintro ⟨x, ⟨hmem, htest⟩, rfl, rfl⟩
    exact ⟨mem_zipIdx_iff_getElem?.mp hmem, htest⟩
  · rintro ⟨hc, htest⟩
    exact ⟨(c, p), ⟨mk_mem_zipIdx_iff_getElem?.mpr hc, htest⟩, rfl, rfl⟩

end Space

/-- The rows and columns of the ones, side by side. -/
def Moves.pairs (m : Moves) (n : Nat) : List (Nat × Nat) := (m.rows.entries n).zip m.columns

/-- The rows whose column is found, with it. -/
def keptPairs (rows : List Nat) (found : List (Option Nat)) : List (Nat × Nat) :=
  (rows.zip found).filterMap fun x => x.2.map (x.1, ·)

variable {found : List (Option Nat)} {rows : List Nat}

theorem zip_filterMap_id (h : found.all Option.isSome) :
    rows.zip (found.filterMap id) = keptPairs rows found := by
  induction found generalizing rows with
  | nil => simp [keptPairs]
  | cons x found ih =>
    simp only [all_cons, Bool.and_eq_true, Option.isSome_iff_exists] at h
    obtain ⟨⟨q, rfl⟩, hrest⟩ := h
    cases rows with
    | nil => simp [keptPairs]
    | cons r rows =>
      have ih : rows.zip (found.filterMap id) = keptPairs rows found := ih hrest
      show (r, q) :: rows.zip (found.filterMap id) = (r, q) :: keptPairs rows found
      rw [ih]

theorem mem_keptPairs {i j : Nat} :
    (i, j) ∈ keptPairs rows found ↔ (i, some j) ∈ rows.zip found := by
  simp only [keptPairs, mem_filterMap, Option.map_eq_some_iff, Prod.mk.injEq]
  constructor
  · rintro ⟨⟨r, q⟩, hmem, j', rfl, rfl, rfl⟩
    exact hmem
  · intro h
    exact ⟨(i, some j), h, j, rfl, rfl, rfl⟩

namespace Space

variable {s : Space} {i j a c c' p low : Nat} {rows columns : List Nat}

/-- Outside a full space the pairs are those whose column is in the space. -/
theorem pairs_locate (hfull : s.full = false) :
    (s.locate (.list rows) columns).pairs s.size = keptPairs rows (columns.map s.position?) := by
  simp only [locate, hfull, Bool.false_eq_true, if_false]
  split
  · rename_i hall
    exact zip_filterMap_id hall
  · rw [Moves.pairs, Selection.entries, zip_map']
    exact map_id _

theorem mem_zip_map {α : Type} {xs : List Nat} {ys : List α} {β : Type} {f : α → β} {y : β} :
    (i, y) ∈ xs.zip (ys.map f) ↔ ∃ x, (i, x) ∈ xs.zip ys ∧ f x = y := by
  rw [zip_map_right]
  simp

theorem Regular.mem_locate (hs : s.Regular) (hj : s.configurations[j]? = some c) :
    (i, j) ∈ (s.locate (.list rows) columns).pairs s.size ↔ (i, c) ∈ rows.zip columns := by
  cases hfull : s.full with
  | true =>
    have hjc : j = c := by
      rw [hs.full hfull] at hj
      obtain ⟨hlt, heq⟩ := List.getElem?_eq_some_iff.mp hj
      simpa using heq
    simp [locate, hfull, Moves.pairs, Selection.entries, hjc]
  | false =>
    rw [pairs_locate hfull, mem_keptPairs, mem_zip_map]
    constructor
    · rintro ⟨x, hx, hpos⟩
      rw [hs.position?_eq_some, hj] at hpos
      rwa [Option.some.inj hpos]
    · exact fun h => ⟨c, h, hs.position?_eq_some.mpr hj⟩

/-- The pairs of a move that is given for the configurations where a test holds. -/
theorem Regular.mem_matching_locate (hs : s.Regular) (test : Nat → Bool) (moved : Nat → Nat)
    (hi : s.configurations[i]? = some c) (hj : s.configurations[j]? = some c') :
    (i, j) ∈ (s.locate (.list ((s.matching test).map Prod.fst))
        ((s.matching test).map fun x => moved x.2)).pairs s.size ↔
      test c ∧ c' = moved c := by
  rw [hs.mem_locate hj, zip_map', mem_map]
  constructor
  · rintro ⟨⟨p, q⟩, hmem, heq⟩
    cases heq
    obtain ⟨hq, htest⟩ := mem_matching.mp hmem
    obtain rfl : q = c := Option.some.inj (hq.symm.trans hi)
    exact ⟨htest, rfl⟩
  · rintro ⟨htest, rfl⟩
    exact ⟨(i, c), mem_matching.mpr ⟨hi, htest⟩, rfl⟩

/-- A drive between `low` and the level above it takes the atom `a` from `c` to `c'`: down only, or
either way if the drive is symmetric. -/
def Drives (kind : RabiKind) (low a c c' : Nat) : Prop :=
  MovesAtom 3 a (low + 1) low c c' ∨ kind = .symmetric ∧ MovesAtom 3 a low (low + 1) c c'

/-- The moves of an atom of three levels between two neighbouring levels. -/
theorem Regular.mem_movesOf (hs : s.Regular) (hkind : s.kind = .threeLevel) (hlow : low + 1 < 3)
    {kind : RabiKind} (hi : s.configurations[i]? = some c) (hj : s.configurations[j]? = some c') :
    (i, j) ∈ (s.movesOf kind low (low + 1) a).pairs s.size ↔ Drives kind low a c c' := by
  have hup : MovesAtom 3 a low (low + 1) c c' ↔ levelOf 3 a c = low ∧ c' = c + 1 * 3 ^ a :=
    movesAtom_up (by omega) hlow
  have hdown : MovesAtom 3 a (low + 1) low c c' ↔ levelOf 3 a c = low + 1 ∧ c' = c - 1 * 3 ^ a :=
    movesAtom_down (by omega) hlow
  rw [Drives, hup, hdown]
  cases kind with
  | symmetric =>
    simp only [movesOf, swapAt, hkind]
    refine (hs.mem_matching_locate _ (exchanged 3 a (low + 1) low) hi hj).trans ?_
    have hmin : min (low + 1) low = low := by omega
    have hmax : max (low + 1) low = low + 1 := by omega
    simp only [Bool.or_eq_true, beq_iff_eq, exchanged, hmin, hmax, pow_eq, true_and]
    by_cases hlevel : levelOf 3 a c = low
    · simp [hlevel]
    · simp [hlevel]
  | asymmetric =>
    simp only [movesOf, transitionAt, hkind]
    refine (hs.mem_matching_locate _
      (fun c => c + low * Nat.pow 3 a - (low + 1) * Nat.pow 3 a) hi hj).trans ?_
    have hsub : c + low * Nat.pow 3 a - (low + 1) * Nat.pow 3 a = c - 1 * 3 ^ a := by
      rw [pow_eq, add_mul]
      omega
    simp only [hsub, AtomKind.levels, beq_iff_eq, reduceCtorEq, false_and, or_false]

end Space

end AtomArray
