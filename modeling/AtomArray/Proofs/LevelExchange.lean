import AtomArray.Proofs.Operators
import Mathlib.LinearAlgebra.Matrix.Symmetric

/-!
Exchanging two levels of an atom.

The entries that exchange two levels are found by other arithmetic than those that take an atom from
one level to the other. Both are characterised by the configurations they connect
(`Space.mem_swapAt`, `Space.mem_transitionAt`). So the exchange is the transition together with its
transpose, in entries (`Space.swapAt_perm`) and as matrices (`Space.matrix_swapAt`).
-/

namespace AtomArray

open List Nat Selection AtomKind

/-! ### Moving one atom in numbers -/

section Digits

variable {levels i n x y c c' : Nat}

/-- A moved atom changes a configuration by the difference of the levels. -/
theorem movesAtom_shift (hl : 2 ≤ levels) (hx : x < levels) (hy : y < levels) :
    MovesAtom levels i x y c c' ↔
      levelOf levels i c = x ∧ c' = c + y * levels ^ i - x * levels ^ i := by
  rcases le_total x y with hxy | hyx
  · obtain ⟨d, rfl⟩ := Nat.exists_eq_add_of_le hxy
    have hshift : c + (x + d) * levels ^ i - x * levels ^ i = c + d * levels ^ i := by
      rw [add_mul]
      omega
    rw [movesAtom_up hl hy, hshift]
  · obtain ⟨d, rfl⟩ := Nat.exists_eq_add_of_le hyx
    have hshift : c + y * levels ^ i - (y + d) * levels ^ i = c - d * levels ^ i := by
      rw [add_mul]
      omega
    rw [movesAtom_down hl hx, hshift]

theorem levelOf_two (i c : Nat) : levelOf 2 i c = (c.testBit i).toNat := by
  rw [levelOf_eq, toNat_testBit]

theorem movesAtom_xor (hx : x < 2) (hy : y < 2) (hxy : x ≠ y) :
    MovesAtom 2 i x y c c' ↔ levelOf 2 i c = x ∧ c' = c ^^^ 2 ^ i := by
  have hflip : ∀ b, levelOf 2 b (c ^^^ 2 ^ i) =
      if b = i then 1 - levelOf 2 i c else levelOf 2 b c := by
    intro b
    rw [levelOf_two, levelOf_two, levelOf_two, testBit_xor, testBit_two_pow]
    by_cases hb : b = i
    · rw [if_pos hb, hb]
      cases c.testBit i <;> simp
    · simp [hb, Ne.symm hb]
  constructor
  · intro h
    refine ⟨h.source, eq_of_levelOf le_rfl fun b => ?_⟩
    rw [hflip]
    by_cases hb : b = i
    · rw [if_pos hb, hb, h.source, h.target]
      omega
    · rw [if_neg hb, h.others b hb]
  · rintro ⟨hsource, rfl⟩
    refine ⟨hsource, ?_, fun b hb => ?_⟩
    · rw [hflip, if_pos rfl, hsource]
      omega
    · rw [hflip, if_neg hb]

/-- With three levels the lower of two is raised and the higher lowered. -/
theorem movesAtom_exchanged (hx : x < 3) (hy : y < 3) (hxy : x ≠ y) :
    (levelOf 3 i c = x ∨ levelOf 3 i c = y) ∧ c' = Space.exchanged 3 i x y c ↔
      MovesAtom 3 i x y c c' ∨ MovesAtom 3 i y x c c' := by
  wlog hlt : x < y generalizing x y
  · have hswap : Space.exchanged 3 i x y c = Space.exchanged 3 i y x c := by
      rw [Space.exchanged, Space.exchanged, min_comm, max_comm]
    rw [hswap, or_comm, this hy hx hxy.symm (by omega), or_comm]
  rw [movesAtom_shift (by omega) hx hy, movesAtom_shift (by omega) hy hx, Space.exchanged,
    Nat.pow_eq, Nat.sub_mul]
  have hmul : x * 3 ^ i ≤ y * 3 ^ i := mul_le_mul_right _ hlt.le
  rw [min_eq_left hlt.le, max_eq_right hlt.le]
  by_cases hlevel : levelOf 3 i c = x
  · simp only [hlevel, true_and, if_true, hxy, false_and, or_false]
    omega
  · simp only [hlevel, false_or, false_and, if_false]
    omega

theorem MovesAtom.lt_pow (hl : 2 ≤ levels) (hi : i < n) (hc : c < levels ^ n)
    (h : MovesAtom levels i x y c c') : c' < levels ^ n := by
  have hpos : 0 < levels ^ n := Nat.pow_pos (by omega)
  have hmod : c' % levels ^ n = c' := by
    refine eq_of_levelOf hl fun b => ?_
    rcases lt_or_ge b n with hb | hb
    · exact levelOf_mod_pow (by omega) hb c'
    · have hle : levels ^ n ≤ levels ^ b := Nat.pow_le_pow_right (by omega) hb
      have hzero : levelOf levels b c' = 0 := by
        rw [← h.others b (by omega)]
        exact levelOf_eq_zero (by omega)
      have hlt := mod_lt c' hpos
      rw [hzero]
      exact levelOf_eq_zero (by omega)
  rw [← hmod]
  exact mod_lt c' hpos

end Digits

/-! ### Entries that fit -/

/-- Rows and columns stand side by side, in the range of the matrix, and no pair of them comes
twice. -/
structure Moves.Fits (m : Moves) (n : Nat) : Prop where
  paired : (m.rows.entries n).length = m.columns.length
  row_lt : ∀ r ∈ m.rows.entries n, r < n
  column_lt : ∀ c ∈ m.columns, c < n
  nodup : (m.pairs n).Nodup

theorem Moves.fits_of_pairs {m : Moves} {n : Nat}
    (hpaired : (m.rows.entries n).length = m.columns.length)
    (hlt : ∀ p ∈ m.pairs n, p.1 < n ∧ p.2 < n) (hnodup : (m.pairs n).Nodup) : m.Fits n := by
  refine ⟨hpaired, fun r hr => ?_, fun c hc => ?_, hnodup⟩
  · obtain ⟨p, hp, rfl⟩ : ∃ p ∈ m.pairs n, p.1 = r := by
      rw [← map_fst_zip hpaired.le] at hr
      exact mem_map.mp hr
    exact (hlt p hp).1
  · obtain ⟨p, hp, rfl⟩ : ∃ p ∈ m.pairs n, p.2 = c := by
      rw [← map_snd_zip hpaired.ge] at hc
      exact mem_map.mp hc
    exact (hlt p hp).2

namespace Space

variable {s : Space} {i a b : Nat}

/-- The configurations increase, and a full space has all of them. -/
structure Ordered (s : Space) : Prop where
  increasing : s.configurations.Pairwise (· < ·)
  full : s.full → s.configurations = range (s.kind.levels ^ s.atoms)

theorem Ordered.regular (hs : s.Ordered) : s.Regular := by
  refine ⟨hs.increasing.imp ne_of_lt, fun hfull => ?_⟩
  rw [size, hs.full hfull, length_range]

theorem ofNear_ordered (kind : AtomKind) (n : Nat) (near : Nat → Nat → Bool) :
    (ofNear kind n near).Ordered := by
  refine ⟨pairwise_lt_ofNear, fun hfull => ?_⟩
  by_cases hscattered : Scattered n near
  · rw [ofNear_of_scattered hscattered]
  · simp [ofNear_of_not_scattered hscattered] at hfull

/-- The space of every register is ordered, so all that follows holds of it. -/
theorem ordered_of_register {N : Type} [Arith N] {r : AtomRegister N} (h : r.space = .ok s) :
    s.Ordered := by
  obtain ⟨pairs, -, h⟩ := Outcome.bind_eq_ok.mp h
  cases h
  exact ofNear_ordered _ _ _

theorem paired_locate {rows : Selection} {columns : List Nat}
    (h : (rows.entries s.size).length = columns.length) :
    ((s.locate rows columns).rows.entries s.size).length =
      (s.locate rows columns).columns.length := by
  rw [locate]
  split
  · exact h
  · simp only
    split
    · rename_i hall
      have hfound : ((columns.map s.position?).filterMap id).length = columns.length := by
        rw [filterMap_map]
        exact filterMap_length_eq_length.mpr (by simpa using hall)
      rw [h, hfound]
    · simp [entries]

theorem fst_matching_true : (s.matching fun _ => true).map Prod.fst = range s.size := by
  rw [matching, filter_true, map_map, range_eq_range', size]
  exact zipIdx_map_snd 0 s.configurations

theorem map_matching_true (f : Nat → Nat) :
    ((s.matching fun _ => true).map fun x => f x.2) = s.configurations.map f := by
  conv_rhs => rw [← zipIdx_map_fst 0 s.configurations]
  rw [matching, filter_true, map_map, map_map]
  rfl

theorem pairs_locate_all (columns : List Nat) : (s.locate .all columns).pairs s.size =
      (s.locate (.list (range s.size)) columns).pairs s.size := by
  simp only [locate, Moves.pairs]
  split
  · rfl
  · split <;> rfl

/-- The entries that take each configuration where a test holds to another one. -/
def moving (s : Space) (test : Nat → Bool) (moved : Nat → Nat) : Moves :=
  s.locate (.list ((s.matching test).map Prod.fst)) ((s.matching test).map fun x => moved x.2)

variable {moved : Nat → Nat} {R : Nat → Nat → Prop} {test : Nat → Bool}

/-- Moves of one atom connect the configurations that they say. -/
theorem Ordered.mem_moving (hs : s.Ordered) (hi : i < s.atoms)
    (hmoved : ∀ c c', test c ∧ c' = moved c ↔ R c c')
    (hR : ∀ c c', R c c' → ∃ x y, MovesAtom s.kind.levels i x y c c') {p q : Nat} :
    (p, q) ∈ (s.moving test moved).pairs s.size ↔
      ∃ c c', s.configurations[p]? = some c ∧ s.configurations[q]? = some c' ∧ R c c' := by
  constructor
  · intro h
    cases hfull : s.full with
    | true =>
      simp only [moving, locate, hfull, if_true, Moves.pairs, entries, zip_map',
        mem_map, Prod.mk.injEq] at h
      obtain ⟨⟨p', c⟩, hmem, rfl, rfl⟩ := h
      obtain ⟨hc, htest⟩ := mem_matching.mp hmem
      have hRc := (hmoved c (moved c)).mp ⟨htest, rfl⟩
      obtain ⟨x, y, hmoves⟩ := hR c _ hRc
      rw [hs.full hfull] at hc ⊢
      obtain ⟨hlt, rfl⟩ := List.getElem?_eq_some_iff.mp hc
      rw [getElem_range] at hc hmoves hRc ⊢
      rw [length_range] at hlt
      refine ⟨p', _, hc, ?_, hRc⟩
      exact getElem?_range (hmoves.lt_pow s.kind.two_le_levels hi hlt)
    | false =>
      rw [moving, pairs_locate hfull, mem_keptPairs, map_map, zip_map', mem_map] at h
      obtain ⟨⟨p', c⟩, hmem, heq⟩ := h
      obtain ⟨rfl, hq⟩ := Prod.mk.inj heq
      obtain ⟨hc, htest⟩ := mem_matching.mp hmem
      exact ⟨c, moved c, hc, hs.regular.position?_eq_some.mp hq, (hmoved c _).mp ⟨htest, rfl⟩⟩
  · rintro ⟨c, c', hc, hc', hRc⟩
    exact (hs.regular.mem_matching_locate test moved hc hc').mpr ((hmoved c c').mpr hRc)

theorem Ordered.fits_moving (hs : s.Ordered) (hi : i < s.atoms)
    (hmoved : ∀ c c', test c ∧ c' = moved c ↔ R c c')
    (hR : ∀ c c', R c c' → ∃ x y, MovesAtom s.kind.levels i x y c c') :
    (s.moving test moved).Fits s.size := by
  refine Moves.fits_of_pairs (paired_locate (by simp [entries])) ?_ ?_
  · intro p hp
    obtain ⟨c, c', hc, hc', -⟩ := (hs.mem_moving hi hmoved hR).mp hp
    exact ⟨(List.getElem?_eq_some_iff.mp hc).1, (List.getElem?_eq_some_iff.mp hc').1⟩
  · exact (nodup_locate (nodup_matching test)).of_map

/-! ### The exchange and the transition -/

/-- The configurations that an exchange of two levels connects. -/
def Exchanges (s : Space) (i a b c c' : Nat) : Prop :=
  MovesAtom s.kind.levels i a b c c' ∨ MovesAtom s.kind.levels i b a c c'

theorem Exchanges.moves {c c' : Nat} (h : s.Exchanges i a b c c') :
    ∃ x y, MovesAtom s.kind.levels i x y c c' := by
  rcases h with h | h
  · exact ⟨a, b, h⟩
  · exact ⟨b, a, h⟩

/-- The exchange as moves of the configurations where a test holds. With two levels the test is
always passed. -/
theorem exists_moving_swapAt (ha : a < s.kind.levels) (hb : b < s.kind.levels) (hab : a ≠ b) :
    ∃ test moved, (∀ c c', test c ∧ c' = moved c ↔ s.Exchanges i a b c c') ∧
      (s.swapAt i a b).pairs s.size = (s.moving test moved).pairs s.size ∧
      (((s.swapAt i a b).rows.entries s.size).length = (s.swapAt i a b).columns.length) := by
  cases hkind : s.kind with
  | twoLevel =>
    rw [hkind] at ha hb
    refine ⟨fun _ => true, (· ^^^ 2 ^ i), fun c c' => ?_, ?_, ?_⟩
    · rw [Exchanges, hkind, levels, movesAtom_xor ha hb hab,
        movesAtom_xor hb ha (Ne.symm hab), ← or_and_right]
      have hlt : levelOf 2 i c < 2 := levelOf_lt two_pos i c
      have hlevel : levelOf 2 i c = a ∨ levelOf 2 i c = b := by
        simp only [levels] at ha hb
        omega
      simp [hlevel]
    · simp only [swapAt, hkind]
      rw [pairs_locate_all, moving, fst_matching_true, map_matching_true (· ^^^ 2 ^ i)]
      rfl
    · simp only [swapAt, hkind]
      exact paired_locate (by simp [entries, size])
  | threeLevel =>
    rw [hkind] at ha hb
    refine ⟨fun c => levelOf 3 i c == a || levelOf 3 i c == b, exchanged 3 i a b,
      fun c c' => ?_, ?_, ?_⟩
    · rw [Exchanges, hkind, levels, ← movesAtom_exchanged ha hb hab]
      simp
    · simp only [swapAt, hkind]
      rfl
    · simp only [swapAt, hkind]
      exact paired_locate (by simp [entries])

section Moved

variable (hs : s.Ordered) (hi : i < s.atoms) (ha : a < s.kind.levels) (hb : b < s.kind.levels)
  (hab : a ≠ b)
include hs hi ha hb hab

variable {p q : Nat}

theorem Ordered.mem_swapAt : (p, q) ∈ (s.swapAt i a b).pairs s.size ↔
      ∃ c c', s.configurations[p]? = some c ∧ s.configurations[q]? = some c' ∧
        s.Exchanges i a b c c' := by
  obtain ⟨test, moved, hmoved, hpairs, -⟩ := exists_moving_swapAt (i := i) ha hb hab
  rw [hpairs]
  exact hs.mem_moving hi hmoved fun _ _ => Exchanges.moves

theorem Ordered.fits_swapAt : (s.swapAt i a b).Fits s.size := by
  obtain ⟨test, moved, hmoved, hpairs, hpaired⟩ := exists_moving_swapAt (i := i) ha hb hab
  refine Moves.fits_of_pairs hpaired (fun p hp => ?_) ?_
  · obtain ⟨c, c', hc, hc', -⟩ := (hs.mem_swapAt hi ha hb hab).mp hp
    exact ⟨(List.getElem?_eq_some_iff.mp hc).1, (List.getElem?_eq_some_iff.mp hc').1⟩
  · rw [hpairs]
    exact (hs.fits_moving hi hmoved fun _ _ => Exchanges.moves).nodup

omit hs hi in
theorem exists_moving_transitionAt :
    ∃ test moved, (∀ c c', test c ∧ c' = moved c ↔ MovesAtom s.kind.levels i a b c c') ∧
      s.transitionAt i a b = s.moving test moved := by
  cases hkind : s.kind with
  | twoLevel =>
    rw [hkind] at ha hb
    refine ⟨fun c => levelOf 2 i c == a, (· ^^^ 2 ^ i), fun c c' => ?_, ?_⟩
    · rw [levels, movesAtom_xor ha hb hab, beq_iff_eq]
    · simp only [transitionAt, hkind]
      rfl
  | threeLevel =>
    rw [hkind] at ha hb
    refine ⟨fun c => levelOf 3 i c == a, fun c => c + b * 3 ^ i - a * 3 ^ i, fun c c' => ?_, ?_⟩
    · rw [movesAtom_shift threeLevel.two_le_levels ha hb, beq_iff_eq]
      rfl
    · simp only [transitionAt, hkind]
      rfl

theorem Ordered.mem_transitionAt : (p, q) ∈ (s.transitionAt i a b).pairs s.size ↔
      ∃ c c', s.configurations[p]? = some c ∧ s.configurations[q]? = some c' ∧
        MovesAtom s.kind.levels i a b c c' := by
  obtain ⟨test, moved, hmoved, heq⟩ := exists_moving_transitionAt (i := i) ha hb hab
  rw [heq]
  exact hs.mem_moving hi hmoved fun _ _ h => ⟨a, b, h⟩

theorem Ordered.fits_transitionAt : (s.transitionAt i a b).Fits s.size := by
  obtain ⟨test, moved, hmoved, heq⟩ := exists_moving_transitionAt (i := i) ha hb hab
  rw [heq]
  exact hs.fits_moving hi hmoved fun _ _ h => ⟨a, b, h⟩

/-- The exchange connects what the transition connects, in either order. -/
theorem Ordered.mem_swapAt_iff : (p, q) ∈ (s.swapAt i a b).pairs s.size ↔
      (p, q) ∈ (s.transitionAt i a b).pairs s.size ∨
        (q, p) ∈ (s.transitionAt i a b).pairs s.size := by
  rw [hs.mem_swapAt hi ha hb hab, hs.mem_transitionAt hi ha hb hab,
    hs.mem_transitionAt hi ha hb hab]
  constructor
  · rintro ⟨c, c', hc, hc', hup | hdown⟩
    · exact .inl ⟨c, c', hc, hc', hup⟩
    · exact .inr ⟨c', c, hc', hc, hdown.symm⟩
  · rintro (⟨c, c', hc, hc', hup⟩ | ⟨c', c, hc', hc, hdown⟩)
    · exact ⟨c, c', hc, hc', .inl hup⟩
    · exact ⟨c, c', hc, hc', .inr hdown.symm⟩

theorem Ordered.notMem_transitionAt_swap (h : (p, q) ∈ (s.transitionAt i a b).pairs s.size) :
    (q, p) ∉ (s.transitionAt i a b).pairs s.size := by
  intro hback
  obtain ⟨c, c', hc, hc', hmoves⟩ := (hs.mem_transitionAt hi ha hb hab).mp h
  obtain ⟨d', d, hd', hd, hmoves'⟩ := (hs.mem_transitionAt hi ha hb hab).mp hback
  obtain rfl : c = d := Option.some.inj (hc.symm.trans hd)
  exact hab (hmoves.source.symm.trans hmoves'.target)

/-- The entries of the exchange are those of the transition and of its transpose. -/
theorem Ordered.swapAt_perm : ((s.swapAt i a b).pairs s.size).Perm
      ((s.transitionAt i a b).pairs s.size ++
        ((s.transitionAt i a b).pairs s.size).map Prod.swap) := by
  have hmem : ∀ {p q : Nat}, (p, q) ∈ ((s.transitionAt i a b).pairs s.size).map Prod.swap ↔
      (q, p) ∈ (s.transitionAt i a b).pairs s.size := by simp
  have hnodup := (hs.fits_transitionAt hi ha hb hab).nodup
  rw [perm_ext_iff_of_nodup (hs.fits_swapAt hi ha hb hab).nodup]
  · rintro ⟨p, q⟩
    rw [mem_append, hmem, hs.mem_swapAt_iff hi ha hb hab]
  · refine hnodup.append (hnodup.map Prod.swap_injective) ?_
    rintro ⟨p, q⟩ hpq hqp
    exact hs.notMem_transitionAt_swap hi ha hb hab hpq (hmem.mp hqp)

end Moved

end Space

/-- The matrix with a one at each pair of a row and a column. -/
def Moves.matrix (m : Moves) (n : Nat) : Matrix (Fin n) (Fin n) Nat :=
  .of fun p q => if ((p : Nat), (q : Nat)) ∈ m.pairs n then 1 else 0

/-- The matrix of the exchange is that of the transition and its transpose, added. -/
theorem Space.Ordered.matrix_swapAt {s : Space} {i a b : Nat} (hs : s.Ordered) (hi : i < s.atoms)
    (ha : a < s.kind.levels) (hb : b < s.kind.levels) (hab : a ≠ b) :
    (s.swapAt i a b).matrix s.size =
      (s.transitionAt i a b).matrix s.size + ((s.transitionAt i a b).matrix s.size).transpose := by
  ext p q
  simp only [Moves.matrix, Matrix.add_apply, Matrix.transpose_apply, Matrix.of_apply,
    hs.mem_swapAt_iff hi ha hb hab]
  by_cases hpq : ((p : Nat), (q : Nat)) ∈ (s.transitionAt i a b).pairs s.size
  · have hqp := hs.notMem_transitionAt_swap hi ha hb hab hpq
    simp [hpq, hqp]
  · simp [hpq]

end AtomArray
