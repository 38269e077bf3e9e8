import AtomArray.Proofs.Exact
import AtomArray.Proofs.Moves
import AtomArray.Proofs.SparseMatrices
import Mathlib.Algebra.BigOperators.Group.List.Basic
import Mathlib.Data.List.Perm.Subperm

/-!
The operators of a Hamiltonian: the diagonals of shifts (`getElem?_detuningDiagonal`), and what the
operator of a drive connects (`connects_coupler`).

Both depend on which targets there are, not on their order, in which the rows of a matrix may hold
the same entries (`Coupler.Agrees`).
-/

namespace AtomArray

open List Targets

/-! ### The operator of a drive -/

theorem keptPairs_sublist (rows : List Nat) (found : List (Option Nat)) :
    ((keptPairs rows found).map Prod.fst).Sublist rows := by
  induction rows generalizing found with
  | nil => simp [keptPairs]
  | cons r rows ih =>
    cases found with
    | nil => simp [keptPairs]
    | cons x found =>
      cases x with
      | none => exact (ih found).cons r
      | some q => exact (ih found).cons_cons r

namespace Space

variable {s : Space} {i j a c c' low : Nat} {rows columns : List Nat}

theorem nodup_locate (h : rows.Nodup) :
    (((s.locate (.list rows) columns).pairs s.size).map Prod.fst).Nodup := by
  cases hfull : s.full with
  | true =>
    simp only [locate, hfull, if_true, Moves.pairs, Selection.entries]
    have hzip : rows.zip columns = keptPairs rows (columns.map some) := by
      rw [← zip_filterMap_id (by simp)]
      simp
    rw [hzip]
    exact h.sublist (keptPairs_sublist _ _)
  | false =>
    rw [pairs_locate hfull]
    exact h.sublist (keptPairs_sublist _ _)

theorem nodup_matching (test : Nat → Bool) : ((s.matching test).map Prod.fst).Nodup := by
  have hplaces : (s.configurations.zipIdx.map Prod.snd).Nodup := by
    rw [zipIdx_map_snd]
    exact nodup_range'
  rw [matching, map_map]
  exact hplaces.sublist (filter_sublist.map _)

theorem rows_locate (rows columns : List Nat) :
    ∃ kept, (s.locate (.list rows) columns).rows = .list kept := by
  rw [locate]
  split
  · exact ⟨rows, rfl⟩
  · simp only
    split
    · exact ⟨rows, rfl⟩
    · exact ⟨_, rfl⟩

theorem rows_movesOf (hkind : s.kind = .threeLevel) (kind : RabiKind) (low high a : Nat) :
    ∃ kept, (s.movesOf kind low high a).rows = .list kept := by
  cases kind with
  | symmetric =>
    simp only [movesOf, swapAt, hkind]
    exact rows_locate _ _
  | asymmetric => exact rows_locate _ _

end Space

namespace Coupler

variable {α : Type} {i j : Nat}

/-- The operator has an entry in row `i` and column `j`. -/
def Connects (i j : Nat) : Coupler α → Prop
  | ones m => ∃ rows columns, m.rows.positions m.size = .ok rows ∧
      m.columns.positions m.size = .ok columns ∧ ((i : Int), (j : Int)) ∈ rows.zip columns
  | rows m => ∃ x, (i, j, x) ∈ m.entries

theorem connects_ones {m : Moves} {n : Nat} {kept : List Nat} (h : m.rows = .list kept) :
    (ones ⟨n, m.rows.places, .list (m.columns.map Int.ofNat)⟩ : Coupler α).Connects i j ↔
      (i, j) ∈ m.pairs n := by
  simp only [Connects, h, Selection.places, Places.positions, Except.ok.injEq, Moves.pairs,
    Selection.entries]
  constructor
  · rintro ⟨_, _, rfl, rfl, hmem⟩
    rw [zip_map, mem_map] at hmem
    obtain ⟨x, hx, heq⟩ := hmem
    simp only [Prod.map, Prod.mk.injEq, Int.ofNat_eq_natCast, Int.natCast_inj] at heq
    rwa [← heq.1, ← heq.2]
  · intro hmem
    refine ⟨_, _, rfl, rfl, ?_⟩
    rw [zip_map]
    exact mem_map.mpr ⟨(i, j), hmem, rfl⟩

end Coupler

section Operators

variable {α : Type} [Zero α] {e : Entries Rat α} {s : Space} {kind : RabiKind}
  {targets : Targets Rat} {low n i j r c c' : Nat} {x : α} {N : Type}

theorem weightedMoves_entries_perm (e : Entries N α) (n : Nat) (moves : Nat → Moves)
    (targets : Targets N) : (weightedMoves e n moves targets).entries.Perm
      ((targets.flatMap fun t => (moves t.1).weighted n (e.weight t.2)).filter (·.1 < n)) :=
  entries_ofEntries_perm n n _

theorem mem_weightedMoves {moves : Nat → Moves} :
    (r, c, x) ∈ (weightedMoves e n moves targets).entries ↔
      ∃ t ∈ targets, (r < n ∧ (r, c) ∈ (moves t.1).pairs n) ∧ x = e.weight t.2 := by
  rw [(weightedMoves_entries_perm e n moves targets).mem_iff, mem_filter, mem_flatMap]
  simp only [Moves.weighted, mem_map, Prod.mk.injEq, decide_eq_true_eq]
  constructor
  · rintro ⟨⟨t, ht, p, hp, rfl, rfl, rfl⟩, hr⟩
    exact ⟨t, ht, ⟨hr, hp⟩, rfl⟩
  · rintro ⟨t, ht, ⟨hr, hp⟩, rfl⟩
    exact ⟨⟨t, ht, (r, c), hp, rfl, rfl, rfl⟩, hr⟩

theorem coupler_cases (e : Entries N α) (s : Space) (kind : RabiKind) (low high : Nat)
    (targets : Targets N) :
    (∃ a w, targets = [(a, w)] ∧ coupler e s kind low high targets =
      .ones ⟨s.size, (s.movesOf kind low high a).rows.places,
        .list ((s.movesOf kind low high a).columns.map Int.ofNat)⟩) ∨
    coupler e s kind low high targets =
      .rows (weightedMoves e s.size (s.movesOf kind low high) targets) := by
  rcases targets with _ | ⟨⟨a, w⟩, _ | ⟨u, rest⟩⟩
  · exact .inr rfl
  · exact .inl ⟨a, w, rfl, rfl⟩
  · exact .inr rfl

/-- **The operator of a drive on atoms of three levels**: it connects two configurations exactly
when they differ in the level of one of the targets, as the drive moves it. -/
theorem connects_coupler (hs : s.Regular) (hkind : s.kind = .threeLevel) (hlow : low + 1 < 3)
    (hi : s.configurations[i]? = some c) (hj : s.configurations[j]? = some c') :
    (coupler e s kind low (low + 1) targets).Connects i j ↔
      ∃ t ∈ targets, Space.Drives kind low t.1 c c' := by
  rcases coupler_cases e s kind low (low + 1) targets with ⟨a, w, rfl, hone⟩ | hrows
  · obtain ⟨kept, hkept⟩ := Space.rows_movesOf hkind kind low (low + 1) a
    rw [hone, Coupler.connects_ones hkept, hs.mem_movesOf hkind hlow hi hj]
    simp
  · have hlt : i < s.size := (List.getElem?_eq_some_iff.mp hi).1
    rw [hrows, Coupler.Connects]
    simp only [mem_weightedMoves, hs.mem_movesOf hkind hlow hi hj, hlt, true_and]
    constructor
    · rintro ⟨x, t, ht, hdrives, -⟩
      exact ⟨t, ht, hdrives⟩
    · rintro ⟨t, ht, hdrives⟩
      exact ⟨_, t, ht, hdrives, rfl⟩

end Operators

/-! ### The diagonal of a shift -/

section Shifts

variable {α : Type} [AddCommGroup α] {e : Entries Rat α} {s : Space} {level i c : Nat}
  {targets others : Targets Rat}

/-- The weights of the targets that are at a level in a configuration, added up. -/
def Targets.weightAt (e : Entries Rat α) (levels level c : Nat) (targets : Targets Rat) : α :=
  ((targets.filter fun t => levelOf levels t.1 c == level).map fun t => e.weight t.2).sum

theorem foldl_sub_weights (levels : Nat) (acc : α) : targets.foldl
        (fun acc t => if levelOf levels t.1 c == level then acc - e.weight t.2 else acc) acc =
      acc - targets.weightAt e levels level c := by
  induction targets generalizing acc with
  | nil => simp [weightAt]
  | cons t targets ih =>
    rw [foldl_cons, ih, weightAt, weightAt]
    rw [filter_cons]
    split
    · rw [map_cons, sum_cons, sub_sub]
    · rfl

/-- **The diagonal of a shift**: less the weights of the targets at the level. -/
theorem getElem?_detuningDiagonal (hi : s.configurations[i]? = some c) :
    (detuningDiagonal e s level targets)[i]? =
      some (-targets.weightAt e s.kind.levels level c) := by
  rw [detuningDiagonal, getElem?_toArray, getElem?_map, hi, Option.map_some]
  exact congrArg some ((foldl_sub_weights s.kind.levels 0).trans (zero_sub _))

theorem detuningDiagonal_perm (h : targets.Perm others) :
    detuningDiagonal e s level targets = detuningDiagonal e s level others := by
  have hweight (c : Nat) : targets.weightAt e s.kind.levels level c =
      others.weightAt e s.kind.levels level c := ((h.filter _).map _).sum_eq
  rw [detuningDiagonal, detuningDiagonal]
  congr 1
  refine map_congr_left fun c _ => ?_
  exact (foldl_sub_weights s.kind.levels 0).trans
    ((congrArg _ (hweight c)).trans (foldl_sub_weights s.kind.levels 0).symm)

end Shifts

/-! ### The order of targets -/

section Order

variable {α : Type} {e : Entries Rat α} {s : Space} {kind : RabiKind} {low high : Nat}
  {targets others : Targets Rat}

/-- Targets that compare as equal are the same in another order. -/
theorem Targets.perm_of_same (hnodup : (targets.map Prod.fst).Nodup)
    (h : same targets others) : targets.Perm others := by
  simp only [same, Bool.and_eq_true, beq_iff_eq, all_eq_true, Option.any_eq_true] at h
  obtain ⟨hlength, hall⟩ := h
  have hsub : targets ⊆ others := by
    intro t ht
    obtain ⟨w, hw, hsame⟩ := hall t ht
    obtain rfl : t.2 = w := by simpa using hsame
    exact mem_of_lookup hw
  exact (subperm_of_subset hnodup.of_map hsub).perm_of_length_le (by omega)

/-- Operators that are the same matrix. -/
def Coupler.Agrees : Coupler α → Coupler α → Prop
  | ones m, ones m' => m = m'
  | rows m, rows m' => m.height = m'.height ∧ m.width = m'.width ∧ m.entries.Perm m'.entries
  | _, _ => False

theorem Coupler.Agrees.refl (c : Coupler α) : c.Agrees c := by
  cases c with
  | ones m => rfl
  | rows m => exact ⟨rfl, rfl, .refl _⟩

theorem Coupler.Agrees.symm {c c' : Coupler α} (h : c.Agrees c') : c'.Agrees c := by
  cases c <;> cases c'
  · exact Eq.symm h
  · exact h.elim
  · exact h.elim
  · exact ⟨h.1.symm, h.2.1.symm, h.2.2.symm⟩

theorem Coupler.Agrees.trans {c c' c'' : Coupler α} (h : c.Agrees c') (h' : c'.Agrees c'') :
    c.Agrees c'' := by
  cases c <;> cases c' <;> cases c'' <;> first
    | exact h.elim
    | exact h'.elim
    | exact Eq.trans h h'
    | exact ⟨h.1.trans h'.1, h.2.1.trans h'.2.1, h.2.2.trans h'.2.2⟩

theorem Coupler.Agrees.connects {c c' : Coupler α} (h : c.Agrees c') {i j : Nat} :
    c.Connects i j ↔ c'.Connects i j := by
  cases c <;> cases c'
  · rw [show _ = _ from h]
  · exact h.elim
  · exact h.elim
  · exact exists_congr fun x => h.2.2.mem_iff

variable [Zero α]

theorem weightedMoves_perm (n : Nat) (moves : Nat → Moves) (h : targets.Perm others) :
    (weightedMoves e n moves targets).entries.Perm (weightedMoves e n moves others).entries := by
  refine (weightedMoves_entries_perm e n moves targets).trans ?_
  exact ((h.flatMap_right _).filter _).trans (weightedMoves_entries_perm e n moves others).symm

/-- The order of the targets does not matter for an operator. -/
theorem coupler_agrees (h : targets.Perm others) :
    (coupler e s kind low high targets).Agrees (coupler e s kind low high others) := by
  rcases coupler_cases e s kind low high targets with ⟨a, w, rfl, -⟩ | hrows
  · rw [singleton_perm.mp h]
    exact .refl _
  · rcases coupler_cases e s kind low high others with ⟨a, w, rfl, -⟩ | hrows'
    · rw [perm_singleton.mp h]
      exact .refl _
    · rw [hrows, hrows']
      exact ⟨rfl, rfl, weightedMoves_perm _ _ h⟩

end Order

end AtomArray
