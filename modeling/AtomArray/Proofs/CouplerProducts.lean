import AtomArray.Proofs.LevelExchange
import AtomArray.Proofs.SparseProducts

/-!
The operators of a Hamiltonian and their products with vectors.

A product is given by which entries an operator has. So a drive without a phase does what a drive
with a phase of zero does (`Space.Ordered.exchange_is_transition_both_ways`), and the operator of
several targets is the sum of theirs (`Space.Ordered.coupler_sums_weighted_moves`).
-/

namespace AtomArray

open List Outcome IndexMap RowMatrix Selection Moves Coupler

/-! ### The operator of a drive -/

variable {m : Moves}

theorem Moves.Fits.weighted_lt {α : Type} {n : Nat} (h : m.Fits n) {w : α}
    {x : Entry α} (hx : x ∈ m.weighted n w) : x.1 < n ∧ x.2.1 < n := by
  obtain ⟨p, hp, rfl⟩ := mem_map.mp hx
  obtain ⟨hrow, hcolumn⟩ := of_mem_zip hp
  exact ⟨h.row_lt _ hrow, h.column_lt _ hcolumn⟩

section Drives

variable {N α : Type} {n : Nat} (e : Entries N α) {moves : Nat → Moves} {targets : Targets N}
  (hfits : ∀ t ∈ targets, (moves t.1).Fits n)
include hfits

theorem targets_weighted_lt {x : Entry α}
    (hx : x ∈ targets.flatMap fun t => (moves t.1).weighted n (e.weight t.2)) :
    x.1 < n ∧ x.2.1 < n := by
  obtain ⟨t, ht, hx⟩ := mem_flatMap.mp hx
  exact (hfits t ht).weighted_lt hx

variable [Zero α]

theorem valid_weightedMoves : (weightedMoves e n moves targets).Valid :=
  valid_ofEntries fun _ hx => (targets_weighted_lt e hfits hx).2

theorem weightedMoves_perm_targets : (weightedMoves e n moves targets).entries.Perm
      (targets.flatMap fun t => (moves t.1).weighted n (e.weight t.2)) := by
  refine (weightedMoves_entries_perm e n moves targets).trans (.of_eq (filter_eq_self.mpr ?_))
  intro x hx
  exact decide_eq_true (targets_weighted_lt e hfits hx).1

end Drives

section BothWays

variable {N α : Type} [Semiring α] {n : Nat}

/-- What is added to vectors of a length are these entries, and by the transpose the flipped ones. -/
structure Coupler.Adds (c : Coupler α) (n : Nat) (es : List (Entry α)) : Prop where
  product : ∀ {x out : Array α} (scale : α), x.size = n → out.size = n →
    c.addProduct scale x out = .ok (addEntries scale x out es)
  transposed : ∀ {x out : Array α} (scale : α), x.size = n → out.size = n →
    c.addTransposed scale x out = .ok (addEntries scale x out (es.map flipEntry))

theorem Coupler.adds_ones (hfits : m.Fits n) :
    (ones ⟨n, m.rows.places, .list (m.columns.map Int.ofNat)⟩).Adds n
      (m.weighted n (1 : α)) := by
  have hcolumns : (Places.list (m.columns.map Int.ofNat)).each n = .ok (placesOf m.columns) :=
    each_places (.list m.columns) n
  refine ⟨fun scale hx hout => ?_, fun {x out} scale hx hout => ?_⟩
  · exact addProduct_eq (each_places m.rows n) hcolumns hfits.paired
      hfits.row_lt hfits.column_lt hx hout scale
  · have hproduct := addProduct_eq hcolumns (each_places m.rows n)
      hfits.paired.symm hfits.column_lt hfits.row_lt hx hout scale
    have hflip : ((m.columns.zip (m.rows.entries n)).map fun p => (p.1, p.2, (1 : α))) =
        (m.weighted n 1).map flipEntry := by
      rw [weighted, ← zip_swap, map_map, map_map]
      rfl
    rw [← hflip]
    exact hproduct

theorem Coupler.adds_rows (e : Entries N α) (moves : Nat → Moves) {targets : Targets N}
    (hfits : ∀ t ∈ targets, (moves t.1).Fits n) (hn : n ≠ 0) :
    (Coupler.rows (weightedMoves e n moves targets)).Adds n
      (targets.flatMap fun t => (moves t.1).weighted n (e.weight t.2)) := by
  have hvalid := valid_weightedMoves e hfits
  have hperm := weightedMoves_perm_targets e hfits
  refine ⟨fun {x out} scale hx hout => ?_, fun {x out} scale hx hout => ?_⟩
  · rw [← addEntries_perm scale x out hperm]
    exact hvalid.addProduct_eq scale hx hout hn
  · rw [← addEntries_perm scale x out (hperm.map flipEntry)]
    exact hvalid.addProduct_transpose_eq scale hx hout

/-- Entries that are those of a matrix and of its transpose act as one after the other. -/
theorem Coupler.Adds.both_ways {c d : Coupler α} {es es' : List (Entry α)} (hc : c.Adds n es)
    (hd : d.Adds n es') (h : es.Perm (es' ++ es'.map flipEntry)) {x out : Array α}
    (hx : x.size = n) (hout : out.size = n) (scale : α) :
    c.addProduct scale x out = (do
      let out ← d.addProduct scale x out
      d.addTransposed scale x out) := by
  have hsize := (size_addEntries scale x out es').trans hout
  rw [hc.product scale hx hout, hd.product scale hx hout, ok_bind, hd.transposed scale hx hsize,
    addEntries_perm scale x out h, addEntries, foldl_append]
  rfl

end BothWays

namespace Space

variable {N α : Type} {s : Space} {i a b : Nat}

section Moved

variable (hs : s.Ordered) (ha : a < s.kind.levels) (hb : b < s.kind.levels) (hab : a ≠ b)
include hs ha hb hab

theorem Ordered.weighted_swapAt_perm (hi : i < s.atoms) (w : α) :
    ((s.swapAt i a b).weighted s.size w).Perm ((s.transitionAt i a b).weighted s.size w ++
        ((s.transitionAt i a b).weighted s.size w).map flipEntry) := by
  have hperm := (hs.swapAt_perm hi ha hb hab).map fun p => (p.1, p.2, w)
  rw [map_append, map_map] at hperm
  rw [weighted, weighted, map_map]
  exact hperm

variable (e : Entries N α)

theorem Ordered.targets_swapAt_perm {targets : Targets N}
    (htargets : ∀ t ∈ targets, t.1 < s.atoms) :
    (targets.flatMap fun t => (s.swapAt t.1 a b).weighted s.size (e.weight t.2)).Perm
      ((targets.flatMap fun t => (s.transitionAt t.1 a b).weighted s.size (e.weight t.2)) ++
        (targets.flatMap fun t =>
          (s.transitionAt t.1 a b).weighted s.size (e.weight t.2)).map flipEntry) := by
  rw [map_flatMap]
  refine .trans ?_ (flatMap_append_perm _ _ _).symm
  exact Perm.flatMap_left _ fun t ht =>
    hs.weighted_swapAt_perm ha hb hab (htargets t ht) (e.weight t.2)

/-- Any targets: both operators are sums of moves. -/
theorem Ordered.drive_swapAt_several [Semiring α] {targets : Targets N}
    (htargets : ∀ t ∈ targets, t.1 < s.atoms) {x out : Array α} (hx : x.size = s.size)
    (hout : out.size = s.size) (scale : α) :
    (Coupler.rows (weightedMoves e s.size (s.movesOf .symmetric b a) targets)).addProduct
        scale x out = (do
      let out ← (Coupler.rows (weightedMoves e s.size
        (s.movesOf .asymmetric b a) targets)).addProduct scale x out
      (Coupler.rows (weightedMoves e s.size
        (s.movesOf .asymmetric b a) targets)).addTransposed scale x out) := by
  by_cases hn : s.size = 0
  · have hempty : out.isEmpty := by
      rw [Array.isEmpty_iff_size_eq_zero, hout, hn]
    simp [Coupler.addProduct, RowMatrix.addProduct, hempty]
  · have hswap := adds_rows e (s.movesOf .symmetric b a)
      (fun t ht => hs.fits_swapAt (htargets t ht) ha hb hab) hn
    have htransition := adds_rows e (s.movesOf .asymmetric b a)
      (fun t ht => hs.fits_transitionAt (htargets t ht) ha hb hab) hn
    exact hswap.both_ways htransition (hs.targets_swapAt_perm ha hb hab e htargets) hx hout scale

/-- A drive that exchanges two levels does the same as one that takes atoms from one level to the
other together with its conjugate transpose, when the strength is its own conjugate. -/
theorem Ordered.drive_swapAt [Semiring α] {targets : Targets N}
    (htargets : ∀ t ∈ targets, t.1 < s.atoms) {conj : α → α} {scale : α}
    (hconj : conj scale = scale) {x out : Array α} (hx : x.size = s.size)
    (hout : out.size = s.size) :
    (coupler e s .symmetric b a targets).drive conj false scale x out =
      (coupler e s .asymmetric b a targets).drive conj true scale x out := by
  have hplain : (coupler e s .symmetric b a targets).drive conj false scale x out =
      (coupler e s .symmetric b a targets).addProduct scale x out := bind_pure _
  rw [hplain, drive, hconj]
  rcases coupler_cases e s .symmetric b a targets with ⟨i, w, rfl, -⟩ | hsymmetric
  · have hi := htargets _ (mem_singleton_self _)
    exact (adds_ones (hs.fits_swapAt hi ha hb hab)).both_ways
      (adds_ones (hs.fits_transitionAt hi ha hb hab))
      (hs.weighted_swapAt_perm ha hb hab hi 1) hx hout scale
  · rcases coupler_cases e s .asymmetric b a targets with ⟨i, w, rfl, -⟩ | hasymmetric
    · cases hsymmetric
    · rw [hsymmetric, hasymmetric]
      exact hs.drive_swapAt_several ha hb hab e htargets hx hout scale

end Moved

/-- **The exchange of two levels is the transition and its transpose.** As matrices of zeros and
ones the one is the sum of the others, so it is symmetric; all rows and columns are in range and no
pair of them comes twice. A drive without a phase therefore acts as one with a phase of zero, whose
strength is its own conjugate. -/
theorem Ordered.exchange_is_transition_both_ways {s : Space} {i a b : Nat} (hs : s.Ordered)
    (hi : i < s.atoms) (ha : a < s.kind.levels) (hb : b < s.kind.levels) (hab : a ≠ b) :
    (s.swapAt i a b).matrix s.size =
        (s.transitionAt i a b).matrix s.size + ((s.transitionAt i a b).matrix s.size).transpose ∧
      ((s.swapAt i a b).matrix s.size).IsSymm ∧
      (s.swapAt i a b).Fits s.size ∧ (s.transitionAt i a b).Fits s.size ∧
      ∀ {N α : Type} [Semiring α] (e : Entries N α) (targets : Targets N),
        (∀ t ∈ targets, t.1 < s.atoms) → ∀ (conj : α → α) (scale : α), conj scale = scale →
        ∀ x out : Array α, x.size = s.size → out.size = s.size →
          (coupler e s .symmetric b a targets).drive conj false scale x out =
            (coupler e s .asymmetric b a targets).drive conj true scale x out := by
  have hmatrix := hs.matrix_swapAt hi ha hb hab
  refine ⟨hmatrix, ?_, hs.fits_swapAt hi ha hb hab, hs.fits_transitionAt hi ha hb hab, ?_⟩
  · rw [hmatrix]
    exact Matrix.isSymm_add_transpose_self _
  · intro N α _ e targets htargets conj scale hconj x out hx hout
    exact hs.drive_swapAt ha hb hab e htargets hconj hx hout

/-- Two atoms of three levels that are not both excited. -/
def blockadedPair : Space := ⟨.threeLevel, 2, false, range 8⟩

theorem blockadedPair_exchange : blockadedPair.swapAt 1 2 1 = ⟨.list [3, 4, 6, 7], [6, 7, 3, 4]⟩ ∧
      blockadedPair.transitionAt 1 2 1 = ⟨.list [6, 7], [3, 4]⟩ ∧
      (blockadedPair.swapAt 1 2 1).matrix 8 = (blockadedPair.transitionAt 1 2 1).matrix 8 +
        ((blockadedPair.transitionAt 1 2 1).matrix 8).transpose := by
  have hordered : blockadedPair.Ordered := ⟨by decide, by simp [blockadedPair]⟩
  refine ⟨by decide, by decide, ?_⟩
  exact (hordered.exchange_is_transition_both_ways (by decide) (by decide) (by decide)
    (by decide)).1

/-! ### The operator of several targets as a matrix -/

theorem fits_movesOf (hs : s.Ordered) (hi : i < s.atoms) (ha : a < s.kind.levels)
    (hb : b < s.kind.levels) (hab : a ≠ b) (kind : RabiKind) :
    (s.movesOf kind b a i).Fits s.size := by
  cases kind with
  | symmetric => exact hs.fits_swapAt hi ha hb hab
  | asymmetric => exact hs.fits_transitionAt hi ha hb hab

theorem entriesMatrix_weighted [Semiring α] {n : Nat} (hm : (m.pairs n).Nodup) (w : α) :
    entriesMatrix n n (m.weighted n w) = w • (m.matrix n).map Nat.cast := by
  ext p q
  have hsum := Finset.sum_ite_eq' (m.pairs n).toFinset ((p : Nat), (q : Nat)) fun _ => w
  rw [List.sum_toFinset _ hm] at hsum
  simp only [Prod.ext_iff, mem_toFinset] at hsum
  simp only [entriesMatrix, Matrix.of_apply, weighted, map_map, Function.comp_def]
  refine hsum.trans ?_
  simp [Moves.matrix]

theorem entriesMatrix_flatMap [Semiring α] {β : Type} (n : Nat) (f : β → List (Entry α))
    (ts : List β) : entriesMatrix n n (ts.flatMap f) =
      (ts.map fun t => entriesMatrix n n (f t)).sum := by
  induction ts with
  | nil =>
    ext p q
    rfl
  | cons t ts ih =>
    rw [flatMap_cons, map_cons, sum_cons, ← ih]
    ext p q
    simp [entriesMatrix]

/-- **The operator of several targets** is a valid matrix by rows: the sum, over the targets, of
their weights times the matrices of their moves. -/
theorem Ordered.coupler_sums_weighted_moves {N α : Type} [Semiring α] {s : Space} {a b : Nat}
    (hs : s.Ordered) (ha : a < s.kind.levels) (hb : b < s.kind.levels) (hab : a ≠ b)
    (kind : RabiKind) (e : Entries N α) {targets : Targets N} (hseveral : 2 ≤ targets.length)
    (htargets : ∀ t ∈ targets, t.1 < s.atoms) :
    ∃ m : RowMatrix α, coupler e s kind b a targets = .rows m ∧ m.Valid ∧
      m.height = s.size ∧ m.width = s.size ∧
      (∀ t ∈ targets, (s.movesOf kind b a t.1).Fits s.size) ∧
      entriesMatrix s.size s.size m.entries = (targets.map fun t =>
        e.weight t.2 • ((s.movesOf kind b a t.1).matrix s.size).map Nat.cast).sum := by
  have hfits : ∀ t ∈ targets, (s.movesOf kind b a t.1).Fits s.size :=
    fun t ht => fits_movesOf hs (htargets t ht) ha hb hab kind
  rcases coupler_cases e s kind b a targets with ⟨i, w, rfl, -⟩ | hrows
  · simp at hseveral
  · refine ⟨_, hrows, valid_weightedMoves e hfits, rfl, rfl, hfits, ?_⟩
    rw [entriesMatrix_perm (weightedMoves_perm_targets e hfits), entriesMatrix_flatMap]
    congr 1
    exact map_congr_left fun t ht => entriesMatrix_weighted (hfits t ht).nodup _

/-- Both atoms are driven, one three times as much as the other. -/
theorem blockadedPair_coupler :
    ∃ m, coupler ⟨id, fun _ _ => none⟩ blockadedPair .asymmetric 2 1 [(0, 1), (1, 3)] = .rows m ∧
      m.Valid ∧ entriesMatrix 8 8 m.entries = (blockadedPair.transitionAt 0 1 2).matrix 8 +
        3 • (blockadedPair.transitionAt 1 1 2).matrix 8 := by
  have hordered : blockadedPair.Ordered := ⟨by decide, by simp [blockadedPair]⟩
  have htargets : ∀ t ∈ ([(0, 1), (1, 3)] : Targets Nat), t.1 < blockadedPair.atoms := by decide
  obtain ⟨m, hm, hvalid, -, -, -, hsum⟩ := hordered.coupler_sums_weighted_moves (a := 1) (b := 2)
    (by decide) (by decide) (by decide) .asymmetric ⟨id, fun _ _ => none⟩ (by decide) htargets
  refine ⟨m, hm, hvalid, hsum.trans ?_⟩
  rw [map_cons, map_cons, map_nil, sum_cons, sum_cons, sum_nil, add_zero]
  exact congrArg₂ _ (one_smul _ _) rfl

end Space

end AtomArray
