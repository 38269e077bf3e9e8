import AtomArray.Emulator.Evolve
import AtomArray.Proofs.SparseMatrices
import Mathlib.LinearAlgebra.Matrix.Hermitian

/-!
Products of sparse matrices with vectors.

Every product adds entries, one after the other: an entry `w` in row `r` and column `c` adds a
multiple of `w * x[c]` to `out[r]` (`addEntries`). Sums do not depend on the order, so a product is
given by which entries a matrix has.
-/

namespace AtomArray

open List Outcome IndexMap RowMatrix

/-! ### Adding entries -/

variable {i : Nat}

section Adding

variable {α : Type} (out : Array α)

def addTo [Add α] (i : Nat) (a : α) : Array α := out.modify i (· + a)

theorem size_addTo [Add α] (i : Nat) (a : α) : (addTo out i a).size = out.size :=
  Array.size_modify

theorem addTo_zero [AddMonoid α] (i : Nat) : addTo out i 0 = out := by
  ext j hj hj'
  · rw [size_addTo]
  · simp [addTo, Array.getElem_modify]

theorem addTo_addTo [AddSemigroup α] (i : Nat) (a b : α) :
    addTo (addTo out i a) i b = addTo out i (a + b) := by
  ext j hj hj'
  · simp only [size_addTo]
  · simp only [addTo, Array.getElem_modify]
    split <;> simp [add_assoc]

theorem addTo_comm [AddCommSemigroup α] (i j : Nat) (a b : α) :
    addTo (addTo out i a) j b = addTo (addTo out j b) i a := by
  ext k hk hk'
  · simp only [size_addTo]
  · simp only [addTo, Array.getElem_modify]
    split <;> split <;> simp [add_right_comm]

theorem addAt_eq [Add α] {out : Array α} (hi : i < out.size) (a : α) :
    addAt out i a = .ok (addTo out i a) := by
  rw [addAt, if_pos hi]
  rfl

theorem entryAt_eq [Zero α] {x : Array α} (hi : i < x.size) : entryAt x i = .ok (x.getD i 0) := by
  simp [entryAt, hi]

def flipEntry (e : Entry α) : Entry α := (e.2.1, e.1, e.2.2)

variable [Semiring α] (scale : α)

/-- Adds what one entry of a matrix, with its row and column, makes of a vector. -/
def addEntry (x out : Array α) (e : Entry α) : Array α :=
  addTo out e.1 (scale * (e.2.2 * x.getD e.2.1 0))

/-- Adds what the entries of a matrix make of a vector. -/
def addEntries (x out : Array α) (es : List (Entry α)) : Array α :=
  es.foldl (addEntry scale x) out

theorem size_addEntry (x out : Array α) (e : Entry α) :
    (addEntry scale x out e).size = out.size :=
  size_addTo _ _ _

theorem size_addEntries (x out : Array α) (es : List (Entry α)) :
    (addEntries scale x out es).size = out.size := by
  induction es generalizing out with
  | nil => rfl
  | cons e es ih => exact (ih _).trans (size_addEntry scale x out e)

theorem addEntries_perm (x out : Array α) {es es' : List (Entry α)}
    (h : es.Perm es') : addEntries scale x out es = addEntries scale x out es' :=
  h.foldl_eq' (fun _ _ _ _ _ => addTo_comm _ _ _ _ _) out

theorem addEntries_row (x out : Array α) (r : Nat) (row : List (Nat × α)) (acc : α) :
    addEntries scale x (addTo out r (scale * acc)) (row.map fun e => (r, e.1, e.2)) =
      addTo out r (scale * row.foldl (fun acc e => acc + e.2 * x.getD e.1 0) acc) := by
  induction row generalizing acc with
  | nil => rfl
  | cons e row ih =>
    have hfirst : addEntry scale x (addTo out r (scale * acc)) (r, e.1, e.2) =
        addTo out r (scale * (acc + e.2 * x.getD e.1 0)) := by
      rw [addEntry, addTo_addTo, mul_add]
    rw [map_cons, addEntries, foldl_cons, hfirst]
    exact ih _

end Adding

/-! ### Places of ones -/

section Places

variable {α : Type} [Semiring α] {n : Nat}

theorem wrapped?_natCast (h : i < n) : wrapped? n (i : Int) = .ok i := by
  have hnonneg : ¬(i : Int) < 0 := by omega
  have hrange : 0 ≤ (i : Int) ∧ (i : Int) < n := by omega
  simp [wrapped?, hnonneg, hrange]

theorem addOne_eq {x out : Array α} (scale : α) {r c : Nat} (hr : r < out.size) (hc : c < x.size) :
    addOne scale x out (.one r) (.one c) = .ok (addEntry scale x out (r, c, 1)) := by
  have hpick : pick x (.one c) = .ok (.inl (x.getD c 0)) := by
    rw [pick, wrapped?_natCast hc, ok_bind, entryAt_eq hc]
    rfl
  rw [addOne, wrapped?_natCast hr, hpick, addEntry, one_mul]
  exact addAt_eq hr _

theorem foldlM_range {β γ : Type} {f : γ → Nat → Outcome γ} {g : γ → β → Outcome γ} {l : List β}
    (h : ∀ acc j b, l[j]? = some b → f acc j = g acc b) (acc : γ) :
    (range l.length).foldlM f acc = l.foldlM g acc := by
  induction l using reverseRecOn generalizing acc with
  | nil => rfl
  | append_singleton l b ih =>
    have hbefore : ∀ acc j b', l[j]? = some b' → f acc j = g acc b' := by
      intro acc j b' hj
      refine h acc j b' ?_
      rw [getElem?_append_left (List.getElem?_eq_some_iff.mp hj).1, hj]
    have hlast : ∀ acc, f acc l.length = g acc b := fun acc => h acc l.length b (by simp)
    rw [length_append, length_singleton, range_succ, foldlM_append, foldlM_append, ih hbefore]
    simp [hlast]

def placesOf (is : List Nat) : List Place := is.map fun i : Nat => .one (i : Int)

theorem getElem?_placesOf {is : List Nat} {k : Nat} (h : is[k]? = some i) :
    (placesOf is)[k]? = some (.one (i : Int)) := by
  rw [placesOf, getElem?_map, h]
  rfl

theorem IndexMap.addProduct_eq {rows columns : Places} {rs cs : List Nat} {x out : Array α}
    (hrows : rows.each n = .ok (placesOf rs)) (hcolumns : columns.each n = .ok (placesOf cs))
    (hpaired : rs.length = cs.length) (hr : ∀ r ∈ rs, r < n) (hc : ∀ c ∈ cs, c < n)
    (hx : x.size = n) (hout : out.size = n) (scale : α) :
    (mk n rows columns).addProduct scale x out =
      .ok (addEntries scale x out ((rs.zip cs).map fun p => (p.1, p.2, 1))) := by
  have hcount : (mk n rows columns).count (placesOf rs) (placesOf cs) =
      (rs.zip cs).length := by
    simp [count, placesOf, hpaired]
  have hstep : ∀ out : Array α, out.size = n → ∀ p ∈ rs.zip cs,
      addOne scale x out (.one p.1) (.one p.2) = .ok (addEntry scale x out (p.1, p.2, 1)) ∧
        (addEntry scale x out (p.1, p.2, 1)).size = n := by
    intro out hsize p hp
    obtain ⟨hp1, hp2⟩ := of_mem_zip hp
    exact ⟨addOne_eq scale (hsize ▸ hr _ hp1) (hx ▸ hc _ hp2), by rw [size_addEntry, hsize]⟩
  rw [addProduct, hx, hout, hrows, hcolumns, ok_bind, ok_bind, hcount,
    addEntries, foldl_map, ← (foldlM_eq_ok hstep hout).1]
  refine foldlM_range ?_ out
  intro acc k p hk
  obtain ⟨hrow, hcolumn⟩ := getElem?_zip_eq_some.mp hk
  simp only [getElem?_placesOf hrow, getElem?_placesOf hcolumn]

theorem Selection.each_places (sel : Selection) (n : Nat) :
    sel.places.each n = .ok (placesOf (sel.entries n)) := by
  cases sel with
  | all =>
    simp only [places, Places.each, Slice.places, Slice.all, Slice.progression]
    simp [entries, placesOf, Function.comp_def]
  | list is => simp [places, Places.each, entries, placesOf, Function.comp_def]

end Places

/-! ### Rows and columns -/

section Rows

variable {α : Type} {m : RowMatrix α} {i j : Nat} {e : Entry α}

namespace RowMatrix.Valid

variable (hm : m.Valid)
include hm

theorem start_le (hi : i ≤ m.height) : m.starts.getD i 0 ≤ m.data.size := by
  induction hi using Nat.decreasingInduction with
  | self => exact hm.last.le
  | of_succ i hi ih => exact (hm.ordered i hi).trans ih

theorem place_lt (hi : i < m.height) (hj : j ∈ span m.starts i) : j < m.data.size := by
  obtain ⟨k, hk, rfl⟩ := mem_map.mp hj
  have hnext : m.starts.getD (i + 1) 0 ≤ m.data.size := hm.start_le hi
  have := mem_range.mp hk
  omega

theorem column_getD_lt (hj : j < m.data.size) : m.columns.getD j 0 < m.width := by
  have hj : j < m.columns.size := hm.paired ▸ hj
  rw [Array.getD_eq_getD_getElem?, Array.getElem?_eq_getElem hj]
  exact hm.column_lt _ (Array.getElem_mem hj)

end RowMatrix.Valid

variable [Semiring α]

/-- The entries of a row, with their columns. -/
def RowMatrix.row (m : RowMatrix α) (i : Nat) : List (Nat × α) :=
  (span m.starts i).map fun j => (m.columns.getD j 0, m.data.getD j 0)

namespace RowMatrix.Valid

variable (hm : m.Valid)
include hm

theorem entries_eq :
    m.entries = (range m.height).flatMap fun i => (m.row i).map fun e => (i, e) := by
  refine flatMap_congr fun i hi => ?_
  rw [row, map_map, ← filterMap_eq_map]
  refine filterMap_congr fun j hj => ?_
  have hdata : j < m.data.size := hm.place_lt (mem_range.mp hi) hj
  have hcolumn : j < m.columns.size := hm.paired ▸ hdata
  simp [hdata, hcolumn]

theorem addProduct_eq {x out : Array α} (scale : α) (hx : x.size = m.width)
    (hout : out.size = m.height) (hne : m.height ≠ 0) :
    m.addProduct scale x out = .ok (addEntries scale x out m.entries) := by
  have hempty : out.isEmpty = false := by simp [← Array.size_eq_zero_iff, hout, hne]
  rw [addProduct, hempty, hm.entries_eq, addEntries, foldl_flatMap]
  refine (foldlM_eq_ok (P := fun out => out.size = m.height) ?_ hout).1
  intro out hsize i hi
  have hi : i < m.height := mem_range.mp hi
  have htimes : m.rowTimes x i =
      .ok ((m.row i).foldl (fun acc e => acc + e.2 * x.getD e.1 0) 0) := by
    rw [rowTimes, row, foldl_map]
    refine (foldlM_eq_ok (P := fun _ => True) ?_ trivial).1
    intro acc _ j hj
    have hj := hm.place_lt hi hj
    rw [entryAt_eq hj, entryAt_eq (hm.paired ▸ hj), ok_bind, ok_bind,
      entryAt_eq (hx ▸ hm.column_getD_lt hj)]
    exact ⟨rfl, trivial⟩
  refine ⟨?_, (size_addEntries scale x out _).trans hsize⟩
  rw [htimes, ok_bind, addAt_eq (hsize ▸ hi), ← addEntries_row, mul_zero, addTo_zero]
  rfl

theorem addProduct_transpose_eq {x out : Array α} (scale : α) (hx : x.size = m.height)
    (hout : out.size = m.width) :
    m.transpose.addProduct scale x out =
      .ok (addEntries scale x out (m.entries.map flipEntry)) := by
  rw [hm.entries_eq, map_flatMap, addEntries, foldl_flatMap]
  refine (foldlM_eq_ok (P := fun out : Array α => out.size = m.width) ?_ hout).1
  intro out hsize i hi
  have hi : i < m.height := mem_range.mp hi
  rw [row, map_map, map_map, foldl_map]
  refine foldlM_eq_ok (P := fun out : Array α => out.size = m.width) ?_ hsize
  intro out hsize j hj
  have hj := hm.place_lt hi hj
  refine ⟨?_, (size_addEntry scale x out _).trans hsize⟩
  rw [transpose, entryAt_eq hj, entryAt_eq (hm.paired ▸ hj), ok_bind, ok_bind,
    entryAt_eq (hx ▸ hi), ok_bind, addAt_eq (hsize ▸ hm.column_getD_lt hj), mul_assoc]
  rfl

end RowMatrix.Valid

end Rows

/-! ### As matrices -/

section Matrices

variable {α : Type} [Semiring α] {height width n : Nat} {es es' : List (Entry α)}

/-- The matrix with these entries; entries at one place add up. -/
def entriesMatrix (height width : Nat) (es : List (Entry α)) :
    Matrix (Fin height) (Fin width) α :=
  .of fun i j => (es.map fun e => if e.1 = i.val ∧ e.2.1 = j.val then e.2.2 else 0).sum

theorem entriesMatrix_perm (h : es.Perm es') :
    entriesMatrix height width es = entriesMatrix height width es' := by
  ext i j
  exact (h.map _).sum_eq

theorem entriesMatrix_flip :
    entriesMatrix width height (es.map flipEntry) = (entriesMatrix height width es).transpose := by
  ext i j
  simp only [entriesMatrix, Matrix.of_apply, Matrix.transpose_apply, map_map, flipEntry,
    Function.comp_def, and_comm]

def coordinates (n : Nat) (x : Array α) : Fin n → α := fun i => x.getD i 0

def RowMatrix.matrix (m : RowMatrix α) : Matrix (Fin m.height) (Fin m.width) α :=
  entriesMatrix m.height m.width m.entries

def ColumnMatrix.matrix (m : ColumnMatrix α) : Matrix (Fin m.height) (Fin m.width) α :=
  entriesMatrix m.height m.width m.entries

/-- The ends of a slice are in the range of a vector; one that runs backwards has both of them. -/
def Slice.InRange (s : Slice) (n : Nat) : Prop :=
  if 0 < s.step.getD 1 then (∀ i ∈ s.start, 0 ≤ i ∧ i ≤ n) ∧ ∀ i ∈ s.stop, 0 ≤ i ∧ i ≤ n
  else s.step.getD 1 < 0 ∧ (∃ i, s.start = some i ∧ 0 ≤ i ∧ i < n) ∧
    ∃ i, s.stop = some i ∧ 0 ≤ i ∧ i < n

def Places.InRange (n : Nat) : Places → Prop
  | slice s => s.InRange n
  | list _ => True
  | mask _ => False

def onesMatrix (n : Nat) (pairs : List (Nat × Nat)) : Matrix (Fin n) (Fin n) α :=
  entriesMatrix n n (pairs.map fun p => (p.1, p.2, 1))

variable {pairs : List (Nat × Nat)} {m : IndexMap}

theorem IndexMap.entries_eq_ok :
    m.entries = .ok pairs ↔ ∃ rows columns, m.rows.positions m.size = .ok rows ∧
      m.columns.positions m.size = .ok columns ∧ rows.length = columns.length ∧
      (∀ i ∈ rows, 0 ≤ i ∧ i < m.size) ∧ (∀ i ∈ columns, 0 ≤ i ∧ i < m.size) ∧
      (rows.zip columns).map (Prod.map Int.toNat Int.toNat) = pairs := by
  rw [entries, bind₂_eq_ok]
  refine exists_congr fun rows => exists_congr fun columns => ?_
  refine and_congr_right fun _ => and_congr_right fun _ => ?_
  simp only [refuse_eq_ok, not_not]
  refine and_congr_right fun _ => ?_
  split
  · rename_i hall
    simp only [Bool.and_eq_true, all_eq_true, decide_eq_true_eq] at hall
    rw [and_iff_right hall.1, and_iff_right hall.2]
    exact return_eq_ok
  · rename_i hall
    simp only [Bool.and_eq_true, all_eq_true, decide_eq_true_eq] at hall
    simp only [reduceCtorEq, false_iff]
    exact fun h => hall ⟨h.1, h.2.1⟩

theorem IndexMap.entries_transpose
    (h : m.entries = .ok pairs) : m.transpose.entries = .ok (pairs.map Prod.swap) := by
  obtain ⟨rows, columns, hr, hc, hlength, hrows, hcolumns, rfl⟩ := entries_eq_ok.mp h
  refine entries_eq_ok.mpr ⟨columns, rows, hc, hr, hlength.symm, hcolumns, hrows, ?_⟩
  rw [← zip_swap, map_map, map_map]
  rfl

theorem onesMatrix_swap (pairs : List (Nat × Nat)) :
    onesMatrix (α := α) n (pairs.map Prod.swap) = (onesMatrix n pairs).transpose := by
  rw [onesMatrix, onesMatrix, ← entriesMatrix_flip, map_map, map_map]
  rfl

theorem ColumnMatrix.matrix_eq (m : ColumnMatrix α) : m.matrix = m.transpose.matrix.transpose :=
  entriesMatrix_flip

end Matrices

/-! ### The three forms -/

/-- A matrix in one of the forms in which it can be held. -/
inductive SparseOperator (α : Type) where
  | rows (m : RowMatrix α)
  | columns (m : ColumnMatrix α)
  | ones (m : IndexMap)

namespace SparseOperator

variable {α : Type}

def transpose : SparseOperator α → SparseOperator α
  | rows m => columns m.transpose
  | columns m => rows m.transpose
  | ones m => ones m.transpose

variable [CommRing α]

def addProduct : SparseOperator α → α → Array α → Array α → Outcome (Array α)
  | rows m => m.addProduct
  | columns m => m.addProduct
  | ones m => m.addProduct

/-- The operator is well formed and holds a matrix. -/
inductive Holds : SparseOperator α → {height width : Nat} → Matrix (Fin height) (Fin width) α → Prop
  | rows {m : RowMatrix α} : m.Valid → Holds (.rows m) m.matrix
  | columns {m : ColumnMatrix α} : m.transpose.Valid → Holds (.columns m) m.matrix
  | ones {m : IndexMap} {pairs : List (Nat × Nat)} : m.rows.InRange m.size →
      m.columns.InRange m.size → m.entries = .ok pairs → Holds (.ones m) (onesMatrix m.size pairs)

variable {A : SparseOperator α} {height width : Nat} {M : Matrix (Fin height) (Fin width) α}

theorem Holds.transpose (h : A.Holds M) : A.transpose.Holds M.transpose := by
  cases h with
  | @rows m hm => exact m.transpose.matrix_eq ▸ .columns hm
  | @columns m hm =>
    have heq : m.matrix.transpose = m.transpose.matrix := congrArg Matrix.transpose m.matrix_eq
    exact heq ▸ .rows hm
  | ones hr hc he =>
    rw [← onesMatrix_swap]
    exact .ones hc hr (entries_transpose he)

section Phase

variable [StarRing α]

end Phase

end SparseOperator

end AtomArray
