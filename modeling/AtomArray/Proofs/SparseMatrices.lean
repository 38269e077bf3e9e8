import AtomArray.Emulator.Sparse
import AtomArray.Proofs.Lookup
import AtomArray.Proofs.Outcome
import Mathlib.Algebra.BigOperators.Group.List.Basic
import Mathlib.Algebra.Order.Ring.Nat
import Mathlib.Data.List.Induction

/-!
Sparse matrices, the entries they hold and their products with vectors.
-/

namespace AtomArray

open List RowMatrix

/-! ### Matrices given row by row -/

section Rows

variable {α β : Type} (ns : List Nat)

theorem marks_eq : marks ns = (range (ns.length + 1)).map fun i => (ns.take i).sum := by
  induction ns using reverseRecOn with
  | nil => rfl
  | append_singleton ns n ih =>
    have hstep : marks (ns ++ [n]) = marks ns ++ [(marks ns).getLastD 0 + n] := by simp [marks]
    have hlast : (marks ns).getLastD 0 = ns.sum := by simp [ih, range_succ]
    have hbefore : ∀ i ∈ range (ns.length + 1), (ns.take i).sum = ((ns ++ [n]).take i).sum := by
      intro i hi
      have := mem_range.mp hi
      rw [take_append_of_le_length (by omega)]
    rw [hstep, hlast, ih, map_congr_left hbefore, length_append, length_singleton,
      range_succ (n := ns.length + 1), map_append, map_singleton, take_of_length_le (by simp),
      sum_append, sum_singleton]

theorem sum_marks : (marks ns).getLastD 0 = ns.sum := by
  simp [marks_eq, range_succ]

variable {rows : List (List β)}

theorem getD_marks {k : Nat} (hk : k ≤ rows.length) :
    (marks (rows.map length)).toArray.getD k 0 = (rows.take k).flatten.length := by
  have hlt : k < rows.length + 1 := by omega
  simp [marks_eq, hlt, map_take, length_flatten]

theorem filterMap_getElem? (xs : List α) (g : α → β) :
    (range xs.length).filterMap (fun j => xs[j]?.map g) = xs.map g := by
  induction xs with
  | nil => rfl
  | cons x xs ih =>
    simpa [range_succ_eq_map, Function.comp_def] using ih

theorem flatten_split {i : Nat} (hi : i < rows.length) : rows.flatten =
      (rows.take i).flatten ++ (rows[i] ++ (rows.drop (i + 1)).flatten) := by
  rw [← flatten_cons, ← drop_eq_getElem_cons hi, ← flatten_append, take_append_drop]

theorem length_flatten_take_succ {i : Nat} (hi : i < rows.length) :
    (rows.take (i + 1)).flatten.length = (rows.take i).flatten.length + rows[i].length := by
  rw [take_succ_eq_append_getElem hi, flatten_append]
  simp

theorem entries_ofRows (width : Nat) (rows : List (List (Nat × α))) : (ofRows width rows).entries =
      (range rows.length).flatMap fun i => (rows.getD i []).map fun x => (i, x) := by
  rw [RowMatrix.entries]
  refine flatMap_congr fun i hi => ?_
  have hi : i < rows.length := mem_range.mp hi
  have hspan : span (ofRows width rows).starts i =
      (range rows[i].length).map ((rows.take i).flatten.length + ·) := by
    rw [span, ofRows, getD_marks hi.le, getD_marks hi, length_flatten_take_succ hi,
      Nat.add_sub_cancel_left]
  rw [getD_eq_getElem?_getD, getElem?_eq_getElem hi, Option.getD_some, hspan, filterMap_map,
    ← filterMap_getElem?]
  refine filterMap_congr fun j hj => ?_
  have hitem : rows.flatten[(rows.take i).flatten.length + j]? = rows[i][j]? := by
    rw [flatten_split hi, getElem?_append_right (by omega), Nat.add_sub_cancel_left,
      getElem?_append_left (mem_range.mp hj)]
  simp only [ofRows, Function.comp_apply, getElem?_toArray, getElem?_map, hitem]
  cases rows[i][j]? <;> rfl

/-- The rows stand one after another and fill the arrays, and all columns are in range. -/
structure RowMatrix.Valid (m : RowMatrix α) : Prop where
  size : m.starts.size = m.height + 1
  first : m.starts.getD 0 0 = 0
  ordered : ∀ i < m.height, m.starts.getD i 0 ≤ m.starts.getD (i + 1) 0
  last : m.starts.getD m.height 0 = m.data.size
  paired : m.columns.size = m.data.size
  column_lt : ∀ c ∈ m.columns, c < m.width

theorem valid_ofRows {width : Nat} {rows : List (List (Nat × α))}
    (h : ∀ row ∈ rows, ∀ x ∈ row, x.1 < width) : (ofRows width rows).Valid where
  size := by simp [ofRows, marks_eq]
  first := getD_marks (Nat.zero_le _)
  ordered := by
    intro i hi
    have hi : i < rows.length := hi
    simp only [ofRows, getD_marks hi.le, getD_marks hi, length_flatten_take_succ hi]
    omega
  last := by
    refine (getD_marks le_rfl).trans ?_
    rw [take_length, ofRows, size_toArray, length_map]
  paired := by rw [ofRows, size_toArray, size_toArray, length_map, length_map]
  column_lt := by
    intro c hc
    obtain ⟨x, hx, rfl⟩ := mem_map.mp (mem_toArray.mp hc)
    obtain ⟨row, hrow, hx⟩ := mem_flatten.mp hx
    exact h row hrow x hx

end Rows

/-! ### Sorting entries into rows -/

section Sorting

variable {α : Type} (es : List (Entry α))

/-- The entries of one row, in the order in which they come. -/
def rowOf (r : Nat) : List (Nat × α) :=
  (es.filter (·.1 == r)).map Prod.snd

attribute [local simp] rowOf

variable {β : Type}

theorem modify_map_range (n k : Nat) (f : Nat → β) (g : β → β) :
    ((range n).map f).modify k g = (range n).map fun r => if k = r then g (f r) else f r := by
  ext1 r
  rw [getElem?_modify, getElem?_map, getElem?_map]
  rcases lt_or_ge r n with hr | hr
  · rw [getElem?_range hr]
    rfl
  · rw [getElem?_eq_none (by simpa using hr)]
    rfl

theorem counts_eq {n : Nat} :
    (es.foldl (fun counts e => counts.modify e.1 (· + 1)) (Array.replicate n 0)).toList =
      (range n).map fun r => (rowOf es r).length := by
  induction es using reverseRecOn with
  | nil => simp
  | append_singleton es e ih =>
    rw [foldl_append, foldl_cons, foldl_nil, Array.toList_modify, ih, modify_map_range]
    refine map_congr_left fun r _ => ?_
    by_cases hr : e.1 = r <;> simp [hr]

variable (done rest : List (Entry α))

/-- The part of a row in an array, when some entries are written and others are not. -/
def rowPart (f : Nat × α → β) (blank : β) (r : Nat) : List β :=
  (rowOf done r).map f ++ replicate (rowOf rest r).length blank

/-- The place of the first entry of a row. -/
def firstPlace (r : Nat) : Nat :=
  ((range r).map fun q => (rowOf es q).length).sum

theorem length_rowPart (f : Nat × α → β) (blank : β)
    (r : Nat) : ((range r).map (rowPart done rest f blank)).flatten.length =
      firstPlace (done ++ rest) r := by
  rw [length_flatten, map_map, firstPlace]
  congr 1
  exact map_congr_left fun q _ => by simp [rowPart]

/-- Writing the next entry of a row. -/
theorem set_rowPart {done rest : List (Entry α)} {e : Entry α} {n : Nat}
    (f : Nat × α → β) (blank : β) (he : e.1 < n) :
    ((range n).map (rowPart done (e :: rest) f blank)).flatten.set
        (firstPlace (done ++ e :: rest) e.1 + (rowOf done e.1).length) (f e.2) =
      ((range n).map (rowPart (done ++ [e]) rest f blank)).flatten := by
  have hlength : e.1 < ((range n).map (rowPart done (e :: rest) f blank)).length := by simpa
  have htake : (((range n).map (rowPart done (e :: rest) f blank)).take e.1).flatten.length =
      firstPlace (done ++ e :: rest) e.1 := by
    rw [← map_take, take_range, min_eq_left he.le, length_rowPart]
  have hmodify := modify_map_range n e.1 (rowPart done (e :: rest) f blank)
    (·.set (rowOf done e.1).length (f e.2))
  rw [modify_eq_take_cons_drop hlength] at hmodify
  rw [flatten_split hlength, ← htake, set_append_right _ _ (by omega), Nat.add_sub_cancel_left,
    set_append_left _ _ (by simp [rowPart]), ← flatten_cons, ← flatten_append, hmodify]
  congr 1
  refine map_congr_left fun r _ => ?_
  by_cases hr : e.1 = r <;> simp [hr, rowPart, replicate_succ]

section Filling

variable [Zero α] {n : Nat} {done rest : List (Entry α)}

/-- What is filled when some entries are written and others are not. -/
def Filling.between (n : Nat) (done rest : List (Entry α)) : Filling α where
  data := ((range n).map (rowPart done rest Prod.snd 0)).flatten.toArray
  columns := ((range n).map (rowPart done rest Prod.fst 0)).flatten.toArray
  next := ((range n).map fun r => firstPlace (done ++ rest) r + (rowOf done r).length).toArray

theorem Filling.put_between (e : Entry α) :
    (between n done (e :: rest)).put e = between n (done ++ [e]) rest := by
  have hall : done ++ [e] ++ rest = done ++ e :: rest := by simp
  by_cases he : e.1 < n
  · have hnext : (between n done (e :: rest)).next[e.1]? =
        some (firstPlace (done ++ e :: rest) e.1 + (rowOf done e.1).length) := by
      simp [between, he]
    simp only [put, hnext]
    simp only [between, setIfInBounds_toArray, set_rowPart _ _ he, modify_toArray,
      modify_map_range, hall]
    congr 2
    refine map_congr_left fun r _ => ?_
    by_cases hr : e.1 = r <;> simp [hr, add_assoc]
  · have hnext : (between n done (e :: rest)).next[e.1]? = none := by
      simpa [between] using he
    have hrow : ∀ r ∈ range n, e.1 ≠ r := fun r hr => by
      have := mem_range.mp hr
      omega
    simp only [put, hnext]
    simp only [between, hall]
    congr 2
    · exact congrArg _ (map_congr_left fun r hr => by simp [rowPart, hrow r hr])
    · exact congrArg _ (map_congr_left fun r hr => by simp [rowPart, hrow r hr])
    · exact map_congr_left fun r hr => by simp [hrow r hr]

theorem Filling.foldl_put : rest.foldl put (between n done rest) = between n (done ++ rest) [] := by
  induction rest generalizing done with
  | nil =>
    rw [append_nil]
    rfl
  | cons e rest ih => rw [foldl_cons, put_between, ih, append_assoc, singleton_append]

theorem Filling.between_nil_left : between n [] rest =
    ⟨Array.replicate (firstPlace rest n) 0, Array.replicate (firstPlace rest n) 0,
      ((range n).map (firstPlace rest)).toArray⟩ := by
  have hblank : ∀ {β : Type} (f : Nat × α → β) (blank : β),
      ((range n).map (rowPart [] rest f blank)).flatten = replicate (firstPlace rest n) blank := by
    intro β f blank
    refine eq_replicate_iff.mpr ⟨length_rowPart [] rest f blank n, fun b hb => ?_⟩
    obtain ⟨_, hrow, hb⟩ := mem_flatten.mp hb
    obtain ⟨r, -, rfl⟩ := mem_map.mp hrow
    exact eq_of_mem_replicate hb
  rw [between, hblank, hblank]
  simp

theorem Filling.between_nil_right : between n done [] =
    ⟨((range n).map fun r => (rowOf done r).map Prod.snd).flatten.toArray,
      ((range n).map fun r => (rowOf done r).map Prod.fst).flatten.toArray,
      ((range n).map fun r => firstPlace done (r + 1)).toArray⟩ := by
  have hfull : ∀ {β : Type} (f : Nat × α → β) (blank : β),
      rowPart done [] f blank = fun r => (rowOf done r).map f := by
    intro β f blank
    ext1 r
    exact append_nil _
  have hnext : ∀ r, firstPlace done r + (rowOf done r).length = firstPlace done (r + 1) := by
    intro r
    rw [firstPlace, firstPlace, range_succ, map_append, sum_append, map_singleton, sum_singleton]
  simp only [between, hfull, append_nil, hnext]

/-- The sorted entries stand in the order of their rows and else in the order given. -/
theorem ofEntries_eq (height width : Nat) (es : List (Entry α)) :
    ofEntries height width es = ofRows width ((range height).map (rowOf es)) := by
  have hmarks : marks ((range height).map fun r => (rowOf es r).length) =
      (range (height + 1)).map (firstPlace es) := by
    rw [marks_eq, length_map, length_range]
    refine map_congr_left fun r hr => ?_
    have := mem_range.mp hr
    rw [← map_take, take_range, min_eq_left (by omega), firstPlace]
  have hbegin : (marks ((range height).map fun r => (rowOf es r).length)).dropLast =
      (range height).map (firstPlace es) := by
    rw [hmarks, range_succ, map_append, map_singleton, dropLast_concat]
  have hend : 0 :: ((range height).map fun r => firstPlace es (r + 1)) =
      marks ((range height).map fun r => (rowOf es r).length) := by
    rw [hmarks, range_succ_eq_map, map_cons, map_map]
    rfl
  simp only [ofEntries, counts_eq, sum_marks, hbegin]
  rw [← firstPlace, ← Filling.between_nil_left, Filling.foldl_put, Filling.between_nil_right]
  simp only [nil_append, hend, ofRows, map_flatten, map_map, length_map, length_range]
  rfl

theorem entries_ofEntries_perm (height width : Nat) (es : List (Entry α)) :
    (ofEntries height width es).entries.Perm (es.filter (·.1 < height)) := by
  have hkeys : ∀ e ∈ es, decide (e.1 < height) = true ↔ e.1 ∈ range height := by simp
  refine .trans (.of_eq ?_) (perm_flatMap_filter nodup_range hkeys)
  rw [ofEntries_eq, entries_ofRows, length_map, length_range]
  refine flatMap_congr fun r hr => ?_
  have hrow : ((range height).map (rowOf es)).getD r [] = rowOf es r := by
    simp [mem_range.mp hr]
  rw [hrow, rowOf, map_map]
  refine (map_congr_left fun e he => ?_).trans (map_id _)
  obtain ⟨-, hr⟩ := mem_filter.mp he
  simp [← beq_iff_eq.mp hr]

theorem valid_ofEntries {height width : Nat} {es : List (Entry α)}
    (h : ∀ e ∈ es, e.2.1 < width) : (ofEntries height width es).Valid := by
  rw [ofEntries_eq]
  refine valid_ofRows fun row hrow x hx => ?_
  obtain ⟨r, -, rfl⟩ := mem_map.mp hrow
  obtain ⟨e, he, rfl⟩ := mem_map.mp hx
  exact h e (mem_filter.mp he).1

end Filling

end Sorting

end AtomArray
