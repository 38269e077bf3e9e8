import AtomArray.Fault

/-!
Sparse matrices and their products with vectors.

`RowMatrix` and `ColumnMatrix` are transposes of each other; `IndexMap` is a 0/1 matrix given by the
places of its ones. Every product adds a multiple of `A x` to a vector that is handed in, and
refuses a place outside the vectors.
-/

namespace AtomArray

variable {α : Type}

def outside : Fault := .plain .outOfRange

def entryAt (x : Array α) (i : Nat) : Outcome α :=
  match x[i]? with
  | some a => .ok a
  | none => .error outside

def addAt [Add α] (out : Array α) (i : Nat) (a : α) : Outcome (Array α) :=
  if i < out.size then .ok (out.modify i (· + a)) else .error outside

/-- The places from one mark to the next. -/
def span (starts : Array Nat) (i : Nat) : List Nat :=
  let first := starts.getD i 0
  (List.range (starts.getD (i + 1) 0 - first)).map (first + ·)

/-- An entry of a matrix, with its row and column. -/
abbrev Entry (α : Type) := Nat × Nat × α

/-- A matrix held row by row: the entries of row `i` stand from `starts[i]` to `starts[i + 1]`. -/
structure RowMatrix (α : Type) where
  data : Array α
  columns : Array Nat
  starts : Array Nat
  height : Nat
  width : Nat

structure ColumnMatrix (α : Type) where
  data : Array α
  rows : Array Nat
  starts : Array Nat
  height : Nat
  width : Nat

namespace RowMatrix

variable (m : RowMatrix α)

def transpose : ColumnMatrix α :=
  ⟨m.data, m.columns, m.starts, m.width, m.height⟩

def rowTimes [Zero α] [Add α] [Mul α] (x : Array α) (i : Nat) : Outcome α :=
  (span m.starts i).foldlM (fun acc j => do
    return acc + (← entryAt m.data j) * (← entryAt x (← entryAt m.columns j))) 0

/-- Adds `scale` times the product with `x` to `out`, which may not be empty. -/
def addProduct [Zero α] [Add α] [Mul α] (scale : α) (x out : Array α) : Outcome (Array α) :=
  if out.isEmpty then .error outside
  else (List.range m.height).foldlM (fun out i => do
    addAt out i (scale * (← m.rowTimes x i))) out

def entries : List (Entry α) :=
  (List.range m.height).flatMap fun i => (span m.starts i).filterMap fun j => do
    return (i, ← m.columns[j]?, ← m.data[j]?)

end RowMatrix

namespace ColumnMatrix

variable (m : ColumnMatrix α)

def transpose : RowMatrix α :=
  ⟨m.data, m.rows, m.starts, m.width, m.height⟩

def addProduct [Add α] [Mul α] (scale : α) (x out : Array α) : Outcome (Array α) :=
  (List.range m.width).foldlM (fun out i =>
    (span m.starts i).foldlM (fun out j => do
      addAt out (← entryAt m.rows j) (scale * (← entryAt m.data j) * (← entryAt x i))) out) out

def entries (m : ColumnMatrix α) : List (Entry α) :=
  m.transpose.entries.map fun (c, r, a) => (r, c, a)

end ColumnMatrix

/-! ### Matrices of entries -/

/-- The marks between lists of these lengths that stand one after another. -/
def marks (lengths : List Nat) : List Nat :=
  lengths.foldl (fun ms n => ms ++ [ms.getLastD 0 + n]) [0]

def RowMatrix.ofRows (width : Nat) (rows : List (List (Nat × α))) : RowMatrix α :=
  ⟨(rows.flatten.map Prod.snd).toArray, (rows.flatten.map Prod.fst).toArray,
    (marks (rows.map List.length)).toArray, rows.length, width⟩

/-- A matrix that is being filled: `next` has the place of the next entry of each row. -/
structure Filling (α : Type) where
  data : Array α
  columns : Array Nat
  next : Array Nat

def Filling.put (f : Filling α) (e : Entry α) : Filling α :=
  match f.next[e.1]? with
  | some p =>
    ⟨f.data.setIfInBounds p e.2.2, f.columns.setIfInBounds p e.2.1, f.next.modify e.1 (· + 1)⟩
  | none => f

/-- Sorts entries into rows. The number of entries in each row says where the rows start; each entry
goes to the next place of its row, which is in the end where the row after it starts. -/
def RowMatrix.ofEntries [Zero α] (height width : Nat) (es : List (Entry α)) : RowMatrix α :=
  let counts := es.foldl (fun counts e => counts.modify e.1 (· + 1)) (Array.replicate height 0)
  let starts := marks counts.toList
  let size := starts.getLastD 0
  let filled := es.foldl Filling.put
    ⟨Array.replicate size 0, Array.replicate size 0, starts.dropLast.toArray⟩
  ⟨filled.data, filled.columns, (0 :: filled.next.toList).toArray, height, width⟩

def nonzero (isZero : α → Bool) (row : List α) : List (Nat × α) :=
  (row.zipIdx.filter fun (a, _) => !isZero a).map fun (a, i) => (i, a)

def RowMatrix.ofDense (isZero : α → Bool) (width : Nat) (rows : List (List α)) : RowMatrix α :=
  RowMatrix.ofRows width (rows.map (nonzero isZero))

def ColumnMatrix.ofDense (isZero : α → Bool) (width : Nat) (rows : List (List α)) :
    ColumnMatrix α :=
  let columns := (List.range width).map fun j => rows.filterMap (·[j]?)
  (RowMatrix.ofDense isZero rows.length columns).transpose

/-- The dense rows of a list of entries; entries at one place add up. -/
def denseRows [Zero α] [Add α] (height width : Nat) (entries : List (Entry α)) :
    List (List α) :=
  (List.range height).map fun i => (List.range width).map fun j =>
    (entries.filter fun (r, c, _) => r == i && c == j).foldl (fun acc (_, _, a) => acc + a) 0

/-! ### Places of ones -/

/-- A regular choice of places, counted from the end if negative. -/
structure Slice where
  start : Option Int
  stop : Option Int
  step : Option Int
  deriving DecidableEq

variable (n : Nat)

namespace Slice

def all : Slice := ⟨none, none, none⟩

/-- The numbers from `first` in steps up to, and without, `last`. -/
def progression (first last step : Int) : List Int :=
  let count :=
    if 0 < step then (last - first + step - 1) / step
    else if step < 0 then (first - last - step - 1) / -step
    else 0
  (List.range count.toNat).map fun (k : Nat) => first + step * (k : Int)

/-- A bound brought into the range of a vector. -/
def bounded (low high : Int) (i : Int) : Int :=
  let i := if i < 0 then i + n else i
  max low (min high i)

/-- The places chosen out of `n`; a step of zero is refused. -/
def places (s : Slice) (n : Nat) : Outcome (List Int) :=
  let step := s.step.getD 1
  if step = 0 then .error .value
  else if 0 < step then
    .ok (progression ((s.start.map (bounded n 0 n)).getD 0)
      ((s.stop.map (bounded n 0 n)).getD n) step)
  else
    .ok (progression ((s.start.map (bounded n (-1) (n - 1))).getD (n - 1))
      ((s.stop.map (bounded n (-1) (n - 1))).getD (-1)) step)

end Slice

/-- Where the rows or the columns of ones are. -/
inductive Places where
  | slice (s : Slice)
  | list (is : List Int)
  | mask (bs : List Bool)

/-- One entry of a list of places: a single place, or, from a mask, all places at once or
none. -/
inductive Place where
  | one (i : Int)
  | every
  | none
  deriving DecidableEq

namespace Places

/-- The places one by one, in a vector of `n`. -/
def each : Places → Outcome (List Place)
  | slice s => do return (← s.places n).map .one
  | list is => .ok (is.map .one)
  | mask bs => .ok (bs.map fun b => if b then .every else .none)

def isSlice : Places → Bool
  | slice _ => true
  | _ => false

/-- The places in a matrix of `n` rows; a slice is not counted from the end here. -/
def positions : Places → Outcome (List Int)
  | slice s =>
    let step := s.step.getD 1
    if step = 0 then .error (.plain .floatDivision)
    else .ok (Slice.progression (s.start.getD 0) (s.stop.getD n) step)
  | list is => .ok is
  | mask bs => .ok ((bs.zipIdx.filter Prod.fst).map fun (_, i) => (i : Int))

end Places

/-- A place in a vector of `n`, counted from the end if negative. -/
def wrapped? (i : Int) : Outcome Nat :=
  let i := if i < 0 then i + n else i
  if 0 ≤ i ∧ i < n then .ok i.toNat else .error outside

/-- A square 0/1 matrix: its ones stand where the rows and the columns, taken side by side,
say. -/
structure IndexMap where
  size : Nat
  rows : Places
  columns : Places

namespace IndexMap

variable (m : IndexMap)

def transpose : IndexMap := ⟨m.size, m.columns, m.rows⟩

def pick (x : Array α) : Place → Outcome (Sum α (Array α))
  | .one i => do return .inl (← entryAt x (← wrapped? x.size i))
  | .every => .ok (.inr x)
  | .none => .ok (.inr #[])

def addEvery [Add α] (out : Array α) : Sum α (Array α) → Outcome (Array α)
  | .inl a => .ok (out.map (· + a))
  | .inr xs =>
    if xs.size = out.size ∧ !xs.isEmpty then .ok (Array.zipWith (· + ·) out xs)
    else match xs.toList with
      | [a] => .ok (out.map (· + a))
      | _ => .error .value

/-- Adds a multiple of what `x` holds at one place to `out` at another. -/
def addOne [Add α] [Mul α] (scale : α) (x out : Array α) (target source : Place) :
    Outcome (Array α) :=
  match target with
  | .one i => do
    let i ← wrapped? out.size i
    match ← pick x source with
    | .inl a => addAt out i (scale * a)
    | .inr #[a] => addAt out i (scale * a)
    | .inr _ => .error .value
  | .every => do
    match ← pick x source with
    | .inl a => addEvery out (.inl (scale * a))
    | .inr xs => addEvery out (.inr (xs.map (scale * ·)))
  | .none => do
    match ← pick x source with
    | .inl _ => return out
    | .inr _ => if x.size = out.size ∨ x.size = 1 then return out else .error .value

/-- How many ones are read off: as many as rows, but as columns if only the rows are a slice. -/
def count (targets sources : List Place) : Nat :=
  if m.rows.isSlice && !m.columns.isSlice then sources.length else targets.length

def addProduct [Add α] [Mul α] (scale : α) (x out : Array α) : Outcome (Array α) := do
  let sources ← m.columns.each x.size
  let targets ← m.rows.each out.size
  (List.range (m.count targets sources)).foldlM (fun out k =>
    match targets[k]?, sources[k]? with
    | some t, some s => addOne scale x out t s
    | _, _ => .error outside) out

/-- The part of the result that a product hands back: the chosen rows if they are a slice. -/
def shown (out : Array α) : Outcome (Array α) :=
  match m.rows with
  | .slice s => do return ((← s.places out.size).filterMap fun i => out[i.toNat]?).toArray
  | _ => .ok out

/-- The rows and columns of the ones. They have to fit the size and each other. -/
def entries : Outcome (List (Nat × Nat)) := do
  let rows ← m.rows.positions m.size
  let columns ← m.columns.positions m.size
  let fits (i : Int) : Bool := 0 ≤ i && i < m.size
  if rows.length ≠ columns.length then .error .value
  else if rows.all fits && columns.all fits then
    return (rows.zip columns).map fun (r, c) => (r.toNat, c.toNat)
  else .error .value

end IndexMap

end AtomArray
