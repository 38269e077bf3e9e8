import AtomArray.Scalar.Eval

/-!
Registers: a list of sites at which atoms can stand, or a regular lattice of filled sites.

The counts of a lattice (`Register.atomCount`) belong to the lattice as it was laid out; a lattice
that was scaled afterwards has lost them.
-/

namespace AtomArray

structure Site (N : Type) where
  x : Scalar N
  y : Scalar N
  filled : Bool

/-- The shape of a lattice, with its extent in cells. -/
inductive Lattice (N : Type) where
  | chain (length : Int) (vertical : Bool)
  | square (length : Int)
  /-- The ratio is that of the vertical to the horizontal spacing. -/
  | rectangular (width height : Int) (ratio : Scalar N)
  | honeycomb (length : Int)
  | triangular (length : Int)
  | lieb (length : Int)
  | kagome (length : Int)

inductive Register (N : Type) where
  | list (sites : List (Site N))
  | lattice (shape : Lattice N) (spacing : Scalar N) (scaled : Bool)

variable {N : Type} [Arith N]

def Site.same (a b : Site N) : Bool := a.x.same b.x && a.y.same b.y && a.filled == b.filled

/-! ### Lattices -/

/-- A coordinate in units of the spacing. -/
inductive Coordinate (N : Type) where
  | whole (i : Int)
  | real (x : Float)
  | expr (e : Scalar N)

def Coordinate.scalar : Coordinate N → Scalar N
  | whole i => .const (.ofInt i)
  | real x => .const (Binary.textDecimal x)
  | expr e => e

variable (l : Lattice N)

namespace Lattice

def name : Lattice N → String
  | chain .. => "Chain"
  | square _ => "Square"
  | rectangular .. => "Rectangular"
  | honeycomb _ => "Honeycomb"
  | triangular _ => "Triangular"
  | lieb _ => "Lieb"
  | kagome _ => "Kagome"

/-- The number of cells in each direction. -/
def extent : Lattice N → List Int
  | chain l _ => [l]
  | rectangular w h _ => [w, h]
  | square l | honeycomb l | triangular l | lieb l | kagome l => [l, l]

def root3 : Float := Float.sqrt 3.0

/-- The vectors between neighbouring cells, for the lattices in which they are numbers. -/
def vectors : Lattice N → List (Coordinate N × Coordinate N)
  | chain _ true => [(.whole 0, .whole 1)]
  | chain _ false => [(.whole 1, .whole 0)]
  | square _ => [(.whole 1, .whole 0), (.whole 0, .whole 1)]
  | rectangular _ _ r => [(.whole 1, .whole 0), (.whole 0, .expr r)]
  | lieb _ => [(.real 1.0, .real 0.0), (.real 0.0, .real 1.0)]
  | honeycomb _ | triangular _ | kagome _ =>
    [(.real 1.0, .real 0.0), (.real (1.0 / 2.0), .real (root3 / 2.0))]

def basis : Lattice N → List (Coordinate N × Coordinate N)
  | chain .. | square _ | rectangular .. => [(.whole 0, .whole 0)]
  | triangular _ => [(.real 0.0, .real 0.0)]
  | honeycomb _ =>
    [(.real 0.0, .real 0.0), (.real (1.0 / 2.0), .real (1.0 / (2.0 * root3)))]
  | lieb _ => [(.real 0.0, .real 0.0), (.real (1.0 / 2.0), .real 0.0), (.real 0.0, .real (1.0 / 2.0))]
  | kagome _ =>
    [(.real 0.0, .real 0.0), (.real (1.0 / 2.0), .real 0.0),
      (.real (1.0 / 4.0), .real (root3 / 4.0))]

/-- The number of a whole number, as a binary number. -/
def toBinary (i : Int) : Float := Binary.ofDecimal (.ofInt i)

def repeated (i : Int) : Coordinate N → Outcome (Coordinate N)
  | .whole k => .ok (.whole (k * i))
  | .real x => .ok (.real (x * toBinary i))
  | .expr e => do return .expr (← e.times (.const (.ofInt i)))

/-- The sum of two coordinates; whole numbers and expressions stay exact. -/
def sum : Coordinate N → Coordinate N → Outcome (Coordinate N)
  | .whole a, .whole b => .ok (.whole (a + b))
  | .real a, .real b => .ok (.real (a + b))
  | .real a, .whole b => .ok (.real (a + toBinary b))
  | .whole a, .real b => .ok (.real (toBinary a + b))
  | .expr a, b => do return .expr (← a.plus b.scalar)
  | a, .expr b => do return .expr (← a.scalar.plus b)

def shift (a b : Coordinate N × Coordinate N) : Outcome (Coordinate N × Coordinate N) := do
  return (← sum a.1 b.1, ← sum a.2 b.2)

/-- The vectors and the multiples of them that an index stands for. A single vector or a single
multiple is used for all. -/
def matched (vs : List (Coordinate N × Coordinate N)) (index : List Int) :
    Outcome (List ((Coordinate N × Coordinate N) × Int)) :=
  match vs, index with
  | [v], is => .ok (is.map (v, ·))
  | vs, [i] => .ok (vs.map (·, i))
  | vs, is => if vs.length = is.length then .ok (vs.zip is) else .error .value

/-- The positions of the sites of a cell. -/
def coordinates (index : List Int) : Outcome (List (Coordinate N × Coordinate N)) := do
  let terms ← (← matched l.vectors index).mapM fun ((x, y), i) => do
    return (← repeated i x, ← repeated i y)
  let origin ← match terms with
    | [] => pure (Coordinate.whole 0, Coordinate.whole 0)
    | t :: ts => ts.foldlM shift t
  l.basis.mapM (shift origin)

def below (n : Int) : List Int := (List.range n.toNat).map Int.ofNat

/-- All cells, the last direction running fastest. -/
def cells : List (List Int) :=
  l.extent.foldr (fun n rest => (below n).flatMap fun i => rest.map (i :: ·)) [[]]

/-- The number of sites, were every extent a number of cells. -/
def count : Int := l.basis.length * l.extent.foldl (· * ·) 1

def same : Lattice N → Lattice N → Bool
  | chain l v, chain l' v' => l == l' && v == v'
  | square l, square l' => l == l'
  | rectangular w h r, rectangular w' h' r' => w == w' && h == h' && r.same r'
  | honeycomb l, honeycomb l' => l == l'
  | triangular l, triangular l' => l == l'
  | lieb l, lieb l' => l == l'
  | kagome l, kagome l' => l == l'
  | _, _ => false

end Lattice

/-! ### Registers -/

namespace Register

def latticeSites (spacing : Scalar N) : Outcome (List (Site N)) := do
  let cells ← l.cells.mapM fun index => do
    (← l.coordinates index).mapM fun (x, y) => do
      return (⟨← spacing.times x.scalar, ← spacing.times y.scalar, true⟩ : Site N)
  return cells.flatten

def sites : Register N → Outcome (List (Site N))
  | list ss => .ok ss
  | lattice l spacing _ => latticeSites l spacing

def atomCount : Register N → Outcome Int
  | list ss => .ok (ss.countP (·.filled))
  | lattice l _ scaled => if scaled then .error .part else .ok l.count

def siteCount : Register N → Outcome Int
  | list ss => .ok ss.length
  | lattice l s scaled => atomCount (lattice l s scaled)

/-- The number of vacant sites; an empty list has none to speak of. -/
def vacantCount : Register N → Outcome Int
  | list ss => if ss.isEmpty then .error .part else .ok (ss.countP fun s => !s.filled)
  | lattice .. => .ok 0

/-- The number of directions; an empty list has none. -/
def dimensions : Register N → Outcome (Option Int)
  | list ss => .ok (if ss.isEmpty then none else some 2)
  | lattice l _ scaled => if scaled then .error .part else .ok (some l.extent.length)

def className : Register N → String
  | list _ => "ListOfLocations"
  | lattice l _ _ => l.name

def same : Register N → Register N → Bool
  | list ss, list ss' => ss.length == ss'.length && (ss.zip ss').all fun (a, b) => a.same b
  | lattice l s _, lattice l' s' _ => l.same l' && s.same s'
  | _, _ => false

/-- The parameters of a register. Those of a rectangular lattice cannot be told. -/
def names : Register N → Outcome (List String)
  | list ss => .ok (ss.flatMap fun s => s.x.names ++ s.y.names)
  | lattice (.rectangular ..) _ _ => .error .part
  | lattice _ s _ => .ok s.names

/-- Binds the supplied parameters. A chain comes out horizontal, and a rectangular lattice has
no such form. -/
def assign (env : Env N) : Register N → Outcome (Register N)
  | list ss => do
    return list (← ss.mapM fun s => do return ⟨← s.x.assign env, ← s.y.assign env, s.filled⟩)
  | lattice (.chain l _) s _ => do return lattice (.chain l false) (← s.assign env) false
  | lattice (.rectangular ..) _ _ => .error .part
  | lattice l s _ => do return lattice l (← s.assign env) false

/-- Does a set of several terms occur, whose order is not fixed? -/
def hasTermSet : Register N → Bool
  | list ss => ss.any fun s => s.x.hasTermSet || s.y.hasTermSet
  | lattice (.rectangular _ _ r) s _ => r.hasTermSet || s.hasTermSet
  | lattice _ s _ => s.hasTermSet

/-! ### Laying out lattices -/

def ofLattice (spacing : Scalar N) : Register N := lattice l spacing false

/-- A rectangular lattice with two spacings; the vertical one is 1.0 unless it is given. -/
def rectangular (width height : Int) (spacingX : Scalar N) (spacingY : Option (Scalar N)) :
    Outcome (Register N) := do
  let one : Scalar N := .const (.finite false 10 (-1))
  let ratio ← (spacingY.getD one).dividedBy spacingX
  return lattice (.rectangular width height ratio) spacingX false

/-! ### Changes -/

def scale (factor : Scalar N) : Register N → Outcome (Register N)
  | list ss => do
    return list (← ss.mapM fun s => do return ⟨← factor.times s.x, ← factor.times s.y, s.filled⟩)
  | lattice l s _ => do return lattice l (← factor.times s) true

variable (r : Register N)

def addSites (extra : List (Site N)) : Outcome (Register N) := do
  return list ((← r.sites) ++ extra)

def removeVacant : Outcome (Register N) := do
  return list ((← r.sites).filter (·.filled))

def filledPositions (ss : List (Site N)) : List Nat :=
  (List.range ss.length).filter fun i => (ss[i]?).any (·.filled)

def toggleAt (ss : List (Site N)) (i : Nat) : List (Site N) :=
  ss.modify i fun s => { s with filled := !s.filled }

/-- Empties filled sites one by one; a draw chooses among those that are left. -/
def drawDefects (draw : List Nat → Int → Outcome Nat) :
    Nat → List Int → List Nat → List (Site N) → Outcome (List (Site N))
  | 0, _, _, ss => .ok ss
  | _ + 1, [], _, _ => .error (.scriptEnded "choice")
  | n + 1, d :: ds, filled, ss => do
    let i ← draw filled d
    drawDefects draw n ds (filled.erase i) (toggleAt ss i)

/-- Empties `n` filled sites; there must be more than that. -/
def defectCount (n : Int) (draw : List Nat → Int → Outcome Nat)
    (draws : List Int) : Outcome (Register N) := do
  let ss ← r.sites
  let filled := filledPositions ss
  if (filled.length : Int) ≤ n then throw (.defectsExceed n filled.length)
  return list (← drawDefects draw n.toNat draws filled ss)

/-- Changes the filling of each site whose draw is below the probability. -/
def drawDensity (p : Float) : List Float → List (Site N) → Outcome (List (Site N))
  | _, [] => .ok []
  | [], _ :: _ => .error (.scriptEnded "random")
  | u :: us, s :: ss => do
    let s' := if u < p then { s with filled := !s.filled } else s
    return s' :: (← drawDensity p us ss)

def clampProbability (p : Float) : Float :=
  let p := if p > 0.0 then p else 0.0
  if p < 1.0 then p else 1.0

/-- Changes each site with a given probability. -/
def defectDensity (p : Float) (draws : List Float) : Outcome (Register N) := do
  return list (← drawDensity (clampProbability p) draws (← r.sites))

end Register

end AtomArray
