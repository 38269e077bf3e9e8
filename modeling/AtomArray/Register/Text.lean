import AtomArray.Register.Tiling
import AtomArray.Scalar.Text

/-!
Registers as plots of points for a terminal, as trees and as saved JSON.
-/

namespace AtomArray

structure SitePlot where
  filled : List (Float × Float)
  vacant : List (Float × Float) := []
  /-- Does the plot take one for a spacing that is not known? -/
  assumed : Bool := false

variable {N : Type} [Arith N]

namespace Scalar

def literal? : Scalar N → Option Float
  | .lit v => some (Arith.approx v)
  | _ => none

/-- The number of a literal, or of a variable that is bound to one. -/
def boundNumber? : Scalar N → Option Float
  | .assigned _ v => some (Arith.approx v)
  | e => e.literal?

end Scalar

/-- The number of a coordinate; expressions have none. -/
def Coordinate.number? : Coordinate N → Option Float
  | whole i => some (Lattice.toBinary i)
  | real x => some x
  | expr _ => none

namespace Lattice

/-- The points of a lattice in units of its spacing, where these are numbers. -/
def points (l : Lattice N) : Outcome (List (Float × Float)) := do
  let cells ← l.cells.mapM l.coordinates
  return cells.flatten.filterMap fun (x, y) => do return (← x.number?, ← y.number?)

def rectangle (l : Lattice N) (ratio : Float) : List (Float × Float) :=
  l.cells.filterMap fun
    | [i, j] => some (toBinary i + 0.0 * toBinary j, 0.0 * toBinary i + ratio * toBinary j)
    | _ => none

def stretched (spacing : Float) (ps : List (Float × Float)) : List (Float × Float) :=
  ps.map fun (x, y) => (spacing * x, spacing * y)

end Lattice

namespace Register

def listPlot (ss : List (Site N)) : Option SitePlot := do
  let ps ← ss.mapM fun s => do return ((← s.x.literal?, ← s.y.literal?), s.filled)
  let (filled, vacant) := ps.partition (·.2)
  return ⟨filled.map (·.1), vacant.map (·.1), false⟩

def plot? : Register N → Outcome (Option SitePlot)
  | list ss => .ok (listPlot ss)
  | lattice l@(.rectangular _ _ ratio) spacing _ =>
    match ratio.literal? with
    | none => .ok none
    | some r =>
      match spacing.boundNumber? with
      | none => .error .part
      | some s => .ok (some { filled := Lattice.stretched s (l.rectangle r) })
  | lattice l spacing _ => do
    let s := spacing.literal?
    return some { filled := Lattice.stretched (s.getD 1.0) (← l.points), assumed := s.isNone }

end Register

def Site.fillingName (s : Site N) : String := if s.filled then "filled" else "vacant"

def Site.tree (s : Site N) : Tree :=
  .named ("Location: " ++ s.fillingName) [("x", s.x.tree), ("y", s.y.tree)]

def Site.saved (s : Site N) : Json :=
  .obj [("location_info", .obj [("position", .arr [s.x.saved, s.y.saved]),
    ("filled", .bool s.filled)])]

namespace Register

def tree (r : Register N) : Tree :=
  match r.sites with
  | .ok ss => .branch "AtomArrangement" (ss.map Site.tree)
  | .error f => .broken f

def plotText : String := "<plot>"

def shownText (r : Register N) : Outcome String := do
  if (← r.plot?).isSome then return plotText
  match r with
  | lattice (.rectangular w h ratio) s _ =>
    let spacing ← s.text
    let ratio ← ratio.text
    return s!"Rectangular(shape=({w}, {h}), lattice_spacing={spacing}, ratio={ratio})"
  | r => r.tree.render

def savedLattice (name : String) (l : Int) (s : Scalar N) : Json :=
  .obj [(name, .obj [("lattice_spacing", s.saved), ("L", .int l)])]

/-- The saved form of a register. Square and rectangular lattices have none. -/
def saved : Register N → Outcome Json
  | list ss => .ok (.obj [("list_of_locations", .obj [("location_list", .arr (ss.map Site.saved))])])
  | lattice l s _ =>
    match l with
    | .chain n v =>
      .ok (.obj [("chain", .obj [("lattice_spacing", s.saved), ("L", .int n),
        ("vertical_chain", .bool v)])])
    | .square _ => .error (.plain .notImplemented)
    | .rectangular .. => .error .part
    | .honeycomb n => .ok (savedLattice "honeycomb" n s)
    | .triangular n => .ok (savedLattice "triangular" n s)
    | .lieb n => .ok (savedLattice "lieb" n s)
    | .kagome n => .ok (savedLattice "kagome" n s)

end Register

namespace Arrangement

def tree : Arrangement N → Tree
  | plain r => r.tree
  | tiled _ => .broken .part

def plot? : Arrangement N → Outcome (Option SitePlot)
  | plain r => r.plot?
  | tiled _ => .error .part

def shownText : Arrangement N → Outcome String
  | plain r => r.shownText
  | tiled _ => .error .part

def saved : Arrangement N → Outcome Json
  | plain r => r.saved
  | tiled t => do
    let _ ← t.register.saved
    throw (.plain .notImplemented)

end Arrangement

end AtomArray
