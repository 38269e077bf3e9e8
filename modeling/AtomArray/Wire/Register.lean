import AtomArray.Wire.Waveform
import AtomArray.Register.Text

/-!
Registers in requests and answers.
-/

namespace AtomArray.Wire

abbrev Register := AtomArray.Register Quantity

def wholeArgument : Value → Outcome Int
  | .whole i => .ok i
  | .flag b => .ok (if b then 1 else 0)
  | _ => .error .argument

def sitePosition : Value → Outcome (Scalar × Scalar)
  | .tuple [x, y] => do
    match ← scalarArguments [x, y] with
    | [x, y] => return (x, y)
    | _ => throw .argument
  | _ => .error .argument

def siteAt (filled : Bool) (v : Value) : Outcome (Site Quantity) := do
  let (x, y) ← sitePosition v
  return ⟨x, y, filled⟩

def readTuple (j : Json) : Outcome Value := do
  match j with
  | .arr xs => return .tuple (← xs.mapM readArg)
  | j => readArg j

/-- The value of a position: a tuple, a list of tuples, an array, or anything else. -/
def readPosition : Json → Outcome Value
  | .obj [("pos", p)] => readTuple p
  | .arr ps => do return .list (← ps.mapM readTuple)
  | j => readArg j

def flagOf : Value → Bool
  | .flag b => b
  | _ => false

/-- A number has no length; one that counts as true is asked for it. -/
def uncounted (asked : Bool) : Outcome (Option (List Value)) :=
  if asked then .error .type else .ok none

def filledSite (position filling : Value) : Outcome (Site Quantity) :=
  match filling with
  | .flag b => siteAt b position
  | _ => .error .argument

/-- Which fillings are given along with a list of positions: none, or one for each. What has no
length cannot be counted, and whether several truth values are true is not known. -/
def listedFilling : Value → Outcome (Option (List Value))
  | .none => .ok none
  | .list fs | .tuple fs => .ok (if fs.isEmpty then none else some fs)
  | .text t => .ok (if t.isEmpty then none else some (t.toList.map fun c => .text (toString c)))
  | .array [] => .ok none
  | .array [f] => .ok (if flagOf f then some [.none] else none)
  | .array _ => .error .value
  | .flag b => uncounted b
  | .whole i => uncounted (i ≠ 0)
  | .binary x => uncounted (x != 0.0)
  | _ => .error .argument

def newSites (position filling : Value) : Outcome (List (Site Quantity)) :=
  match position with
  | .list ps => do
    match ← listedFilling filling with
    | none => ps.mapM (siteAt true)
    | some fs =>
      if ps.length ≠ fs.length then throw (.plain .brokenPromise)
      (ps.zip fs).mapM fun (p, f) => filledSite p f
  | p =>
    match filling with
    | .none => do return [← siteAt true p]
    | f => do return [← filledSite p f]

def rowPosition : Value → Outcome Value
  | .array xs => .ok (.tuple xs)
  | .text t => .ok (.tuple (t.toList.map fun c => .text (toString c)))
  | _ => .error .type

def addPosition (r : Register) (position filling : Value) : Outcome Register := do
  match position with
  | .array rows =>
    let ps ← rows.mapM rowPosition
    let fs ← match filling with
      | .none => pure Value.none
      | .array fs => pure (.list fs)
      | _ => throw .part
    let _ ← r.sites
    r.addSites (← newSites (.list ps) fs)
  | p =>
    let _ ← r.sites
    r.addSites (← newSites p filling)

def standardSpacing : Scalar := .const (.finite false 10 (-1))

def readSpacing (v : Option Value) : Outcome Scalar :=
  (v.map Value.castScalar).getD (.ok standardSpacing)

/-- The arguments of a lattice: whole numbers first, then an optional spacing. -/
def latticeArguments (wholes : Nat) (vs : List Value) : Outcome (List Int × Option Value) := do
  let ints ← (vs.take wholes).mapM wholeArgument
  let rest := vs.drop wholes
  if !(rest.take 1).all Value.isScalarLike then throw .argument
  if vs.length < wholes || wholes + 1 < vs.length then throw .type
  return (ints, rest.head?)

def readLattice (make : Int → Lattice Quantity) (vs : List Value) : Outcome Register := do
  match ← latticeArguments 1 vs with
  | ([l], spacing) => return .ofLattice (make l) (← readSpacing spacing)
  | _ => throw .type

def readChain (vs : List Value) : Outcome Register := do
  match (vs.drop 2).head? with
  | none => readLattice (.chain · false) vs
  | some (.flag vertical) =>
    if 3 < vs.length then throw .type
    readLattice (.chain · vertical) (vs.take 2)
  | some _ =>
    let _ ← readLattice (.chain · false) (vs.take 2)
    throw .argument

def readRectangular (vs : List Value) : Outcome Register := do
  let ints ← (vs.take 2).mapM wholeArgument
  if !((vs.drop 2).take 1).all Value.isScalarLike then throw .argument
  let fourth := (vs.drop 3).head?
  let fourth := if fourth matches some .none then none else fourth
  if !fourth.toList.all Value.isScalarLike then throw .argument
  if 4 < vs.length then throw .type
  match ints with
  | [w, h] =>
    let x ← readSpacing (vs.drop 2).head?
    Register.rectangular w h x (← fourth.mapM Value.castScalar)
  | _ => throw .type

def readInfo (j : Json) : Outcome (Site Quantity) :=
  match j with
  | .arr [x, y, filled] => do
    let position ← readTuple (.arr [x, y])
    match ← readArg filled with
    | .flag b => siteAt b position
    | _ => throw .argument
  | _ => .error badRequest

def latticeOf? : String → Option (Int → Lattice Quantity)
  | "square" => some .square
  | "honeycomb" => some .honeycomb
  | "triangular" => some .triangular
  | "lieb" => some .lieb
  | "kagome" => some .kagome
  | _ => none

def readPlainRegister : Json → Outcome Register
  | node "start" [] => .ok (.list [])
  | node "list" [ps] => do
    let ps ← ps.items.mapM readTuple
    return .list (← ps.mapM (siteAt true))
  | node "infos" [ps] => do return .list (← ps.items.mapM readInfo)
  | node "positions" [ps] => do
    addPosition (.list []) (← readPosition ps) .none
  | node "chain" args => do readChain (← args.mapM readArg)
  | node "rectangular" args => do readRectangular (← args.mapM readArg)
  | .arr (.str name :: args) =>
    match latticeOf? name with
    | some make => do readLattice make (← args.mapM readArg)
    | none => .error badRequest
  | _ => .error badRequest

def tilingOf (r : Register) (v : Value) : Outcome (Tiling Quantity) := do
  Tiling.ofRegister r (← v.scalarArgument)

def readArrangement : Json → Outcome (Arrangement Quantity)
  | node "parallel" [r, s] => do
    return .tiled (← tilingOf (← readPlainRegister r) (← readArg s))
  | j => do return .plain (← readPlainRegister j)

def siteForm (s : Site Quantity) : Json := .arr [scalarForm s.x, scalarForm s.y, .bool s.filled]

def registerForm : Register → Json
  | .list ss => node "ListOfLocations" [each ss siteForm]
  | .lattice l s _ =>
    match l with
    | .chain n v => node "Chain" [.int n, scalarForm s, .bool v]
    | .rectangular w h r => node "Rectangular" [.int w, .int h, scalarForm s, scalarForm r]
    | .square n | .honeycomb n | .triangular n | .lieb n | .kagome n =>
      node l.name [.int n, scalarForm s]

def pairForm (p : Scalar × Scalar) : Json :=
  .arr [scalarForm p.1, scalarForm p.2]

def tilingForm (t : Tiling Quantity) : Json :=
  node "ParallelRegister" [registerForm t.register, scalarForm t.spacing,
    each t.locations pairForm, each t.filling fun b => .int (if b then 1 else 0),
    each t.shifts pairForm]

def arrangementForm : Arrangement Quantity → Json
  | .plain r => registerForm r
  | .tiled t => tilingForm t

/-- A call of the plotting program: its name, its arguments, and its named arguments. -/
def plotCall (name : String) (args : List Json) (named : Members := []) : Json :=
  node name [.arr args, .obj named]

def pointColumns (ps : List (Float × Float)) : List Json :=
  [each ps fun p => sci p.1, each ps fun p => sci p.2]

def plotCalls (p : SitePlot) : List Json :=
  let labels := [plotCall "title" [.str "Atom Positions"], plotCall "xlabel" [.str "x (um)"],
    plotCall "ylabel" [.str "y (um)"]]
  let warning := if p.assumed then
      [plotCall "ylabel" [.str "Lattice Spacing is a variable, defaulting to 1.0 for display",
        .str "right"]]
    else []
  let vacant := if p.vacant.isEmpty then []
    else [plotCall "scatter" (pointColumns p.vacant)
      [("color", .str "white"), ("label", .str "vacant"), ("marker", .str "dot")]]
  [plotCall "clear_figure" [], plotCall "limit_size" [.bool false, .bool false],
    plotCall "plot_size" [.int 80, .int 24], plotCall "canvas_color" [.str "default"],
    plotCall "axes_color" [.str "default"], plotCall "ticks_color" [.str "white"]]
    ++ labels ++ warning
    ++ [plotCall "scatter" (pointColumns p.filled)
      [("color", .arr [.int 100, .int 55, .int 255]), ("marker", .str "dot")]]
    ++ vacant ++ [plotCall "build" []]

end AtomArray.Wire
