import AtomArray.Figure.Drive
import AtomArray.Chain.Params
import AtomArray.Task.Report

/-!
The figure of a report: for each task its parameters, how often each text of bits was read, the
sites, and how often each site was excited.
-/

namespace AtomArray

structure TaskView where
  counts : List (String × Nat)
  densities : List Cell
  params : Env Quantity
  geometry : Geometry

namespace Geometry

/-- A length in micrometres. It is read as it is written, so that no digits appear. -/
def micrometres (x : Quantity) : Outcome Float := do
  let d ← Outcome.ofDecimal (x.toDecimal.mul (.finite false 1 6))
  return Binary.ofDecimal d

variable (g : Geometry)

/-- The sites that have a filling, in micrometres. -/
def placedSites : Outcome (List PlacedSite) :=
  (g.sites.zip g.filling).zipIdx.mapM fun ((p, filled), i) => do
    let x ← micrometres p.1
    let y ← micrometres p.2
    return ⟨i, x, y, filled ≠ 0⟩

/-- The side of the square that shows the sites; a geometry without sites counts as of extent
one. -/
def side (ps : List PlacedSite) : Float :=
  if g.sites.isEmpty then 1.0 else (PlacedSite.bounds ps).scale

/-- The figure of the bits read at the sites; at first all are zero. -/
def bitsFigure : Outcome Figure := do
  let ps ← g.placedSites
  let side := g.side ps
  let b := PlacedSite.bounds ps
  let data := PlacedSite.columns ps
  let data := data.take 2 ++ [("_bits", ps.map fun _ => .whole 0)] ++ data.drop 2
  return {
    title := "reg state"
    width := 400
    height := 400
    xRange := b.xRange side
    yRange := b.yRange side
    xLabel := some "(um)"
    marks :=
      [{ Marks.circles "_x" "_y" (.fixed (.binary (0.035 * side))) (Marks.lineWidth 1.0) 1.0
          (Marks.color "black") (.graded "_bits" (.whole 0) (.whole 1)) data with
        name := some "reg" }]
    tools := [.hover false (Tool.siteTexts ++ [("state: ", "@_bits")])] }

def densityFigure (densities : List Cell) : Outcome Figure := do
  let ps := (← (Geometry.placedSites { g with filling := g.filling.take densities.length })).zip
    densities
  let placed := ps.map (·.1)
  let side := g.side placed
  let b := PlacedSite.bounds placed
  let (low, high) ← match densities with
    | [] => throw (.plain .wrongValue)
    | d :: ds => pure (Cell.least d ds, Cell.greatest d ds)
  let (filled, vacant) := ps.partition (·.1.filled)
  let circles (width : Float) (ps : List (PlacedSite × Cell)) : Marks :=
    .circles "_x" "_y" (.fixed (.binary (0.035 * side))) (Marks.lineWidth width) 1.0
      (Marks.color "black") (.graded "_ryd" low high)
      (PlacedSite.columns (ps.map (·.1)) ++ [("_ryd", ps.map (·.2))])
  return {
    title := "rydberg density"
    width := 500
    height := 400
    xRange := b.xRange side
    yRange := b.yRange side
    xLabel := some "(um)"
    marks := [circles 1.0 filled, circles (0.2 * side) vacant]
    tools := [.hover false (Tool.siteTexts ++ [("ryd density: ", "@_ryd")])]
    colorBar := true }

end Geometry

namespace TaskView

def paramLines (params : Env Quantity) : String :=
  String.join (params.map fun (n, v) => s!"<p>{n} = " ++ v.shown ++ "</p>")

def countsFigure (i : Nat) (counts : List (String × Nat)) : Figure :=
  let labels := counts.zipIdx.map fun (_, k) => s!"[{k}]"
  let color := Marks.color (curveColor 1)
  { title := s!"task {i}"
    width := 400
    height := 400
    xRange := .names labels
    yRange := .fitted (some (.whole 0)) none
    yLabel := some "Counts"
    marks := [⟨.bars, [("x", .column "bit_id"), ("top", .column "cnts"),
      ("width", .fixed (.binary 0.9)), ("line_width", Marks.lineWidth 1.0),
      ("fill_alpha", .fixed (.binary 1.0)), ("line_color", color), ("fill_color", color)],
      [("tid", counts.map fun _ => .whole i), ("bitstrings", counts.map fun (b, _) => .text b),
       ("cnts", counts.map fun (_, n) => .whole n), ("bit_id", labels.map .text)], none, true⟩]
    tools := [.hover false [("counts: ", "@cnts")], .tap] }

/-- The row of the task with a number. Every character of a text of bits is a digit. -/
def layout (i : Nat) (v : TaskView) : Outcome Layout := do
  if !v.counts.all (fun (b, _) => b.toList.all Char.isDigit) then throw (.plain .wrongValue)
  let bits ← v.geometry.bitsFigure
  let density ← v.geometry.densityFigure v.densities
  return .namedRow s!"task {i}" (i = 0)
    [.note ("<p> Assignments: </p>" ++ paramLines v.params), .plot (countsFigure i v.counts),
      .plot bits, .plot density]

def figure (name : String) (views : List TaskView) : Outcome Layout := do
  let rows ← views.zipIdx.mapM fun (v, i) => v.layout i
  let options := views.zipIdx.map fun (_, i) => s!"task {i}"
  return .column
    [.column [.note ("Report: " ++ name),
      .row [.button "Bloqade" (some .program), .button "QuEra" (some .vendor)]],
     .column [.choice (options.take 1) options, .column rows]]

end TaskView

namespace Report

/-- What is shown of each task. Every task has a row in which the atoms are the ones asked for. -/
def views (r : Report) : Outcome (List TaskView) := do
  let counts := r.counts
  if (tasksOf r.rows).length ≠ counts.length then throw (.plain .brokenPromise)
  return ((counts.zip r.densities).zip (r.metas.zip r.geometries)).map fun (c, m) =>
    ⟨c.1, c.2.map .binary, m.1, m.2⟩

def figure (r : Report) : Outcome Layout := do TaskView.figure r.name (← r.views)

end Report

/-! ### Sample data -/

namespace Sample

/-- A site of the sample report, in units of a hundredth of a micrometre. -/
def site (x y : Nat) : Quantity × Quantity :=
  (.binary (Float.ofScientific x true 8), .binary (Float.ofScientific y true 8))

def report : List TaskView :=
  [⟨[("0010", 4), ("1101", 7), ("1111", 5)],
    [.binary 0.55, .binary 0.45, .binary 0.2, .binary 0.11],
    [("a", .whole 4), ("b", .whole 9), ("c", .whole 10)],
    ⟨[site 0 0, site 0 50, site 50 30, site 60 70], [1, 1, 1, 0], none⟩⟩,
   ⟨[("0101", 4), ("1101", 7), ("1110", 5), ("1111", 10)],
    [.binary 0.33, .binary 0.67, .binary 0.25, .binary 0.34],
    [("a", .whole 10), ("b", .number (.binary 9.44)), ("c", .number (.binary 10.3))],
    ⟨[site 0 10, site 66 50, site 30 30, site 50 70], [1, 0, 1, 0], none⟩⟩]

def reportName : String := "Mock"

/-- The numbers that sample data are drawn from: whole numbers taken in turn, and numbers that
every draw of several starts with. -/
structure Draws where
  wholes : List Int
  reals : List Float

def nextWhole (bound : Int) : StateT Draws Outcome Int := do
  let d ← get
  match d.wholes with
  | [] => throw (.plain .scriptEnded)
  | i :: rest =>
    set { d with wholes := rest }
    return i % bound

def reals (n : Nat) (d : Draws) : List Float :=
  (List.range n).map fun i => d.reals.getD i 0.5

/-- A sample channel: one that drives all sites, of which `uniform` came before, or the one with
number `i`. -/
def channel (i uniform : Nat) : StateT Draws Outcome Channel := do
  let times := evenlySpaced 10.0 199
  let slope := (← get).reals.headD 0.5
  let values := times.zipIdx.map fun (_, k) => k.toFloat * slope
  let sites ← nextWhole 5
  if sites = 0 then
    return ⟨s!"uni[{uniform}]", ["all"], [.binary 1.0], times, values⟩
  let chosen ← (List.range sites.toNat).mapM fun _ => nextWhole 10
  let chosen := (distinct chosen).mergeSort fun a b => decide (a ≤ b)
  let weights := reals chosen.length (← get)
  return ⟨s!"ch[{i}]", chosen.map fun k => s!"loc[{k}]", weights.map .binary, times, values⟩

def drivesAll (c : Channel) : Bool := c.sites = ["all"]

def channels (before : List Channel) : Nat → StateT Draws Outcome (List Channel)
  | 0 => return before
  | n + 1 => do
    let c ← channel before.length (before.countP drivesAll)
    channels (before ++ [c]) n

def fieldFigure (title : String) (cs : List Channel) : Outcome Layout := do
  return .tabs [.panel "p" (.column [← Channel.layout cs title false])]

def registerFigure (d : Draws) : Figure :=
  let standard := Marks.color Marks.standardColor
  { width := 300
    height := 300
    marks := [.circles "x" "y" (.field "radius") (Marks.lineWidth 1.0) 1.0 standard standard
      [("x", (reals 10 d).map .binary), ("y", (reals 10 d).map .binary)]] }

end Sample

end AtomArray
