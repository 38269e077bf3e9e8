import AtomArray.Figure.Basic
import AtomArray.Register.Basic
import AtomArray.Hardware.Spec

/-!
The figure of a register: a circle at each site, filled or pale, and a ring around each that shows
how far its atom blocks others.
-/

namespace AtomArray

open Marks

/-- The bounds of points in the plane. Without points, the least bound is infinite and the
greatest one minus infinite. -/
structure Bounds where
  xMin : Float := 1.0 / 0.0
  xMax : Float := -1.0 / 0.0
  yMin : Float := 1.0 / 0.0
  yMax : Float := -1.0 / 0.0

namespace Bounds

variable (b : Bounds)

def extend (x y : Float) : Bounds where
  xMin := if b.xMin < x then b.xMin else x
  xMax := if x < b.xMax then b.xMax else x
  yMin := if b.yMin < y then b.yMin else y
  yMax := if y < b.yMax then b.yMax else y

def ofPoints (ps : List (Float × Float)) : Bounds :=
  ps.foldl (fun b p => b.extend p.1 p.2) {}

def scale : Float :=
  let height := b.yMax - b.yMin
  let width := b.xMax - b.xMin
  let longer := if height < width then width else height
  if longer < 1.0 then 1.0 else longer

/-- The range of the horizontal axis: the bounds of a square of the given side, and one more on
each side. -/
def xRange (side : Float) : AxisRange :=
  .ofBounds (b.xMin - 1.0) (b.xMin + side + 1.0)

def yRange (side : Float) : AxisRange :=
  .ofBounds (b.yMin - 1.0) (b.yMin + side + 1.0)

end Bounds

/-- A site as a figure shows it: its place in the list of sites, and its position. -/
structure PlacedSite where
  index : Nat
  x : Float
  y : Float
  filled : Bool

variable (ps : List PlacedSite)

namespace PlacedSite

def columns : List (String × List Cell) :=
  [("_x", ps.map (.binary ·.x)), ("_y", ps.map (.binary ·.y)),
    ("_labels", ps.map fun p => .whole p.index)]

def bounds : Bounds := .ofPoints (ps.map fun p => (p.x, p.y))

end PlacedSite

def Tool.siteTexts : List (String × String) := [("(x,y)", "(@_x, @_y)"), ("index: ", "@_labels")]

def ringsName : String := "Brad"

/-- The figure of placed sites, with sizes for a register of the given extent. -/
def sitesFigure (side : Float) (xLabel yLabel : Option String) : Figure :=
  let (filled, vacant) := ps.partition (·.filled)
  let b := PlacedSite.bounds ps
  let standard := color standardColor
  let grey := color "grey"
  let radius := Setting.fixed (.binary (0.015 * side))
  { width := 400
    height := 400
    xRange := b.xRange side
    yRange := b.yRange side
    xLabel
    yLabel
    marks :=
      [.circles "_x" "_y" radius (lineWidth 1.0) 1.0 standard standard
        (PlacedSite.columns filled),
       .circles "_x" "_y" radius (lineWidth (0.2 * side)) 0.25 grey grey
        (PlacedSite.columns vacant),
       { circles "_x" "_y" (.fixed (.whole 0)) (lineWidth (0.15 * side)) 0.5 standard
          standard (PlacedSite.columns (vacant ++ filled)) with name := some ringsName }]
    tools := [.hover false Tool.siteTexts] }

namespace Register

variable (env : Env Quantity)

def placedSites (r : Register Quantity) : Outcome (List PlacedSite) := do
  (← r.sites).zipIdx.mapM fun (s, i) => do
    let x ← s.x.eval env
    let y ← s.y.eval env
    return ⟨i, x.toFloat, y.toFloat, s.filled⟩

/-- The figure of a register. One without atoms counts as of extent one. -/
def figure (r : Register Quantity) (xLabel yLabel : Option String := none) : Outcome Figure := do
  let ps ← r.placedSites env
  let side := if 0 < (← r.atomCount) then (PlacedSite.bounds ps).scale else 1.0
  return sitesFigure ps side xLabel yLabel

def controlledFigure (r : Register Quantity) : Outcome Layout := do
  return .column [.plot (← r.figure env),
    .row [.input "Blockade radius (um):" 0, .button "Toggle" none]]

end Register

/-! ### Tasks -/

def extremes : List Float → Outcome (Float × Float)
  | [] => .error (.plain .wrongValue)
  | x :: xs => .ok (xs.foldl (fun m y => if y < m then y else m) x,
      xs.foldl (fun m y => if m < y then y else m) x)

namespace TimeSeries

/-- The plot of a series whose columns end in a suffix: from time zero on, with some room above and
below the values. -/
def plotWith (suffix label : String) (s : TimeSeries Quantity)
    (marks : String → String → List (String × List Cell) → List Marks) : Outcome Figure := do
  let times := "times_" ++ suffix
  let values := "values_" ++ suffix
  let ys := s.values.map Quantity.toFloat
  let (low, high) ← extremes ys
  let data := [(times, s.times.map fun t => Cell.binary t.toFloat), (values, ys.map .binary)]
  return {
    xRange := .fitted (some (.whole 0)) none
    yRange := .fitted (some (.binary (low - 5e6))) (some (.binary (high + 5e6)))
    xLabel := some "Time (s)"
    yLabel := some label
    marks := marks times values data
    tools := [.hover false [("(x,y)", s!"(@{times}, @{values})")]] }

def areaPlot (suffix label color : String) (alpha : Float) (s : TimeSeries Quantity) :
    Outcome Figure :=
  s.plotWith suffix label fun times values data =>
    let floor := "values_floor_" ++ suffix
    let data := data ++ [(floor, s.values.map fun _ => .binary 0.0)]
    [.line times values "black" (.whole 2) data, .points times values 4 "black" data,
      .area times values floor alpha color data]

def stepPlot (suffix label : String) (s : TimeSeries Quantity) : Outcome Figure :=
  s.plotWith suffix label fun times values data =>
    [⟨.steps, [("x", .column times), ("y", .column values), ("line_width", .fixed (.whole 2)),
        ("line_color", Marks.color "black"), ("mode", .fixed (.text "center"))], data, none, true⟩,
      .points times values 4 "black" data]

end TimeSeries

namespace TaskSpec

variable (t : TaskSpec Quantity)

def amplitudeFigure : Outcome Figure :=
  t.amplitude.areaPlot "amp" "Ω(t) (rad/s)" "#6437FF" 0.3

def phaseFigure : Outcome Figure :=
  t.phase.stepPlot "phase" "ϕ(t) (rad)"

def detuningFigure : Outcome Figure :=
  t.detuning.areaPlot "detune" "Δ(t) (rad/s)" "#EFD0DE" 0.5

/-- The sites of a task in micrometres. The filling of a task is counted in numbers and not in
truth values, so only sites without a filling can be shown. -/
def placedSites : Outcome (List PlacedSite) := do
  if !t.filling.isEmpty then
    if t.filling.length ≠ t.sites.length then throw (.plain .brokenPromise)
    throw .argument
  return t.sites.zipIdx.map fun (p, i) =>
    ⟨i, p.1.toFloat * 1e6, p.2.toFloat * 1e6, true⟩

def latticeFigure (xLabel yLabel : Option String := none) : Outcome Figure := do
  let ps ← t.placedSites
  let side := if ps.isEmpty then 1.0 else (PlacedSite.bounds ps).scale
  return sitesFigure ps side xLabel yLabel

def figure : Outcome Layout := do
  let amplitude ← t.amplitudeFigure
  let phase ← t.phaseFigure
  let detuning ← t.detuningFigure
  let sites ← t.latticeFigure (some "x (um)") (some "y (um)")
  return .row [.stack [.plot amplitude, .plot detuning, .plot phase], .plot sites]

end TaskSpec

end AtomArray
