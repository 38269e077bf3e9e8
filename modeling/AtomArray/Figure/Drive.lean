import AtomArray.Figure.Register
import AtomArray.Circuit

/-!
The figures of waveforms, modulations, fields, pulses, sequences and circuits. Only pulses and
sequences written out as members can be shown.
-/

namespace AtomArray

def curveColors : List String := ["#1b9e77", "#d95f02", "#7570b3", "#e7298a", "#66a61e"]

def curveColor (i : Nat) : String := curveColors.getD (i % curveColors.length) ""

/-- A named curve with the weights of the sites it drives. -/
structure Channel where
  name : String
  sites : List String
  weights : List Cell
  times : List Float
  values : List Float

namespace Channel

def columns (c : Channel) : List (String × List Cell) :=
  [("wvfm_x", c.times.map .binary), ("wvfm_y", c.values.map .binary),
    ("lbl", c.times.map fun _ => .text c.name)]

variable (cs : List Channel)

def table : Layout :=
  .weights (cs.flatMap fun c => c.sites.map fun _ => c.name) (cs.flatMap (·.sites))
    (cs.flatMap (·.weights))

/-- The curve of the channel with a number; only the first is shown at first. -/
def curveMarks (i : Nat) (c : Channel) : Marks :=
  { Marks.line "wvfm_x" "wvfm_y" (curveColor i) (.whole 1) c.columns with
    name := some s!"data{i}"
    visible := i = 0 }

/-- The plot of all curves. Its line at the pointer is shared with other plots or its own. -/
def plot (shared : Bool) : Figure where
  width := 800
  height := 170
  xLabel := some "Time (us)"
  marks := cs.zipIdx.map fun (c, i) => c.curveMarks i
  tools := [.hover true [("(x,y)", "(@wvfm_x, @wvfm_y)"), ("channel", "@lbl")],
    .crosshair shared]

/-- The table and the plot of channels, of which there is at least one, under a title. -/
def layout (title : String) (shared : Bool) : Outcome Layout :=
  match cs with
  | [] => .error (.plain .outOfRange)
  | first :: _ =>
    .ok (.column [.note title, .row [table cs,
      .column [.choice [first.name] (cs.map (·.name)), .plot (plot cs shared)]]])

end Channel

variable (env : Env Quantity)

def Waveform.figure (w : Waveform Quantity) : Outcome Figure := do
  let (times, values) ← w.plainCurve env 1000
  return {
    xLabel := some "Time (s)"
    yLabel := some "Waveform(t)"
    marks := [.line "x" "y" Marks.standardColor (.whole 1)
      [("x", times.map .binary), ("y", values.map .binary)]]
    tools := [.hover false Tool.standardTexts] }

namespace Modulation

def shownShares (m : Modulation Quantity) : Outcome (List String × List String) := do
  let (names, weights) ← m.shares env
  let _ ← m.tree.render
  return (names.map (·.getD ""), weights)

def figure (m : Modulation Quantity) : Outcome Layout := do
  let (names, weights) ← m.shownShares env
  return .row [.weights (names.map fun _ => "Channel") names (weights.map .text)]

end Modulation

namespace Field

/-- The channel of a drive; the parameters are known to its curve. -/
def channel (i : Nat) (d : Modulation Quantity × Waveform Quantity) : Outcome Channel := do
  let (names, weights) ← d.1.shares env
  let (times, values) ← d.2.curve env 1000
  let _ ← d.1.tree.render
  return ⟨s!"Ch[{i}]", names.map (·.getD ""), weights.map .text, times, values⟩

def titledFigure (title : String) (shared : Bool) (env : Env Quantity) (f : Field Quantity) :
    Outcome Layout := do
  let channels ← f.drives.zipIdx.mapM fun (d, i) => channel env i d
  Channel.layout channels title shared

def figure (f : Field Quantity) : Outcome Layout :=
  f.titledFigure "Field" false env

end Field

namespace Pulse

/-- The panel of a pulse. Pieces in a row and parts of a pulse have no members to show, and a named
pulse does not show those of its body. -/
def panel (title : String) (env : Env Quantity) : Pulse Quantity → Outcome Layout
  | fields ms => do
    let rows ← ms.mapM fun (n, f) => f.titledFigure (n.label ++ "\n") true env
    return .panel title (.column rows)
  | named .. => .error .part
  | .append _ | .slice .. => .error .type

def titledFigure (title : Option String) (env : Env Quantity) (p : Pulse Quantity) :
    Outcome Layout := do
  return .tabs [← p.panel (title.getD "Pulse") env]

/-- The figure of a pulse; pieces in a row and parts of a pulse have none. -/
def figure? : Pulse Quantity → Outcome (Option Layout)
  | .append _ | .slice .. => .ok none
  | p => (p.titledFigure none env).map some

end Pulse

def Sequence.figure : Sequence Quantity → Outcome Layout
  | .pulses ms => do
    return .tabs (← ms.mapM fun (c, p) => p.panel (c.label ++ "\n") env)
  | .named .. => .error .part
  | .append _ | .slice .. => .error (.plain .notImplemented)

namespace Arrangement

def figure (env : Env Quantity) : Arrangement Quantity → Outcome Figure
  | plain r => r.figure env
  | tiled _ => .error .part

end Arrangement

def Circuit.figures (c : Circuit Quantity) : Outcome (Layout × Layout) := do
  let register ← c.register.figure env
  let sequence ← c.sequence.figure env
  return (sequence, .plot register)

end AtomArray
