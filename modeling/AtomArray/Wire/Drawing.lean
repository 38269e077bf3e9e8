import AtomArray.Wire.Subject
import AtomArray.Wire.Task
import AtomArray.Figure.Drive

/-!
The figures of values, in each of the ways to ask for them.
-/

namespace AtomArray.Wire

inductive Drawing where
  | one (l : Layout)
  | two (sequence register : Layout)
  | undefined

namespace Subject

variable (env : Env)

def drawing (l : Outcome Layout) : Outcome Drawing := l.map .one

def ownFigure : Subject → Outcome Drawing
  | waveform w => drawing ((w.figure env).map .plot)
  | modulation m => drawing (m.figure env)
  | anyModulation => .error (.plain .notImplemented)
  | field f => drawing (f.figure env)
  | pulse p => do
    match ← p.figure? env with
    | some l => return .one l
    | none => return .undefined
  | sequence s => drawing (s.figure env)
  | register a => drawing ((a.figure env).map .plot)
  | circuit c => do
    let figures ← c.figures env
    return .two figures.1 figures.2
  | _ => .error .part

/-- The figure of any sort of value: the register comes with its controls, and a circuit is one
row. -/
def generalFigure : Subject → Outcome Drawing
  | register (.plain r) => drawing (r.controlledFigure env)
  | circuit c => do
    let figures ← c.figures env
    return .one (.row [figures.1, figures.2])
  | s@(waveform _) | s@(modulation _) | s@anyModulation | s@(field _) | s@(pulse _)
  | s@(sequence _) => s.ownFigure env
  | _ => .error (.plain .notImplemented)

def drivingFigure : Subject → Outcome Drawing
  | anyModulation => .error .value
  | s@(sequence _) | s@(modulation _) | s@(waveform _) => s.ownFigure env
  | _ => .error (.plain .notImplemented)

/-- The figure of a pulse under a title. Only what has members can be taken for a pulse, and of
that only what has none. -/
def titledFigure (title : Option String) : Subject → Outcome Drawing
  | pulse p => drawing (p.titledFigure title env)
  | sequence (.pulses []) => .ok (.one (.tabs [.panel (title.getD "Pulse") (.column [])]))
  | sequence (.append _) | sequence (.slice ..) => .error (.plain .notImplemented)
  | modulation m => do
    let _ ← m.shares env
    throw .part
  | anyModulation => .error .value
  | waveform _ => .error .type
  | _ => .error .part

/-- What showing a value shows. A modulation that is not by locations cannot be shown by
itself. -/
def shown : Subject → Outcome Drawing
  | modulation (.scaled s) => (modulation (.scaled s)).generalFigure env
  | modulation _ => .error .type
  | pulse (.append _) | pulse (.slice ..) => .ok .undefined
  | s@(waveform _) | s@(field _) | s@(pulse _) | s@(sequence _) | s@(register (.plain _))
  | s@(circuit _) => s.generalFigure env
  | _ => .error .part

end Subject

def chainFigure (c : Chain) (task : Int) : Outcome Layout := do
  let routine ← c.routine
  let env := Json.merge routine.params.fixed (← itemAt routine.params.batch task)
  let lines := env.map fun (n, v) => s!"<p> :: {n} = " ++ v.shown ++ "</p>"
  let (sequence, register) ← routine.circuit.figures env
  return .row [sequence, .column [register,
    .note ("<p>Assignments: </p>" ++ String.join lines)]]

/-- The figure of a part of a task; a part without one cannot be asked for it. -/
def taskFigure (t : TaskSpec) (part : String) (direct shown : Bool) : Outcome Layout :=
  match part with
  | "amplitude" => t.amplitudeFigure.map .plot
  | "phase" => t.phaseFigure.map .plot
  | "detuning" => if shown then .error .part else t.detuningFigure.map .plot
  | "lattice" => t.latticeFigure.map .plot
  | "spec" => t.figure
  | _ => .error (if direct then .plain .notImplemented else .part)

end AtomArray.Wire
