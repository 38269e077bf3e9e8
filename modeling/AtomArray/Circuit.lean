import AtomArray.Drive.Sequence
import AtomArray.Register.Text

/-!
Circuits: a register of atoms with the sequence that drives it. Their parameters are bound, their
recorded values scanned, and it is decided whether nothing changes in time.
-/

namespace AtomArray

structure Circuit (N : Type) where
  register : Arrangement N
  sequence : Sequence N

structure CircuitNames where
  scalars : List String
  vectors : List String

variable {N : Type} [Arith N]

/-! ### Constancy -/

/-- What is known while the waveforms of a circuit are looked at: whether all of them were
constant with one duration, and that duration. -/
structure Constancy (N : Type) where
  constant : Bool := true
  duration : Option N := none

variable (env : Env N)

namespace Constancy

/-- Takes one more waveform into account; the result is its final value as a waveform. -/
def next (c : Constancy N) (w : Waveform N) : Outcome (Constancy N × Waveform N) := do
  let (stays, flat) ← w.constancy env
  let d ← flat.length env
  match c.duration with
  | none => return (⟨c.constant && stays, some d⟩, flat)
  | some d' => return (⟨c.constant && stays && Arith.same d' d, some d'⟩, flat)

def drives (env : Env N) (c : Constancy N) (out : Field N) :
    List (Drive N) → Outcome (Constancy N × Field N)
  | [] => .ok (c, out)
  | (m, w) :: rest => do
    let (c, flat) ← c.next env w
    drives env c (← out.plus ⟨[(m, flat)]⟩) rest

def fields (env : Env N) (c : Constancy N) :
    List (FieldName × Field N) → Outcome (Constancy N × List (FieldName × Field N))
  | [] => .ok (c, [])
  | (n, f) :: rest => do
    let (c, f) ← c.drives env ⟨[]⟩ f.drives
    let (c, fs) ← fields env c rest
    return (c, (n, f) :: fs)

def pulse (c : Constancy N) : Pulse N → Outcome (Constancy N × Pulse N)
  | .fields fs => do
    let (c, fs) ← c.fields env fs
    return (c, .fields fs)
  | _ => .error (.plain .notImplemented)

def pulses (env : Env N) (c : Constancy N) :
    List (Coupling × Pulse N) → Outcome (Constancy N × List (Coupling × Pulse N))
  | [] => .ok (c, [])
  | (k, p) :: rest => do
    let (c, p) ← c.pulse env p
    let (c, ps) ← pulses env c rest
    return (c, (k, p) :: ps)

end Constancy

namespace Circuit

def same (a b : Circuit N) : Bool := a.register.same b.register && a.sequence.same b.sequence

def hasTermSet (c : Circuit N) : Bool := c.register.hasTermSet || c.sequence.hasTermSet

/-- The parameters of a circuit; every coefficient vector must have a name. -/
def names (c : Circuit N) : Outcome CircuitNames := do
  let own ← c.register.names
  match c.sequence.vectorNames.mapM id with
  | some vectors => return ⟨own ++ c.sequence.scalarNames, vectors⟩
  | none => throw .refused

def assign (env : Env N) (c : Circuit N) : Outcome (Circuit N) := do
  let r ← c.register.assign env
  return ⟨r, ← c.sequence.assign env⟩

def scanRecords (env : Env N) (c : Circuit N) : Outcome (Env N) := c.sequence.scanRecords env

/-- Whether the circuit is constant in time, and the circuit of its final values. -/
def constancy (c : Circuit N) : Outcome (Bool × Circuit N) := do
  match c.sequence with
  | .pulses ps =>
    let (known, ps) ← Constancy.pulses env {} ps
    return (known.constant, ⟨c.register, .pulses ps⟩)
  | _ => throw (.plain .notImplemented)

/-! ### Text -/

def tree (c : Circuit N) : Tree :=
  .named "AnalogCircuit" [("register", c.register.tree), ("sequence", c.sequence.tree)]

def text (c : Circuit N) : Outcome String := do
  let r ← c.register.shownText
  return r ++ "\n" ++ (← c.sequence.tree.render)

/-- Circuits have no saved form; the parts that have none either come first. -/
def saved (c : Circuit N) : Outcome Json := do
  let _ ← c.sequence.saved
  let _ ← c.register.saved
  throw .part

end Circuit

end AtomArray
