import AtomArray.Chain.Params

/-!
What a chain stands for: a register, a sequence, and how its parameters are supplied.

A drive is a modulation followed by waveforms. Its field is the field step right before the
modulation, or else that of the drive before; likewise the transition. A ready-made sequence is
taken as it is, but only right after the register.
-/

namespace AtomArray

/-- A program with its parameters. -/
structure Routine (N : Type) where
  circuit : Circuit N
  params : Params N

def Routine.text {N : Type} [Arith N] (r : Routine N) : Outcome String := do
  return "Routine\n" ++ (← r.circuit.text) ++ "\n---------------------\n" ++ r.params.text

namespace Chain

variable {N : Type} [Arith N]

/-! ### Waveforms -/

/-- Pieces joined one after the other; there must be one. -/
def joinPieces : List (Waveform N) → Outcome (Waveform N)
  | [] => .error .type
  | w :: ws => ws.foldlM Waveform.join w

def lines : List (Scalar N) → List (Scalar N) → List (Waveform N)
  | d :: ds, a :: b :: vs => .linear a b d :: lines ds (b :: vs)
  | _, _ => []

def shape? : Step N → Option (Outcome (Waveform N))
  | .linear a b d => some (.ok (.linear a b d))
  | .constant v d => some (.ok (.constant v d))
  | .poly cs d => some (.ok (.poly cs d))
  | .apply w => some (.ok w)
  | .piecewiseLinear ds vs => some (joinPieces (lines ds vs))
  | .piecewiseConstant ds vs => some (joinPieces ((ds.zip vs).map fun (d, v) => .constant v d))
  | .profile p d => some (Waveform.ofProfile p d)
  | _ => none

/-- A waveform after what was there before. -/
def joinTo (before : Option (Waveform N)) (w : Waveform N) : Outcome (Waveform N) :=
  match before with
  | none => .ok w
  | some v => v.join w

/-- How a sampled profile is interpolated unless the program says so. -/
def standardInterpolation : FieldName → Interpolation
  | .phase => .constant
  | _ => .linear

def readWaveform (field : FieldName) :
    Option (Waveform N) → List (Step N) → Outcome (Option (Waveform N))
  | before, .profile p d :: .sample dt i :: rest => do
    let body ← Waveform.ofProfile p d
    let i := i.getD (standardInterpolation field)
    readWaveform field (some (← joinTo before (.sample body i dt))) rest
  | before, .slice a b :: rest => do
    let some w := before | throw .type
    if a.isNone && b.isNone then throw .sliceWithoutBounds
    readWaveform field (some (.slice w ⟨a, b⟩)) rest
  | before, .record n :: rest => do
    let some w := before | throw .part
    readWaveform field (some (.record w n)) rest
  | before, step :: rest =>
    match shape? step with
    | some w => do readWaveform field (some (← joinTo before (← w))) rest
    | none => .ok before
  | before, [] => .ok before

/-! ### Drives -/

def modulation? : Step N → Option (Outcome (Modulation N))
  | .uniform => some (.ok .uniform)
  | .location s => some (.ok (.scaled s))
  | .vector n => some (.ok (.vector n))
  | .values vs => some do return .boundVector none (← vs.mapM Param.stored?)
  | _ => none

def fieldName? : Step N → Option FieldName
  | .detuning => some .detuning
  | .amplitude => some .amplitude
  | .phase => some .phase
  | _ => none

def coupling? : Step N → Option Coupling
  | .rydberg => some .rydberg
  | .hyperfine => some .hyperfine
  | _ => none

/-- The field and the transition that the steps before a modulation name, the last step first. -/
def address : List (Step N) → Option FieldName × Option Coupling
  | f :: before =>
    match fieldName? f with
    | some .detuning => (some .detuning, before.head? >>= coupling?)
    | some n => (some n, before.tail.head? >>= coupling?)
    | none => (none, none)
  | [] => (none, none)

/-- The drives read so far, and where the next one goes unless it says so. -/
structure Reading (N : Type) where
  sequence : List (Coupling × Pulse N) := []
  coupling : Option Coupling := none
  field : Option FieldName := none

def pulseFields : Pulse N → List (FieldName × Field N)
  | .fields ms => ms
  | _ => []

def addDrive (r : Reading N) (m : Outcome (Modulation N)) (after : List (Step N)) :
    Outcome (Reading N) := do
  let some coupling := r.coupling | throw .part
  let some name := r.field | throw .part
  let fields := ((r.sequence.lookup coupling).map pulseFields).getD []
  let field := (fields.lookup name).getD ⟨[]⟩
  let m ← m
  let some w ← readWaveform name none after | throw .refused
  let field ← field.plus (.ofDrives [(m, w)])
  return { r with sequence := setMember coupling (.fields (setMember name field fields)) r.sequence }

/-- Reads the drives of the steps after those in `before`, which stand in reverse order. -/
def readDrives (r : Reading N) (before : List (Step N)) : List (Step N) → Outcome (Reading N)
  | [] => .ok r
  | step :: rest => do
    match modulation? step with
    | some m =>
      let (field, coupling) := address before
      let r := { r with field := field <|> r.field, coupling := coupling <|> r.coupling }
      readDrives (← addDrive r m rest) (step :: before) rest
    | none => readDrives r (step :: before) rest

/-! ### Sequences and circuits -/

/-- What is left to read of a chain: the register, unless it was read, and the steps from some place
on. -/
structure Unread (N : Type) where
  register : Option (Register N)
  steps : List (Step N)

variable (c : Chain N)

def unread : Unread N := ⟨some c.register, c.steps⟩

def Unread.takeRegister (u : Unread N) : Outcome (Register N × Unread N) :=
  match u.register with
  | some r => .ok (r, ⟨none, u.steps⟩)
  | none => .error .part

/-- Reads the sequence. If a ready-made one comes next it is taken as it is; otherwise the drives of
all further steps are added up. At the end of a chain nothing is left to read. -/
def Unread.sequence (u : Unread N) : Outcome (Sequence N) :=
  match u.register, u.steps with
  | none, [] => .error .part
  | none, .sequence s :: _ => .ok s
  | _, steps => do return .pulses (← readDrives {} [] steps).sequence

def sequence (c : Chain N) : Outcome (Sequence N) := c.unread.sequence

/-- The circuit of a chain. A register alone has none. -/
def circuit : Outcome (Circuit N) := do
  let (register, rest) ← c.unread.takeRegister
  return ⟨.plain register, ← rest.sequence⟩

/-! ### Parameters -/

/-- Is this a step that supplies parameters or repeats the register? -/
def isPragma (s : Step N) : Bool :=
  match s.sort with
  | .assign | .batch | .args | .parallelize => true
  | _ => false

/-- The names that come again in a list, once for each time. -/
def repeated : List String → List String → List String
  | _, [] => []
  | seen, n :: ns => if seen.contains n then n :: repeated seen ns else repeated (n :: seen) ns

def listText (ns : List String) : String := "[" ++ String.intercalate ", " (ns.map quoted) ++ "]"

/-- Takes in a step that supplies parameters. -/
def addPragma (state : Arrangement N × Params N) (s : Step N) :
    Outcome (Arrangement N × Params N) := do
  let (register, params) := state
  match s with
  | .assign env => return (register, { params with fixed := env })
  | .columns rows | .batch rows => return (register, { params with batch := rows })
  | .args names =>
    let again := repeated [] names
    if !again.isEmpty then throw (.duplicateNames (listText again))
    return (register, { params with args := names })
  | .parallelize spacing =>
    match register with
    | .plain r => return (.tiled (← Tiling.ofRegister r spacing), params)
    | .tiled _ => throw .part
  | _ => return state

/-- The steps that supply parameters, from the first of them on. -/
def pragmas : List (Step N) :=
  (c.steps.dropWhile fun s => !isPragma s).takeWhile isPragma

def settings : Outcome (Arrangement N × Params N) :=
  c.pragmas.foldlM addPragma (.plain c.register, {})

def arrangement : Outcome (Arrangement N) := do return (← c.settings).1

def routine : Outcome (Routine N) := do
  let circuit ← c.circuit
  let (register, params) ← c.settings
  return ⟨⟨register, circuit.sequence⟩, params⟩

def atomCount (c : Chain N) : Outcome Int := do
  match ← c.arrangement with
  | .plain r => r.atomCount
  | .tiled t => t.register.atomCount

/-! ### Supplying parameters -/

def paramRules : Outcome (CircuitNames × Outcome ParamRules) := do
  let circuit ← c.circuit
  let names ← circuit.names
  return (names, do return ⟨← c.register.siteCount, names⟩)

def assign (env : Env N) : Outcome (Chain N) := do
  let (_, rules) ← c.paramRules
  return c.push (.assign (← (← rules).checkAll env))

def assignColumns (env : Env N) : Outcome (Chain N) := do
  if env.isEmpty then return c.push (.columns [])
  let (_, rules) ← c.paramRules
  let rows ← columnRows env
  let rules ← rules
  return c.push (.columns (← rows.mapM rules.checkAll))

def assignBatch (rows : List (Env N)) : Outcome (Chain N) := do
  let (_, rules) ← c.paramRules
  let rules ← rules
  checkBatchNames rows
  return c.push (.batch (← rows.mapM rules.checkAll))

/-- Adds a field that acts on all atoms alike; nothing is added if there is no waveform. -/
def driveUniformly (o : Offer) (fields : List (Step N)) (w : Option (Waveform N)) (c : Chain N) :
    Outcome (Chain N) :=
  match w with
  | none => .ok c
  | some w => do
    c.demand o
    return { c with steps := c.steps ++ fields ++ [.uniform, .apply w] }

/-- The chain that drives the Rydberg transition of all atoms alike. The amplitude and the phase
follow another field, so one of them alone has nothing to follow. -/
def uniform (r : Register N) (detuning amplitude phase : Option (Waveform N)) :
    Outcome (Chain N) := do
  let c ← driveUniformly .coupling [.rydberg, .detuning] detuning ⟨r, []⟩
  let c ← driveUniformly .rabi [.amplitude] amplitude c
  driveUniformly .rabi [.phase] phase c

/-- Supplies the parameters of a chain: fixed ones, a batch by columns or by rows, and the names of
those that are left for later. -/
def supply (c : Chain N) (fixed : Env N) (batch : Env N ⊕ List (Env N)) (args : List String) :
    Outcome (Chain N) := do
  c.demand .assign
  let c ← c.assign fixed
  let c ← match batch with
    | .inl columns => c.assignColumns columns
    | .inr [] => c.assignColumns []
    | .inr rows => c.assignBatch rows
  return c.push (.args args)

end Chain

end AtomArray
