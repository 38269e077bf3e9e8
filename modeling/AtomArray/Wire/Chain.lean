import AtomArray.Wire.CircuitRequest
import AtomArray.Chain.Compile

/-!
Programs written as chains of steps, in requests.

`readProgram` reads the steps one after the other. A step that fails ends the reading; what was read
before, and the number of the step, go with the fault (`BrokenChain`).
-/

namespace AtomArray.Wire

abbrev Chain := AtomArray.Chain Quantity

variable (j : Json)

def listArgument : Outcome Value :=
  match j with
  | .obj [("list", .arr xs)] => do return .list (← xs.mapM readArg)
  | j => readArg j

def isWhole : Value → Bool
  | .whole _ | .flag _ => true
  | _ => false

/-- The weights of labels: one label with one weight, or a list of each; a weight that is not
given is one. -/
def readLocation (labels scales : Value) : Outcome (Scales Quantity) := do
  let pairs ← match labels, scales with
    | .list ls, .none =>
      if ls.all isWhole then pure (ls.map (·, Value.whole 1)) else throw .argument
    | .list ls, .list ss =>
      if ls.all isWhole && ss.all Value.isScalarLike then pure (ls.zip ss) else throw .argument
    | l, .none => if isWhole l then pure [(l, Value.whole 1)] else throw .argument
    | l, s => if isWhole l && s.isScalarLike then pure [(l, s)] else throw .argument
  let weighted ← pairs.mapM fun (l, s) => do return (← wholeArgument l, ← s.castScalar)
  return .ofPairs weighted

def readScaleStep : Value → Outcome (Step Quantity)
  | .text n => .ok (.vector n)
  | .list vs => if vs.all Value.isNumber then .ok (.values (vs.map paramOf)) else .error .argument
  | _ => .error .argument

def readScalarList : Outcome (List Value) := do
  let vs ← readArgList j
  if vs.all Value.isScalarLike then return vs else throw .argument

def readSliceBound (v : Value) : Outcome (Option Scalar) :=
  match v with
  | .none => .ok none
  | v => do return some (← v.castScalar)

def readArgName : Outcome String := do
  match ← readArg j with
  | .text n => return n
  | .scalar (.var n) => return n
  | _ => throw .argument

def readRows : Outcome (List Env) := j.items.mapM readEnv

def readStep (c : Chain) (step : Json) : Outcome Chain := do
  let next (o : Offer) (s : Outcome (Step Quantity)) : Outcome Chain := do
    c.demand o
    return c.push (← s)
  let plain (o : Offer) (s : Step Quantity) : Outcome Chain := next o (.ok s)
  let scalars (js : List Json) (f : List Scalar → Option (Step Quantity)) :=
    next .shape do required badRequest (f (← scalarArguments (← js.mapM readArg)))
  match step with
  | .str "rydberg" => plain .coupling .rydberg
  | .str "hyperfine" => plain .coupling .hyperfine
  | .str "detuning" => plain .drive .detuning
  | .str "rabi" => plain .drive .rabi
  | .str "amplitude" => plain .rabi .amplitude
  | .str "phase" => plain .rabi .phase
  | .str "uniform" => plain .modulation .uniform
  | node "location" (labels :: rest) => next .modulation do
    return .location (← readLocation (rawArgument labels) (← listArgument (rest.headD .null)))
  | node "scale" [v] => do
    if c.steps.isEmpty then
      return { c with register := ← c.register.scale (← (← readArg v).scalarArgument) }
    next .modulation do readScaleStep (← listArgument v)
  | node "linear" args => scalars args fun
    | [a, b, d] => some (.linear a b d)
    | _ => none
  | node "constant" args => scalars args fun
    | [v, d] => some (.constant v d)
    | _ => none
  | node "poly" [cs, d] => next .shape do
    let cs ← readScalarList cs
    let d ← readArg d
    if !d.isScalarLike then throw .argument
    return .poly (← cs.mapM Value.castScalar) (← d.castScalar)
  | node "apply" [w] => do
    if c.offers .sequence then throw .argument
    next .shape do return .apply (← required .argument (← readWaveform? w))
  | node "apply_seq" [s] => do
    if c.offers .shape then throw .argument
    next .sequence do return .sequence (← readSequence s)
  | node "piecewise_linear" [ds, vs] => next .shape do
    let ds ← readScalarList ds
    let vs ← readScalarList vs
    if ds.length + 1 ≠ vs.length then throw (.plain .brokenPromise)
    return .piecewiseLinear (← ds.mapM Value.castScalar) (← vs.mapM Value.castScalar)
  | node "piecewise_constant" [ds, vs] => next .shape do
    let ds ← readScalarList ds
    let vs ← readScalarList vs
    if ds.length ≠ vs.length then throw .unequalLengths
    return .piecewiseConstant (← ds.mapM Value.castScalar) (← vs.mapM Value.castScalar)
  | node "fn" [.str name, d] => next .shape do
    let d ← readArg d
    return .profile (← required badRequest (Profile.ofName? name)) (← d.scalarArgument)
  | node "sample" (dt :: rest) => next .sample do
    let dt ← readArg dt
    if !dt.isScalarLike then throw .argument
    match rest.headD .null with
    | .null => return .sample (← dt.castScalar) none
    | .str i =>
      return .sample (← dt.castScalar) (some (← required .value (Interpolation.ofName? i)))
    | _ => throw .argument
  | node "slice" args => next .slice do
    let a ← readArg (args.getD 0 .null)
    let b ← readArg (args.getD 1 .null)
    let isBound (v : Value) : Bool := v matches .none || v.isScalarLike
    if !(isBound a && isBound b) then throw .argument
    return .slice (← readSliceBound a) (← readSliceBound b)
  | node "record" [n] => next .record do
    match ← readArg n with
    | .text s =>
      match ← (Scalar.named s : Outcome Scalar) with
      | .var n => return .record n
      | _ => throw Fault.refused
    | _ => throw Fault.argument
  | node "assign" [env] => do
    c.demand .assign
    c.assign (← readEnv env)
  | node "batch_assign" [.obj env] => do
    c.demand .batch
    c.assignColumns (← readEnv (.obj env))
  | node "batch_assign" (rows :: rest) => do
    c.demand .batch
    let rows ← readRows rows
    let extra ← readEnv (rest.headD .null)
    if !rows.isEmpty && !extra.isEmpty then throw .batchFormsMixed
    if rows.isEmpty then c.assignColumns extra else c.assignBatch rows
  | node "args" [names] => next .args do return .args (← names.items.mapM readArgName)
  | node "parallelize" [v] => next .parallelize do
    let v ← readArg v
    if !v.isNumber then throw .argument
    return .parallelize (← v.castScalar)
  | node "add_position" (position :: rest) => do
    if !c.steps.isEmpty then throw .part
    let filling := rawArgument (rest.headD .null)
    return { c with register := ← addPosition c.register (← readPosition position) filling }
  | .str _ => throw .part
  | .arr (.str _ :: _) => throw .part
  | _ => throw badRequest

structure BrokenChain where
  names : List String
  position : Nat
  cause : Fault

/-- Reads steps; the names of the parts are collected on the way. -/
def readSteps (c : Chain) (names : List String) (position : Nat) :
    List Json → Except BrokenChain (Chain × List String)
  | [] => .ok (c, names)
  | step :: rest =>
    match readStep c step with
    | .ok next =>
      let name :=
        match next.steps.getLast? with
        | some s => s.name
        | none => next.register.className
      readSteps next (names ++ [name]) (position + 1) rest
    | .error f => .error ⟨names, position, f⟩

def readProgram (steps : Json) : Except BrokenChain (Chain × List String) :=
  match steps.items with
  | [] => .error ⟨[], 0, badRequest⟩
  | register :: rest =>
    match readPlainRegister register with
    | .ok r => readSteps ⟨r, []⟩ [r.className] 1 rest
    | .error f => .error ⟨[], 0, f⟩

def brokenForm (b : BrokenChain) : Json :=
  .obj ([("nodes", each b.names .str), ("at", .ofNat b.position)] ++ faultMembers b.cause)

def streamStep (left : List String) (step : Json) : Json × List String :=
  let names (j : Json) : List String := j.items.filterMap Json.str?
  let first (xs : List String) : Json := .ofOption .str xs.head?
  let (found, left) := match step with
    | node "read" _ => (first left, left.tail)
    | node "next" (wanted :: _) =>
      let found := left.dropWhile fun n => !(names wanted).contains n
      (first found, found.tail)
    | node "eat" (wanted :: rest) =>
      let wanted := names wanted
      let skips := names (rest.headD .null)
      let found := left.dropWhile fun n => !wanted.contains n
      let left := found.dropWhile fun n =>
        wanted.contains n || skips.isEmpty || skips.contains n
      (first found, left)
    | node "copy" _ => (first left, left)
    | _ => (each left .str, [])
  (.arr [found, first left], left)

def readArguments (j : Json) : List Param := j.items.map rawParam

def paramsForm (p : Params Quantity) : Json :=
  .obj [("static", envForm p.fixed), ("batch", each p.batch envForm),
    ("args", each p.args .str)]

def readShots (j : Json) : Json := if j.isNull then .int 1 else j

def limitedJobs (limits : Capabilities Quantity) (c : Chain) (shots args : Json) :
    Outcome (List (HardwareJob Quantity)) := do
  c.demand .device
  let r ← c.routine
  let n := Json.asWhole (readShots shots)
  let jobs ← r.hardwareJobs limits (n.toOption.getD 0) (readArguments args)
  if jobs.isEmpty then return []
  let _ ← n
  return jobs

variable (c : Chain)

def hardwareJobs (shots args : Json) : Outcome (List (HardwareJob Quantity)) :=
  limitedJobs Capabilities.standard c shots args

def emulatorJobs (c : Chain) (radius shots args : Json) :
    Outcome (List (EmulatorJob Quantity)) := do
  c.demand .device
  let r ← c.routine
  r.emulatorJobs (← readRadius radius) ((readShots shots).int?.getD 0) (readArguments args)

def pointForm (p : Quantity × Quantity) : Json := .arr [binary p.1.toFloat, binary p.2.toFloat]

def geometryForm (sites : List (Quantity × Quantity)) (filling : List Int)
    (decoder : Option Decoder) : Json :=
  .obj [("sites", each sites pointForm), ("filling", each filling .int),
    ("decoder", .ofOption decoderForm decoder)]

def compileAnswer (q : Question) : Answer := do
  match q.arg 0 with
  | .str "python" =>
    let jobs ← emulatorJobs c ((q.arg 3).getD "blockade_radius") (q.arg 1) (q.arg 2)
    return each jobs.zipIdx fun (j, i) =>
      let sites := j.program.register.sites
      .obj [("task", .ofNat i), ("metadata", envForm j.metadata),
        ("shots", readShots (q.arg 1)), ("emulator", emulatorForm j.program),
        ("geometry", geometryForm sites (sites.map fun _ => 1) none)]
  | _ =>
    let jobs ← hardwareJobs c (q.arg 1) (q.arg 2)
    return each jobs.zipIdx fun (j, i) =>
      .obj [("task", .ofNat i), ("metadata", envForm j.metadata), ("spec", specForm j.spec),
        ("decoder", .ofOption decoderForm j.decoder)]

def firstHamiltonian (radius : Json) : Outcome (Hamiltonian Quantity Float) := do
  match ← emulatorJobs c radius .null .null with
  | [] => throw (.plain .missingKey)
  | j :: _ => soleHamiltonian j.program

def deviceAnswer (q : Question) : Answer := do
  c.demand .device
  let name := (q.arg 0).str?.getD ""
  let args := q.args.drop 1
  let plain (shown : String) : Answer := do
    if !args.isEmpty then throw .type
    let _ ← c.routine
    return .str shown
  match name with
  | "quera.aquila" => plain "QuEraHardwareRoutine"
  | "braket.aquila" => plain "BraketHardwareRoutine"
  | "braket.local_emulator" => plain "BraketLocalEmulatorRoutine"
  | "bloqade.python" => plain "BloqadePythonRoutine"
  | "bloqade.julia" =>
    if args.length = 1 || args.length = 2 then throw (.plain .notImplemented) else throw .type
  | n => throw (.unknownDevice n)

def circuitQuestions : List String :=
  ["circuit", "register", "sequence", "vars", "seq_tree", "seq_str", "circuit_tree",
    "is_constant", "hyperfine", "assign", "scan", "json_sequence", "json_circuit",
    "base_visitor", "eq", "ahs", "emulator"]

def chainQuestion (names : List String) (q : Question) : Answer :=
  match q.name with
  | "nodes" => .ok (each names .str)
  | "parse_register" => c.arrangement.map arrangementForm
  | "parse_sequence" => c.sequence.map sequenceForm
  | "n_atoms" => c.atomCount.map .int
  | "routine" => do return circuitForm (← c.routine).circuit
  | "routine_same" => do
    let r ← c.routine
    return .arr [arrangementForm r.circuit.register, .str "Routine", sequenceForm r.circuit.sequence]
  | "params" => do return paramsForm (← c.routine).params
  | "params_str" => do return .str (← c.routine).params.text
  | "batch_assignments" => do
    let ps ← (← c.routine).params.points (readArguments (q.arg 0))
    return each ps envForm
  | "device" => deviceAnswer c q
  | "stream" => .ok (.arr (inTurn streamStep c.names (q.arg 0).items).1)
  | "compile" => compileAnswer c q
  | "to_braket" => do
    return each (← hardwareJobs c (q.arg 0) .null) fun j => cloudForm j.spec
  | "hamiltonian" => do return hamiltonianForm (← firstHamiltonian c (q.arg 0))
  | "kernel" => do slopeAnswer (← firstHamiltonian c ((q.arg 0).getD "radius")) (q.arg 0)
  | "evolve" => do evolveAnswer (← firstHamiltonian c ((q.arg 0).getD "radius")) (q.arg 0)
  | _ => .error badRequest

end AtomArray.Wire
