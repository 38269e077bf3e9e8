import AtomArray.Wire.Task
import AtomArray.Saved.Legacy

/-!
Requests that run tasks locally, and saved batches.
-/

namespace AtomArray.Wire

variable (request : Json)

/-! ### Named options -/

inductive OptionSort where
  | whole
  | binary
  | flag
  | text
  | literals
  | orNone (s : OptionSort)

/-- Does a value suit an option? A truth value is also a whole number. -/
def OptionSort.suits : OptionSort → Json → Bool
  | whole, .int _ | whole, .bool _ => true
  | binary, .binary _ => true
  | flag, .bool _ => true
  | text, .str _ => true
  | literals, .obj [("tuple", .arr xs)] => xs.all fun
    | .int _ | .bool _ | .binary _ => true
    | _ => false
  | orNone _, .null => true
  | orNone s, j => s.suits j
  | _, _ => false

def optionValue : Json → Json
  | .obj [("raw", v)] => v
  | j => j

abbrev Options := Members

def readOptions (j : Json) : Options := j.members.map fun (k, v) => (k, optionValue v)

/-- Checks named options: first the values of those that are known, then that the others may be
given as well. -/
def checkOptions (known : List (String × OptionSort)) (open_ : Bool) (options : Options) :
    Outcome Unit := do
  for (k, v) in options do
    if let some s := known.lookup k then
      if !s.suits v then throw .argument
  if !open_ && options.any fun (k, _) => (known.lookup k).isNone then throw .type

variable (options : Options)

def flagOption (key : String) : Bool :=
  ((options.lookup key).bind Json.bool?).getD false

def checkArguments (args : List Json) : Outcome Unit :=
  if OptionSort.literals.suits (.obj [("tuple", .arr args)]) then .ok () else .error .argument

def poolOptions : List (String × OptionSort) :=
  [("multiprocessing", .flag), ("num_workers", .orNone .whole)]

def workersOption : Option Int :=
  match options.lookup "num_workers" with
  | some (.int i) => some i
  | some (.bool b) => some (if b then 1 else 0)
  | _ => none

def emulatorOptions : List (String × OptionSort) :=
  [("args", .literals), ("name", .orNone .text), ("blockade_radius", .binary),
    ("interaction_picture", .flag), ("cache_matrices", .flag), ("solver_name", .text),
    ("atol", .binary), ("rtol", .binary), ("nsteps", .whole)] ++ poolOptions

def methodOptions : List String :=
  ["solver_name", "atol", "rtol", "nsteps", "interaction_picture"]

def optionMethod : Hamiltonian.Method where
  solver := ((options.lookup "solver_name").bind Json.str?).getD "dop853"
  steps := ((options.lookup "nsteps").bind Json.nat?).getD 2147483647
  interactionPicture := flagOption options "interaction_picture"

variable (c : Chain)

def runEmulator (shots : Json) (args : List Json) (options : Options)
    (draws : List Float) : Outcome LocalBatch := do
  c.demand .device
  let r ← c.routine
  if !OptionSort.whole.suits shots then throw .argument
  checkOptions emulatorOptions false options
  let pool := flagOption options "multiprocessing"
  let keep := flagOption options "cache_matrices"
  if pool && keep then throw .workersAndCache
  let radius ← readRadius ((options.lookup "blockade_radius").getD .null)
  let args :=
    match options.lookup "args" with
    | some (.obj [("tuple", .arr xs)]) => xs
    | _ => args
  let jobs ← r.emulatorJobs radius ((Json.asWhole shots).toOption.getD 0) (args.map rawParam)
  let batch := LocalBatch.ofTasks (jobs.map EmulatorJob.task)
    ((options.lookup "name").bind Json.str?)
  let bench : Bench := ⟨if keep then some {} else none, draws⟩
  ((batch.run pool (workersOption options)
    (LocalTask.emulate (optionMethod options))).run bench).1

/-! ### Requests -/

def wholeProgram : Outcome Chain :=
  match readProgram request["steps"] with
  | .ok (c, _) => .ok c
  | .error b => .error b.cause

def readDraws (j : Json) : List Float := j.items.map readReal

def sampleAnswer (opts : Json) : Answer := do
  let given (key option : String) : Options :=
    ((opts.get? key).map fun v => (option, v)).toList
  let options := given "radius" "blockade_radius" ++ given "interaction" "interaction_picture"
    ++ given "cache" "cache_matrices" ++ given "solver" "solver_name"
  let b ← runEmulator c ((opts.get? "shots").getD (.int 1)) [] options
    (readDraws opts["uniforms"])
  return reportForm (← b.report)

def tryRunAnswer (opts : Json) : Answer := do
  let _ ← runEmulator c (.int 1) [] (readOptions opts) (List.replicate 4096 0.5)
  return .str "LocalBatch"

def rerunEmulator (b : LocalBatch) (options : Options) (draws : List Float) :
    Outcome LocalBatch := do
  checkOptions poolOptions true options
  let rest := options.filter fun (k, _) => (poolOptions.lookup k).isNone
  let run (t : LocalTask) : Session Bench LocalTask :=
    if rest.all fun (k, _) => methodOptions.contains k then t.emulate (optionMethod rest)
    else throw .type
  ((b.run (flagOption options "multiprocessing") (workersOption options) run).run
    ⟨none, draws⟩).1

/-! ### Saved batches -/

inductive Savable where
  | remote (b : RemoteBatch Backend)
  | here (b : LocalBatch)
  | errors (es : BatchErrors)
  | plain (j : Json)

def Savable.document : Savable → Document
  | remote b => b.document
  | here b => b.document
  | errors es => es.document
  | plain _ => .null

def dumpAnswer (d : Document) : Answer := d.dump.map .str

def redumpAnswer (d : Document) : Answer := do
  dumpAnswer (← Document.parse (← d.dump))

def backendClass : Backend → String
  | .queue _ => "QuEraBackend"
  | .mock _ => "MockBackend"
  | .cloud _ => "BraketBackend"

def familyClass : TaskFamily → String
  | .queue => "QuEraTask"
  | .cloud => "BraketTask"

def legacyText : Savable → Outcome String
  | .remote b => do return (← Legacy.save b).text
  | .here b => do return (← Legacy.saveLocal b).text
  | .errors _ => .error .value
  | .plain j => .ok j.text

def legacyTasks (t : String) (extra : Members) : Savable → Outcome (String × List Json × Json)
  | .remote _ => do
    let b ← Legacy.load extra (← readText t)
    return ("RemoteBatch",
      b.tasks.map fun (k, t) => .arr [.int k, .str (familyClass t.family), envForm t.metadata],
      match b.tasks.head? with
      | some (_, t) => .arr [.str (backendClass t.service), t.service.record]
      | none => .null)
  | .here _ => do
    let b ← Legacy.loadLocal (← readText t)
    return ("LocalBatch",
      b.tasks.map fun (k, t) => .arr [.int k, .str "BraketEmulatorTask", envForm t.metadata],
      .null)
  | _ => .error .part

def legacyAnswer (extra : Members) (s : Savable) : Answer := do
  let t ← legacyText s
  let (cls, tasks, backend) ← legacyTasks t extra s
  return node t [.str cls, .arr tasks, backend]

def remoteTasks (backend : Backend) (jobs : List (HardwareJob Quantity)) :
    Numbered (RemoteTask Backend) :=
  jobs.zipIdx.map fun (j, i) =>
    let t : RemoteTask Backend :=
      { family := .queue, id := none, service := backend, spec := j.spec, metadata := j.metadata
        decoder := j.decoder }
    ((i : Int), match backend with
      | .cloud _ => { t with family := .cloud, results := none }
      | _ => t)

def compiledBatch (backend shots args : Json) : Outcome Savable := do
  match backend with
  | .str "python" =>
    let jobs ← emulatorJobs c .null shots args
    return .here (LocalBatch.ofTasks (jobs.map EmulatorJob.task) none)
  | .str "braket" => return .remote ⟨remoteTasks (.cloud {}) (← hardwareJobs c shots args), none⟩
  | _ => return .remote ⟨remoteTasks (.mock {}) (← hardwareJobs c shots args), none⟩

inductive FileState where
  | missing
  | holds (t : String)
  | broken

def fileAnswer (s : Savable) (file : FileState) (q : Question) : Answer × FileState :=
  match q.name with
  | "path" =>
    match s, s.document.dump with
    | _, .ok t => (.ok (.str t), .holds t)
    | .plain _, .error f => (.error f, file)
    | _, .error f => (.error f, .broken)
  | "handle" => (redumpAnswer s.document, file)
  | "load" =>
    match file with
    | .missing => (.error (.plain .missingFile), file)
    | .broken => (.error (.plain .malformedJson), file)
    | .holds t => (do dumpAnswer (← Document.parse t), file)
  | "missing" => (.error (.plain .missingFile), file)
  | "legacy" => (legacyAnswer [] s, file)
  | _ => (.error badRequest, file)

/-! ### Chains -/

def programQuestion (names : List String) (q : Question) : Answer :=
  match q.name with
  | "sample" => sampleAnswer c (q.arg 0)
  | "run_bad" => tryRunAnswer c (q.arg 0)
  | "dumps" => do dumpAnswer (← compiledBatch c (q.arg 0) (q.arg 1) .null).document
  | "redump" => do redumpAnswer (← compiledBatch c (q.arg 0) (q.arg 1) .null).document
  | _ => chainQuestion c names q

/-- The answers about a chain. If its circuit cannot be read, that is said once instead of the
answers about the circuit. -/
def chainAnswers (names : List String) (env : Env) (qs : List Question) : Members :=
  match c.circuit with
  | .ok circuit => answers qs fun q =>
    if circuitQuestions.contains q.name then circuitQuestion circuit env q
    else programQuestion c names q
  | .error f =>
    let others := qs.filter fun q => !circuitQuestions.contains q.name
    ("circuit", fault f) :: answers others (programQuestion c names)

def chainRequest : Answer := do
  let env ← readEnv request["env"]
  match readProgram request["steps"] with
  | .error b => return brokenForm b
  | .ok (c, names) => return .obj (chainAnswers c names env (questions request ["circuit"]))

end AtomArray.Wire
