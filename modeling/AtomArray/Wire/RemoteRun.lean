import AtomArray.Wire.LocalRun
import AtomArray.Wire.Station

/-!
Requests that run a chain on a service or in the simulator of the cloud.
-/

namespace AtomArray.Wire

variable (request : Json)

def remoteOptions : List (String × OptionSort) := [("name", .orNone .text), ("shuffle", .flag)]

/-- Compiles a chain for a backend, hands its tasks in, and pulls their results unless they are
not waited for. -/
def runRemote {σ : Type} (c : Chain) (backend : Backend) (serve : Backend → Service σ)
    (limits : Session σ (Capabilities Quantity)) (request : Json) :
    Session σ (RemoteBatch Backend) := do
  let shots := readShots request["shots"]
  let options := readOptions request["kw"]
  if !OptionSort.whole.suits shots then throw .argument
  checkArguments request["args"].items
  checkOptions remoteOptions true options
  let jobs ← limitedJobs (← limits) c shots request["args"]
  let batch : RemoteBatch Backend :=
    ⟨remoteTasks backend jobs, (options.lookup "name").bind Json.str?⟩
  let rest := options.filter fun (k, _) => k ≠ "name" && k ≠ "shuffle"
  let (o, r) := submitWith serve id (flagOption options "shuffle") rest
    (⟨batch, ← get, []⟩ : BatchRun Backend σ)
  set r.world
  o
  if request["how"].str? = some "async" then return r.batch
  let (o, batch, world) := r.batch.pull serve r.world
  set world
  o
  return batch

/-- Answers that are given only if the request asks for them. -/
def answersIf (key : String) (standard : Bool) (answers : List (String × Answer)) : Members :=
  if ((request.get? key).map isTruthy).getD standard then
    answers.map fun (k, o) => (k, outcome o)
  else []

def remoteAnswers (b : RemoteBatch Backend) : Members :=
  [("tasks", each b.tasks fun (_, t) => taskState t)]
    ++ answersIf request "report" true [("report", b.report.map reportForm)]
    ++ answersIf request "dumps" false [("dumps", dumpAnswer b.document)]

/-! ### Remote services -/

/-- The settings of a queue that are given directly, over those of a file. -/
def queueDevice (request options : Json) : Outcome Backend := do
  let file := request["config"].members
  return .queue (← QueueSettings.ofRecord (.obj (Json.merge file options.members)))

def readDevice (request : Json) (name : String) (options : Json) : Outcome Backend := do
  let plain (b : Outcome Backend) : Outcome Backend :=
    if options.members.isEmpty then b else .error .type
  match name with
  | "quera.device" => queueDevice request options
  | "quera.aquila" => plain (do return .queue (← QueueSettings.named "Aquila"))
  | "quera.cloud_mock" => plain (do return .queue (← QueueSettings.named "Mock"))
  | "quera.mock" => do
    checkOptions [("state_file", .text), ("submission_error", .flag)] false options.members
    return .mock (← MockSettings.ofRecord (.obj options.members))
  | "braket.aquila" => plain (.ok (.cloud {}))
  | _ => throw .part

def checkDeviceName (name : String) : Outcome Unit :=
  if ["quera.aquila", "braket.aquila", "braket.local_emulator", "bloqade.python",
    "bloqade.julia"].contains name then .ok ()
  else .error (.unknownDevice name)

def routineClass : Backend → String
  | .cloud _ => "BraketHardwareRoutine"
  | _ => "QuEraHardwareRoutine"

/-- What a device can do. Only a queue has to be asked. -/
def stationLimits : Backend → Session Station (Capabilities Quantity)
  | .queue s => s.client.limits Station.transport
  | _ => return Capabilities.standard

def remoteRequest : Answer := do
  let c ← wholeProgram request
  let q := Question.ofJson request["device"]
  if isTruthy request["by_name"] then checkDeviceName q.name
  if !isTruthy request["parsed"] then c.demand .device
  let _ ← c.routine
  let backend ← readDevice request q.name (q.arg 0)
  let cls := ("class", Json.str (routineClass backend))
  if request["how"].str? = some "none" then
    return .obj [cls, ("backend", .str (backendClass backend))]
  let (o, s) := (runRemote c backend Station.serve (stationLimits backend) request).run
    (Station.ofRequest request)
  let common := [cls, ("log", .arr s.calls), ("http", .arr s.requests)]
  match o with
  | .error f => return .obj (("run", fault f) :: common)
  | .ok b =>
    let legacy := legacyAnswer request["credentials"].members (.remote b)
    return .obj (("run", .null) :: common ++ remoteAnswers request b
      ++ answersIf request "legacy" false [("legacy", legacy)])

/-! ### The simulator of the cloud -/

/-- The readings that the simulator will give, and its runs so far. -/
structure Simulator where
  results : List Json
  runs : List Json := []

def simulate (options : Options) (t : LocalTask) : Session Simulator LocalTask := do
  match t.work with
  | .emulator .. => throw .type
  | .simulator spec =>
    modify fun s =>
      { s with runs := s.runs ++ [node "braket_ahs" [.int spec.shots, .obj options]] }
    match (← get).results with
    | [] => throw (.scriptEnded "results")
    | r :: rest =>
      modify fun s => { s with results := rest }
      let readings ← r.items.mapM fun x => (Station.reading x : Outcome (Bits × Bits))
      return { t with results := some (.ofReadings readings) }

def simulateBatch (options : Options) (b : LocalBatch) : Session Simulator LocalBatch := do
  let rest := options.filter fun (k, _) => (poolOptions.lookup k).isNone
  b.run (flagOption options "multiprocessing") (workersOption options) (simulate rest)

def simulatorBatch (c : Chain) (shots args : Json) (name : Option String) : Outcome LocalBatch := do
  let n := Json.asWhole shots
  let jobs ← (← c.routine).simulatorJobs (n.toOption.getD 0) (readArguments args)
  if !jobs.isEmpty then let _ ← n
  return .ofTasks (jobs.map fun j => ⟨.simulator j.spec, j.metadata, none⟩) name

def simulatorForm (s : TaskSpec) : Json :=
  let uniform (t : TimeSeries Quantity) : Json :=
    node "uniform" (seriesRecords t.times t.values)
  .obj [("nshots", .int s.shots), ("sites", pointsForm s.sites),
    ("filling", each s.filling .int),
    ("driving", .arr [.arr [uniform s.amplitude, uniform s.phase, uniform s.detuning]])]

def simulatorAnswers (b : LocalBatch) : Members :=
  let tasks := b.tasks.map (·.2)
  let programs := tasks.filterMap fun t =>
    match t.work with
    | .simulator s => some (simulatorForm s)
    | .emulator .. => none
  [("programs", .arr programs), ("metadata", each tasks fun t => envForm t.metadata),
    ("results", each tasks fun t => outcome (t.result.map resultsForm)),
    ("geometry", each tasks fun t => geometryAnswer t.geometry)]
    ++ answersIf request "report" true [("report", b.report.map reportForm)]
    ++ answersIf request "dumps" false
      [("dumps", dumpAnswer b.document), ("redump", redumpAnswer b.document)]
    ++ answersIf request "legacy" false [("legacy", legacyAnswer [] (.here b))]

def simulatorRequest : Answer := do
  let c ← wholeProgram request
  c.demand .device
  let shots := readShots request["shots"]
  let options := readOptions request["kw"]
  let world : Simulator := ⟨request["results"].items, []⟩
  if request["how"].str? = some "compile" then
    let b ← simulatorBatch c shots request["args"] none
    return .obj (("log", .arr []) :: simulatorAnswers request b)
  let _ ← c.routine
  if !OptionSort.whole.suits shots then throw .argument
  checkArguments request["args"].items
  checkOptions (("name", .orNone .text) :: poolOptions) true options
  let b ← simulatorBatch c shots request["args"] ((options.lookup "name").bind Json.str?)
  let (o, s) := (simulateBatch (options.filter (·.1 ≠ "name")) b).run world
  let b ← o
  let shown := simulatorAnswers request b
  match request.get? "rerun" with
  | none => return .obj (("log", .arr s.runs) :: shown)
  | some kw =>
    let again : Session Simulator LocalBatch := do
      checkOptions poolOptions true (readOptions kw)
      simulateBatch (readOptions kw) b
    let (o, s) := again.run s
    let report := outcome (do return reportForm (← (← o).report))
    return .obj (("log", .arr s.runs) :: shown ++ [("rerun", report)])

end AtomArray.Wire
