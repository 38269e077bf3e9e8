import AtomArray.Wire.Chain
import AtomArray.Task.Submission

/-!
Tasks, batches and reports in requests and answers.

A request scripts the service of a task: it lists the answers to each kind of call, and each call
takes the next.
-/

namespace AtomArray.Wire

open TaskStatus Json

variable (request : Json)

/-! ### Results and reports -/

def bitsForm (bs : Bits) : Json := .ofBits bs

def shotForm (s : Shot) : Json :=
  node s.status.name [bitsForm s.before, bitsForm s.after]

def resultsForm (r : TaskResults) : Json :=
  .obj [("status", .str r.status.name), ("shots", each r.shots shotForm)]

variable (j : Json)

def resultsRecord : Json :=
  let shot (s : Json) : Json :=
    .obj (["shot_status", "pre_sequence", "post_sequence"].zip s.items)
  .obj (((j.get? "status").map fun s => ("task_status", s)).toList ++
    ((j.get? "shots").map fun (ss : Json) => ("shot_outputs", each ss.items shot)).toList)

def readResults : Outcome TaskResults := TaskResults.ofRecord (resultsRecord j)

def cellForm (ragged : Bool) : Option Bool → Json
  | none => .str "nan"
  | some b =>
    if ragged then .binary (if b then 1.0 else 0.0) else .int (if b then 1 else 0)

def geometryAnswer (g : Geometry) : Json := geometryForm g.sites g.filling g.decoder

def firstWord (s : String) : String := String.ofList (s.toList.takeWhile (· ≠ ' '))

def reportForm (r : Report) : Json :=
  let cells (row : List (Option Bool)) : Json := each row (cellForm r.isRagged)
  let tables (ts : List (List (List (Option Bool)))) : Json :=
    each ts fun rows => each rows cells
  let shares (rows : List (List Float)) : Json := each rows fun row => each row binary
  .obj [
    ("index", each r.rows fun row =>
      .arr [.int row.task, clusterForm row.cluster, .str row.wanted, .str row.before]),
    ("data", each r.rows fun row => cells (r.cells row)),
    ("metas", each r.metas envForm),
    ("geos", each r.geometries geometryAnswer),
    ("bitstrings", tables (r.bitstrings true)),
    ("bitstrings_all", tables (r.bitstrings false)),
    ("counts", each r.counts fun cs =>
      each cs fun (t, n) => node t [.ofNat n]),
    ("densities", shares (r.densities true)),
    ("densities_all", shares (r.densities false)),
    ("name", .str (firstWord r.name))]

def listedForm (r : Report) (name : String) : Answer := do
  return each (← r.listParam name) fun
    | .inl s => .str s
    | .inr x => binary x

def resultsRequest : Answer := do
  let old := request["old"].bool?.getD false
  let known := if old then first else all
  let r ← TaskResults.ofRecordAmong known (resultsRecord request["results"])
  return .obj (answers (questions request ["results", "probabilities"]) fun q =>
    match q.name with
    | "results" => .ok (resultsForm r)
    | "probabilities" => .ok (each r.probabilities fun ((before, after), p) =>
      .arr [.arr [.str (Bits.text before), .str (Bits.text after)], binary p])
    | "simulate" =>
      (TaskResults.simulate r.probabilities ((q.arg 0).items.map readReal)).map resultsForm
    | "post_process" => if old then .ok (resultsForm r.fullyFilled) else .error .part
    | "post_process_with" =>
      if !old then .error .part
      else if r.shots.any (·.after.isEmpty) then .error (.plain .outOfRange)
      else .ok (resultsForm { r with shots := [] })
    | _ => .error badRequest)

/-! ### Scripted services -/

/-- The answers that are left for each kind of call. -/
abbrev Script := List (String × List Json)

def readScript : Script := j.members.map fun (k, v) => (k, v.items)

def scriptedKind : String → Kind
  | "ValueError" => .wrongValue
  | "KeyError" => .missingKey
  | "ValidationError" => .invalidRecord
  | name => .other name

def nextScripted (list : String) (s : Script) : Answer × Script :=
  match s.lookup list with
  | some (x :: xs) =>
    let s := insert list xs s
    match x.get? "fail" with
    | some (.str kind) =>
      if list = "validate" && kind = "ValidationError" then
        (.error (.rejected (x["text"].str?.getD "")), s)
      else (.error (.plain (scriptedKind kind)), s)
    | _ => (.ok x, s)
  | _ => (.error (.scriptEnded list), s)

def callScripted (i : Nat) (list : String) : Session (List Script) Json :=
  ExceptT.mk fun ss =>
    let (o, s) := nextScripted list (ss.getD i [])
    (o, ss.set i s)

def scripted (i : Nat) : Service (List Script) where
  submit _ := do
    match ← callScripted i "submit" with
    | .str id => return id
    | _ => throw badRequest
  results _ := do readResults (← callScripted i "results")
  status _ := do
    match ← callScripted i "status" with
    | .str s => ofName s
    | _ => throw .value
  cancel _ := do let _ ← callScripted i "cancel"
  validate _ := do let _ ← callScripted i "validate"

/-- The program of a task in a request: nothing is driven. -/
def restingSpec (shots : Int) (sites : List (Quantity × Quantity)) (filling : List Int) :
    TaskSpec :=
  let time (t : String) : Quantity := .decimal ((Decimal.ofText? t).getD 0)
  let rest : TimeSeries Quantity := ⟨[time "0", time "1e-6"], [time "0", time "0"]⟩
  ⟨shots, sites, filling, rest, rest, rest, none⟩

def readTask (i : Nat) (j : Json) : Outcome (RemoteTask Nat) := do
  let metadata ← readEnv j["metadata"]
  let shots ← asWhole ((j.get? "nshots").getD (.int 1))
  let sites ← asList (asPair asQuantity)
    ((j.get? "sites").getD (.arr [node "0" [.str "0"]]))
  let filling ←
    match j["filling"] with
    | .null => pure (sites.map fun _ => 1)
    | f => asList asWhole f
  let decoder ←
    match j["decoder"] with
    | .null => pure none
    | d => do pure (some (← readDecoder d .null))
  let results ←
    match j.get? "results" with
    | none => pure (some ⟨.unsubmitted, []⟩)
    | some .null => pure none
    | some r => do pure (some (← readResults r))
  return {
    family := if j["kind"].str? = some "braket" then .cloud else .queue
    id := j["id"].str?
    service := i
    spec := restingSpec shots sites filling
    metadata := metadata
    decoder := decoder
    results := results }

def isTruthy : Json → Bool
  | .null => false
  | .bool b => b
  | .int i => i ≠ 0
  | .binary x => x != 0.0
  | .decimal d => !d.sameValue 0
  | .str s => !s.isEmpty
  | .arr xs => !xs.isEmpty
  | .obj ms => !ms.isEmpty

variable {δ : Type}

def taskState (t : RemoteTask δ) : Json :=
  .obj [("id", .ofOption .str t.id), ("results", .ofOption resultsForm t.results)]

/-! ### Batches -/

def readTasks : Outcome (Numbered (RemoteTask Nat)) :=
  j.items.zipIdx.mapM fun (t, i) => do return ((i : Int), ← readTask i t)

def batchState (b : RemoteBatch δ) : Json :=
  .obj [("order", each b.tasks fun (k, _) => .int k), ("name", .ofOption .str b.name),
    ("tasks", each b.tasks fun (_, t) => taskState t)]

/-- The table of tasks. Where results are missing, the numbers of shots beside them are written
with a fraction. -/
def metricForm (b : RemoteBatch δ) : Json :=
  let gaps := b.tasks.any fun (_, t) => t.results.isNone
  each b.tasks fun (k, t) =>
    .arr [.int k, .ofOption .str t.id,
      .ofOption (fun (r : TaskResults) => .str r.status.name) t.results,
      .ofOption (fun (_ : TaskResults) =>
        if gaps then .binary (Float.ofInt t.spec.shots) else .int t.spec.shots) t.results]

def submitWith {σ : Type} (serve : δ → Service σ) (backend : δ → Backend) (shuffle : Bool)
    (options : Members) (r : BatchRun δ σ) : Outcome Unit × BatchRun δ σ :=
  if options.any (·.1 = "shuffle_submit_order") then (.error .type, r)
  else
    let rest := options.filter (·.1 ≠ "ignore_submission_error")
    let known := rest.all (·.1 = "force")
    let force := ((rest.lookup "force").map isTruthy).getD false
    let f : TaskAction δ σ Unit :=
      if known then RemoteTask.submit serve force else throw .type
    r.submit (.folder backend) (if shuffle then .reversed else .asListed) f
      (((options.lookup "ignore_submission_error").map isTruthy).getD false)

def readCodes (args : List Json) : Outcome (List TaskStatus) := do
  let names ← args.mapM fun
    | .str s => (.ok s : Outcome String)
    | _ => .error .argument
  names.mapM ofName

def selectTasks (q : Question) (b : RemoteBatch Nat) : Outcome (RemoteBatch Nat) :=
  match q.name with
  | "get_tasks" => do b.getTasks (← readCodes q.args)
  | "remove_tasks" => do b.removeTasks (← readCodes q.args)
  | "get_failed_tasks" => b.failedTasks
  | "remove_failed_tasks" => b.removeFailed
  | "get_finished_tasks" => b.finishedTasks
  | "get_completed_tasks" => b.completedTasks
  | "remove_invalid_tasks" => b.removeInvalid
  | _ => .error badRequest

def undated (name : String) : String := ((name ++ "-20").splitOn "-20").headD ""

def standIn : Nat → Backend := fun _ => .mock {}

abbrev ScriptedRun := BatchRun Nat (List Script)

def batchStep (q : Question) (r : ScriptedRun) : Answer × ScriptedRun :=
  let still (o : Answer) : Answer × ScriptedRun := (o, r)
  let moved (m : Outcome Unit × ScriptedRun) : Answer × ScriptedRun :=
    (m.1.map fun _ => batchState m.2.batch, m.2)
  match q.name with
  | "submit" => moved (submitWith scripted standIn false (q.arg 0).members r)
  | "resubmit" => moved (submitWith scripted standIn false [("force", .bool true)] r)
  | "cancel" => moved (r.apply (RemoteBatch.cancel scripted))
  | "fetch" => moved (r.apply (RemoteBatch.fetch scripted))
  | "pull" => moved (r.apply (RemoteBatch.pull scripted))
  | "nshots" => still (.ok (.int r.batch.totalShots))
  | "metric" => still (.ok (metricForm r.batch))
  | "report" => still (r.batch.report.map reportForm)
  | "list_param" =>
    still (do listedForm (← r.batch.report) ((q.arg 0).str?.getD ""))
  | "files" =>
    let names := r.files.map fun f => undated f.name
    still (.ok (each (names.mergeSort fun a b => decide (a ≤ b)) .str))
  | "keep" =>
    match selectTasks (Question.ofJson (.arr q.args)) r.batch with
    | .ok b => (.ok (batchState b), { r with batch := b })
    | .error f => (.error f, r)
  | _ => still ((selectTasks q r.batch).map batchState)

def batchRequest : Answer := do
  let tasks ← readTasks request["tasks"]
  let scripts := request["tasks"].items.map fun t => readScript t["script"]
  let r : ScriptedRun := ⟨⟨tasks, request["name"].str?⟩, scripts, []⟩
  let step (r : ScriptedRun) (q : Json) := (batchStep (.ofJson q) r).map outcome id
  let (steps, r) := inTurn step r request["steps"].items
  return .obj [("steps", .arr steps), ("final", batchState r.batch)]

end AtomArray.Wire
