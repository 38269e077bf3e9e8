import AtomArray.Saved.Document

/-!
Batches in the first file format. Every object stands under a short key, and numbers in the metadata
of a task are read back as the text that was written. A task of the emulator has no form in it.
-/

namespace AtomArray.Legacy

open Json

mutual

def textual : Json → Json
  | .decimal d => .str d.text
  | .arr xs => .arr (textualItems xs)
  | .obj ms => .obj (textualMembers ms)
  | j => j

def textualItems : List Json → List Json
  | [] => []
  | x :: xs => textual x :: textualItems xs

def textualMembers : Members → Members
  | [] => []
  | (k, x) :: xs => (k, textual x) :: textualMembers xs

end

mutual

def ofParam : Param Quantity → Outcome Json
  | .number v => .ok v.record
  | .whole i => .ok (.int i)
  | .flag b => .ok (.bool b)
  | .text s => .ok (.str s)
  | .none => .ok .null
  | .list xs => do return .arr (← ofParams xs)
  | .array _ => .error .value
  | .record ms => do return .obj (← ofParamMembers ms)

def ofParams : List (Param Quantity) → Outcome (List Json)
  | [] => .ok []
  | x :: xs => do
    let j ← ofParam x
    return j :: (← ofParams xs)

def ofParamMembers : Env Quantity → Outcome Members
  | [] => .ok []
  | (k, x) :: xs => do
    let j ← ofParam x
    return (k, j) :: (← ofParamMembers xs)

end

mutual

def toParam : Json → Param Quantity
  | .null => .none
  | .bool b => .flag b
  | .int i => .whole i
  | .binary x => .number (.binary x)
  | .decimal d => .number (.decimal d)
  | .str s => .text s
  | .arr xs => .list (toParams xs)
  | .obj ms => .record (toParamMembers ms)

def toParams : List Json → List (Param Quantity)
  | [] => []
  | x :: xs => toParam x :: toParams xs

def toParamMembers : Members → Env Quantity
  | [] => []
  | (k, x) :: xs => (k, toParam x) :: toParamMembers xs

end

/-- The keys that objects stand under. -/
def objectKeys : List String := ["remote_batch", "local_batch", "quera_task", "braket_task",
  "braket_emulator_task", "quera_task_specification", "braket_task_specification",
  "parallel_decoder", "task_result_ir", "quera_backend", "mock_backend", "braket_backend"]

/-- Reads metadata. A single parameter under the key of an object is taken for one, and fails. -/
def toMetadata : Json → Outcome (Env Quantity)
  | .obj [(k, x)] => if k ∈ objectKeys then .error .type else .ok [(k, toParam x)]
  | j => .ok (toParamMembers j.members)

variable (key : String)

def under (j : Json) : Json := .obj [(key, j)]

def within (j : Json) : Outcome Json :=
  match j with
  | .obj [(k, v)] => if k = key then .ok v else .error .refused
  | _ => .error .refused

variable {α : Type}

def ofOptional (record : α → Json) (o : Option α) : Json :=
  ofOption (fun a => under key (record a)) o

def toOptional (read : Json → Outcome α) : Json → Outcome (Option α)
  | .null => .ok none
  | j => do return some (← read (← within key j))

def ofBackend : Backend → Json
  | .queue s => under "quera_backend" (.obj s.publicRecord)
  | .mock s => under "mock_backend" (.obj s.record)
  | .cloud s => under "braket_backend" (.obj s.record)

variable (extra : Members)

/-- Reads a backend, with further settings put over the saved ones. -/
def toBackend : Json → Outcome Backend
  | .obj [("quera_backend", .obj ms)] =>
    (QueueSettings.ofRecord (.obj (merge ms extra))).map .queue
  | .obj [("mock_backend", .obj ms)] =>
    (MockSettings.ofRecord (.obj (merge ms extra))).map .mock
  | .obj [("braket_backend", .obj ms)] =>
    (CloudSettings.ofRecord (.obj (merge ms extra))).map .cloud
  | _ => .error .refused

def ofResults (r : Option TaskResults) : Json := ofOptional "task_result_ir" TaskResults.record r

def toResults : Json → Outcome (Option TaskResults) :=
  toOptional "task_result_ir" TaskResults.ofRecord

def ofRemoteTask (t : RemoteTask Backend) : Outcome Json := do
  let metadata ← ofParamMembers t.metadata
  let id := ("task_id", ofOption .str t.id)
  let service := ("backend", ofBackend t.service)
  let rest := [
    ("parallel_decoder", ofOptional "parallel_decoder" Decoder.record t.decoder),
    ("task_result_ir", ofResults t.results),
    ("task_ir", under "quera_task_specification" t.spec.record),
    ("metadata", obj metadata)]
  return match t.family with
    | .queue => under "quera_task" (.obj (service :: id :: rest))
    | .cloud => under "braket_task" (.obj (id :: service :: rest))

def toRemoteTask (j : Json) : Outcome (RemoteTask Backend) := do
  let (family, body) ←
    match j with
    | .obj [("quera_task", body)] => (.ok (.queue, body) : Outcome (TaskFamily × Json))
    | .obj [("braket_task", body)] => .ok (.cloud, body)
    | _ => .error .refused
  return {
    family := family
    id := (body.getD "task_id").str?
    service := ← toBackend extra (body.getD "backend")
    spec := ← TaskSpec.ofRecord (← within "quera_task_specification" (body.getD "task_ir"))
    metadata := ← toMetadata (body.getD "metadata")
    decoder := ← toOptional "parallel_decoder" Decoder.ofRecord (body.getD "parallel_decoder")
    results := ← toResults (body.getD "task_result_ir") }

def ofLocalTask (t : LocalTask) : Outcome Json :=
  match t.work with
  | .emulator .. => .error .value
  | .simulator s => do
    return under "braket_emulator_task" (.obj [
      ("task_ir", under "braket_task_specification" s.simulatorRecord),
      ("metadata", .obj (← ofParamMembers t.metadata)),
      ("task_result_ir", ofResults t.results)])

def toLocalTask (j : Json) : Outcome LocalTask := do
  let body ← within "braket_emulator_task" j
  let s ← TaskSpec.ofSimulatorRecord
    (← within "braket_task_specification" (body.getD "task_ir"))
  return ⟨.simulator s, ← toMetadata (body.getD "metadata"),
    ← toResults (body.getD "task_result_ir")⟩

def ofNumbered (f : α → Outcome Json) (p : Int × α) : Outcome Json := do
  return .arr [.int p.1, ← f p.2]

def toNumbered (f : Json → Outcome α) : Json → Outcome (Int × α)
  | .arr [.int k, t] => do return (k, ← f t)
  | _ => .error .refused

def ofBatch (f : α → Outcome Json) (tasks : Numbered α) (name : Option String) : Outcome Json := do
  let tasks ← tasks.mapM (ofNumbered f)
  return textual (under key (.obj [("source", .null), ("name", ofOption .str name),
    ("tasks", .arr tasks)]))

def toBatch (f : Json → Outcome α) (j : Json) : Outcome (Numbered α × Option String) := do
  let body ← within key j
  let tasks ← (body.getD "tasks").items.mapM (toNumbered f)
  return (tasks, (body.getD "name").str?)

def save (b : RemoteBatch Backend) : Outcome Json :=
  ofBatch "remote_batch" ofRemoteTask b.tasks b.name

/-- Reads a batch for remote services, with further settings for the backends. -/
def load (j : Json) : Outcome (RemoteBatch Backend) := do
  let (tasks, name) ← toBatch "remote_batch" (toRemoteTask extra) j
  return ⟨tasks, name⟩

def saveLocal (b : LocalBatch) : Outcome Json :=
  ofBatch "local_batch" ofLocalTask b.tasks b.name

def loadLocal (j : Json) : Outcome LocalBatch := do
  let (tasks, name) ← toBatch "local_batch" toLocalTask j
  return ⟨tasks, name⟩

end AtomArray.Legacy
