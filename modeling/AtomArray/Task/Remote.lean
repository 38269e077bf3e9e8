import AtomArray.Task.Report

/-!
Tasks that a remote service runs.

A call may change the state of a `Service` whether it succeeds or not. A task holds what it was told
last: its identifier and its results. A `TaskAction` changes it step by step, and what it has
changed before it fails stays changed.
-/

namespace AtomArray

/-- A call to a party with a state, which is kept also if the call fails. -/
abbrev Session (σ α : Type) := ExceptT Fault (StateM σ) α

/-- What a service offers. -/
structure Service (σ : Type) where
  submit : TaskSpec Quantity → Session σ String
  results : String → Session σ TaskResults
  status : String → Session σ TaskStatus
  cancel : String → Session σ Unit
  validate : TaskSpec Quantity → Session σ Unit

/-- The two families of remote tasks. They differ in when they count results as there, and in how
they are saved. -/
inductive TaskFamily where
  | queue
  | cloud
  deriving DecidableEq

/-- A task for a remote service. `δ` is how a service is named. -/
structure RemoteTask (δ : Type) where
  family : TaskFamily
  id : Option String
  service : δ
  spec : TaskSpec Quantity
  metadata : Env Quantity
  decoder : Option Decoder := none
  results : Option TaskResults := some ⟨.unsubmitted, []⟩

/-- An operation on a task that is in use, with the state of the services. -/
abbrev TaskAction (δ σ α : Type) := ExceptT Fault (StateM (RemoteTask δ × σ)) α

namespace TaskAction

variable {δ σ α : Type}

def task : TaskAction δ σ (RemoteTask δ) := do return (← get).1

def call (m : Session σ α) : TaskAction δ σ α := ExceptT.mk fun p =>
  let (o, s) := m.run p.2
  (o, p.1, s)

def change (f : RemoteTask δ → RemoteTask δ) : TaskAction δ σ Unit := modify fun p => (f p.1, p.2)

end TaskAction

namespace RemoteTask

open TaskAction

variable {δ σ : Type} (serve : δ → Service σ)

/-- Hands the task in. A task with an identifier is handed in again only by force. -/
def submit (force : Bool) : TaskAction δ σ Unit := do
  let t ← task
  if !force then
    if let some id := t.id then throw (.alreadySubmitted id)
  let id ← call ((serve t.service).submit t.spec)
  change fun t => { t with id := some id }
  change fun t => { t with results := some ⟨.enqueued, []⟩ }

/-- Why the service would not take the task; empty if it would. -/
def validate : TaskAction δ σ String := do
  let t ← task
  tryCatch (do call ((serve t.service).validate t.spec); return "") fun
    | .rejected text => return text
    | f => throw f

/-- The status that the service gives; a task without an identifier was not accepted. -/
def status : TaskAction δ σ TaskStatus := do
  let t ← task
  match t.id with
  | none => return .unaccepted
  | some id => call ((serve t.service).status id)

def pull : TaskAction δ σ Unit := do
  let t ← task
  match t.id with
  | none => throw .missingTaskId
  | some id =>
    let r ← call ((serve t.service).results id)
    change fun t => { t with results := some r }

/-- Asks for the status, and for the results once there are some, unless the task is final. -/
def fetch : TaskAction δ σ Unit := do
  let t ← task
  match t.results with
  | none => throw .part
  | some r =>
    if r.status = .unsubmitted then throw .missingTaskId
    if r.status.isFinal then return
    let status ← status serve
    if status = .completed || status = .partlyDone then pull serve
    else change fun t => { t with results := some ⟨status, []⟩ }

variable (t : RemoteTask δ)

/-- Was the task handed in, and are its results not complete yet? -/
def awaitsResults : Bool :=
  match t.id, t.results with
  | some _, some r => r.status ≠ .completed
  | _, _ => false

/-- The results, for which the service is asked unless they are complete. -/
def result : TaskAction δ σ (Option TaskResults) := do
  let t ← task
  if t.awaitsResults then pull serve
  return (← task).results

/-- Cancels the task; nothing is done without an identifier. -/
def cancel : TaskAction δ σ Unit := do
  let t ← task
  match t.id with
  | none => return ()
  | some id => call ((serve t.service).cancel id)

def hasResults : Bool :=
  match t.results with
  | none => false
  | some r => r.status = .completed || (t.family = .queue && r.status = .partlyDone)

def geometry : Geometry := ⟨t.spec.sites, t.spec.filling, t.decoder⟩

end RemoteTask

end AtomArray
