import AtomArray.Task.Remote
import AtomArray.Json.Parser

/-!
The queue of a quantum processing unit, and requests to a service over a transport. Every answer of
the service that is not the expected one is a fault with its own wording.
-/

namespace AtomArray

structure HttpRequest where
  method : String
  url : String
  headers : Members
  body : Option Json := none

structure HttpResponse where
  status : Int
  contentType : String
  body : String

/-- The JSON value of a response; an empty body stands for an empty object. -/
def HttpResponse.json (r : HttpResponse) : Outcome Json :=
  if r.contentType ≠ "application/json" then
    .error (.reported .apiInvalidResponse
      s!"Expected Content-Type application/json, but {r.contentType} found.")
  else if r.body.isEmpty then .ok (.obj [])
  else
    match Json.parse? .binary r.body with
    | some j => .ok j
    | none => .error (.plain .malformedJson)

structure Transport (σ : Type) where
  send : HttpRequest → Session σ HttpResponse
  /-- Waits for some seconds. -/
  pause : Param Quantity → Session σ Unit
  /-- How often a caller that waits for something may ask again. -/
  patience : σ → Nat

/-- Where a processing unit is reached. With a proxy, requests go to the proxy and name the host
in a header. -/
structure QueueClient where
  apiHost : String
  processor : String
  stage : String := "v0"
  virtualQueue : Option String := none
  proxy : Option String := none

namespace QueueClient

variable (c : QueueClient)

def baseUrl : String := "https://" ++ c.proxy.getD c.apiHost ++ "/" ++ c.stage

def path (parts : List String) : String :=
  Text.joined "/" ([c.baseUrl, c.processor] ++ parts)

/-- The headers of a request, put over given ones. -/
def headers (base : Members) : Members :=
  Json.merge base ([("Content-Type", Json.str "application/json")]
    ++ (if c.proxy.isSome then [("Host", Json.str c.apiHost)] else [])
    ++ (c.virtualQueue.map fun q => ("virtual_queue", Json.str q)).toList)

variable {σ : Type} (t : Transport σ)

def call (method : String) (parts : List String) (body : Option Json := none) :
    Session σ HttpResponse :=
  t.send ⟨method, c.path parts, c.headers [], body⟩

/-- Posts a value; an object is sent as its text. -/
def post (parts : List String) (content : Json) : Session σ HttpResponse :=
  c.call t "POST" parts (some (match content with
    | .obj ms => .str (Json.obj ms).text
    | j => j))

/-! ### Faults -/

def unhandled (r : HttpResponse) : Fault :=
  .reported .apiFailure s!"QPU returned unhandled status {r.status}."

def unauthorised : Fault :=
  .reported .apiAuthentication "QPU return authentication error, check AWS credentials."

def badParameter : Fault :=
  .reported .apiInvalidRequest
    "The request is invalid. This may indicate an error when parsing a parameter."

def processorMissing (c : QueueClient) : Fault :=
  .reported .apiNotFound s!"QPU {c.processor} not found."

def taskMissing (c : QueueClient) (id : String) : Fault :=
  .reported .apiNotFound s!"QPU {c.processor} or task {id} not found."

def member (key : String) : Json → Outcome Json
  | .obj ms =>
    match ms.lookup key with
    | some v => .ok v
    | none => .error (.plain .missingKey)
  | _ => .error .type

/-! ### Calls -/

def postTask (content : Json) : Session σ Json := do
  let r ← c.post t ["queue", "task"] content
  match r.status with
  | 201 => pure ()
  | 404 => throw c.processorMissing
  | 400 => throw badParameter
  | 403 => throw unauthorised
  | _ => throw (unhandled r)
  match member "task_id" (← r.json) with
  | .ok id => return id
  | .error (.plain .missingKey) =>
    throw (.reported .apiInvalidResponse "Response did not contain \"task_id\".")
  | .error f => throw f

def capabilities : Session σ Json := do
  let r ← c.call t "GET" ["capabilities"]
  match r.status with
  | 200 => r.json
  | 404 => throw c.processorMissing
  | 403 => throw unauthorised
  | _ => throw (unhandled r)

/-- Asks whether a task would be taken. -/
def validate (content : Json) : Session σ Unit := do
  let r ← c.post t ["task", "validate"] content
  match r.status with
  | 200 => return ()
  | 400 => throw (.rejected ("Task did not pass validation: " ++ r.body))
  | 404 => throw c.processorMissing
  | 403 => throw unauthorised
  | _ => throw (unhandled r)

def status (c : QueueClient) (id : String) : Session σ Json := do
  let r ← c.call t "GET" ["queue", "task", id]
  match r.status with
  | 200 => pure ()
  | 400 => throw badParameter
  | 404 => throw (c.taskMissing id)
  | _ => throw (unhandled r)
  member "status" (← r.json)

def statusText : Json → String
  | .str s => s
  | .null => "None"
  | .bool b => if b then "True" else "False"
  | j => j.text

def noShots (status : String) : Json :=
  .obj [("task_status", .str status), ("shot_outputs", .arr [])]

def fetchResults (id : String) : Session σ Json := do
  let r ← c.call t "GET" ["task", id, "results"]
  match r.status with
  | 200 => r.json
  | 400 => throw badParameter
  | 404 =>
    throw (.reported .apiNotFound ("The QPU or task targeted by the request does not exist, "
      ++ "or the user making the request is not authorized to access the targeted QPU or task."))
  | 403 => throw unauthorised
  | _ => throw (unhandled r)

def results (id : String) : Session σ Json := do
  match statusText (← c.status t id) with
  | "Created" | "Enqueued" | "Accepted" => return noShots "Created"
  | "Executing" => return noShots "Running"
  | "Failed" => return noShots "Failed"
  | "Cancelled" => return noShots "Cancelled"
  | "Unaccepted" =>
    throw (.reported .invalidRecord
      s!"Task: {id} has validation error, unable to fetch error message.")
  | "Completed" | "Partial" => c.fetchResults t id
  | s => throw (.reported .apiFailure s!"Undocumented queue status: {s}")

def endsPolling (status : Json) : Bool :=
  match status with
  | .str s => ["Partial", "Completed", "Failed", "Cancelled"].contains s
  | _ => false

/-- Asks for the status again and again, with a pause after each answer, until polling ends. -/
def awaitEnd (c : QueueClient) (id : String) (interval : Param Quantity) : Nat → Session σ Unit
  | 0 => throw .stillWaiting
  | n + 1 => do
    let s ← c.status t id
    t.pause interval
    if endsPolling s then return () else awaitEnd c id interval n

/-- Waits until a task has ended and gives its results. The status is asked for every three
seconds unless another interval is given. -/
def pollResults (id : String) (interval : Param Quantity := .whole 3) : Session σ Json := do
  let s ← c.status t id
  if !endsPolling s then
    awaitEnd t c id interval (t.patience (← get))
  c.results t id

def cancel (id : String) : Session σ Unit := do
  let r ← c.call t "PUT" ["queue", "task", id, "cancel"]
  match r.status with
  | 200 => return ()
  | 403 => throw unauthorised
  | 404 => throw (c.taskMissing id)
  | _ => throw (unhandled r)

def summary (id : String) : Session σ Json := do
  if statusText (← c.status t id) ≠ "Completed" then
    throw (.reported .apiFailure "Task is not completed, can't fetch task summary.")
  let r ← c.call t "GET" ["task", id]
  match r.status with
  | 200 => r.json
  | 404 => throw (c.taskMissing id)
  | 403 => throw unauthorised
  | _ => throw (unhandled r)

def isStopped (id : String) : Session σ Bool := do
  return ["Completed", "Failed", "Cancelled"].contains (statusText (← c.status t id))

end QueueClient

end AtomArray
