import AtomArray.Wire.Task

/-!
Scripted services.

A request lists the answers of a remote service in advance. A station hands them out one by one
and keeps a record of everything that it is asked.
-/

namespace AtomArray.Wire

variable (request : Json)

/-- The answers that are left, and what was asked so far. -/
structure Station where
  responses : List Json := []
  lists : Script := []
  requests : List Json := []
  pauses : List Json := []
  signatures : List Json := []
  calls : List Json := []

namespace Station

def ofRequest : Station :=
  { responses := request["responses"].items, lists := readScript request["script"] }

def fresh (s : Station) : Station := { s with requests := [], pauses := [], calls := [] }

def response (j : Json) : HttpResponse where
  status := (j["status"].int?).getD 200
  contentType := (j["type"].str?).getD "application/json"
  body :=
    match j["body"] with
    | .null => ""
    | .str s => s
    | v => v.text

def requestForm (r : HttpRequest) : Json :=
  node r.method [.str r.url, .obj r.headers, r.body.getD .null]

def send (r : HttpRequest) : Session Station HttpResponse := do
  modify fun s => { s with requests := s.requests ++ [requestForm r] }
  match (← get).responses with
  | [] => throw (.scriptEnded "responses")
  | x :: xs =>
    modify fun s => { s with responses := xs }
    return response x

def pause (seconds : Param) : Session Station Unit :=
  modify fun s => { s with pauses := s.pauses ++ [paramForm seconds] }

/-- The station as a transport. Whoever waits is answered as long as there are responses. -/
def transport : Transport Station := ⟨send, pause, fun s => s.responses.length + 1⟩

/-! ### The cloud -/

def note (call : List Json) : Session Station Unit :=
  modify fun s => { s with calls := s.calls ++ [.arr call] }

def next (list : String) : Session Station Json := ExceptT.mk fun s =>
  let (o, lists) := nextScripted list s.lists
  (o, { s with lists })

def reading : Json → Outcome (Bits × Bits)
  | .arr [before, after] => do
    return (← Json.asList Json.asBit before, ← Json.asList Json.asBit after)
  | _ => .error .value

def cloud : CloudDevice Station where
  run arn spec := do
    note [.str "run", .str arn, cloudForm spec]
    return ((← next "ids").str?).getD ""
  result id := do
    note [.str "result", .str id]
    (← next "results").items.mapM fun r => (reading r : Outcome (Bits × Bits))
  cancel id := note [.str "cancel", .str id]
  state id := do
    note [.str "state", .str id]
    match ← next "states" with
    | .str s => return s
    | _ => throw .part

/-! ### Signatures -/

def standardSignature : Members :=
  [("region", .str "us-east-1"), ("access_key", .null), ("secret_key", .null),
    ("session_token", .null), ("session_expires", .int 3600), ("role_arn", .null),
    ("role_session_name", .str "awsrequest"), ("profile", .null)]

def signature (settings : Members) : Json :=
  .obj (standardSignature.map fun (k, v) => (k, (settings.lookup k).getD v))

def sign (settings : Members) : Session Station Unit :=
  modify fun s => { s with signatures := s.signatures ++ [signature settings] }

/-- Notes that a client was made, unless there is one already. -/
def signOnce (settings : QueueSettings) : Session Station Unit := do
  if (← get).signatures.isEmpty then
    sign (settings.record.filter fun (_, v) => !v.isNull)

def serve : Backend → Service Station
  | .queue s => s.client.service transport
  | .cloud s => cloud.service s
  | .mock _ => cloud.service {}

end Station

/-! ### Clients -/

def identifier : Json → String
  | .str s => s
  | j => QueueClient.statusText j

def readClient (known : List String) (settings : Json) : Outcome QueueClient := do
  if settings.members.any fun (k, _) => !known.contains k then throw .type
  let text (key : String) : Option String := (settings.getD key).str?
  match text "api_hostname", text "qpu_id" with
  | some host, some processor =>
    return ⟨host, processor,
      ((settings.get? "api_stage").map identifier).getD "v0", text "virtual_queue", text "proxy"⟩
  | _, _ => throw .type

def addressKeys : List String := ["api_hostname", "qpu_id", "api_stage", "virtual_queue", "proxy"]

def addressRequest : Answer := do
  let c ← readClient addressKeys request["init"]
  return .obj (answers (questions request ["host"]) fun q =>
    match q.name with
    | "host" => .ok (.arr [.ofOption (fun _ => .str c.apiHost) c.proxy,
        .str (c.proxy.getD c.apiHost), .str c.baseUrl])
    | "path" =>
      if q.args.all (·.str?.isSome) then .ok (.str (c.path (q.args.filterMap (·.str?))))
      else .error .type
    | "headers" => .ok (.obj (c.headers (q.arg 0).members))
    | "get" | "put" | "post" =>
      if q.args.all (·.str?.isSome) then .error (.plain .notImplemented) else .error .type
    | _ => .error badRequest)

def clientStep (c : QueueClient) (q : Question) : Session Station Json := do
  let t := Station.transport
  match q.name, q.args with
  | "post_task", [j] => c.postTask t j
  | "get_capabilities", [] => c.capabilities t
  | "validate_task", [j] => c.validate t j; return .null
  | "get_task_results", [id] => c.results t (identifier id)
  | "poll_task_results", [id] => c.pollResults t (identifier id)
  | "poll_task_results", [id, seconds] => c.pollResults t (identifier id) (rawParam seconds)
  | "get_task_status_in_queue", [id] => c.status t (identifier id)
  | "cancel_task_in_queue", [id] => c.cancel t (identifier id); return .null
  | "get_task_summary", [id] => c.summary t (identifier id)
  | "is_task_stopped", [id] => return .bool (← c.isStopped t (identifier id))
  | _, _ => throw .type

def stepQuestions : List Question :=
  request["steps"].items.map Question.ofJson

def clientRequest : Answer := do
  let settings := request["init"]
  let c ← readClient (addressKeys ++ Station.standardSignature.map (·.1)) settings
  let step (s : Station) (q : Question) : Json × Station :=
    let (o, s) := (clientStep c q).run s.fresh
    (.arr [outcome o, .arr s.requests, .arr s.pauses], s)
  return .obj [("steps", .arr (inTurn step (.ofRequest request) (stepQuestions request)).1),
    ("sigv4", .arr [Station.signature settings.members])]

/-! ### Backends -/

/-- Changes the credentials of a queue; what is null stays. -/
def withCredentials (given : Json) (s : QueueSettings) : Outcome QueueSettings := do
  if given.members.any fun (k, _) => !QueueSettings.secrets.contains k then throw .type
  let text (key : String) (old : Option String) : Option String := (given.getD key).str?.or old
  return { s with
    accessKey := text "access_key" s.accessKey
    secretKey := text "secret_key" s.secretKey
    sessionToken := text "session_token" s.sessionToken }

def serviceStep (serve : Service Station) (q : Question) : Session Station Json := do
  match q.name with
  | "submit" => return .str (← serve.submit (← TaskSpec.ofRecord (q.arg 0)))
  | "validate" => serve.validate (← TaskSpec.ofRecord (q.arg 0)); return .null
  | "results" => return resultsForm (← serve.results (identifier (q.arg 0)))
  | "cancel" => serve.cancel (identifier (q.arg 0)); return .null
  | "status" => return .str (← serve.status (identifier (q.arg 0))).name
  | _ => throw badRequest

def queueStep (s : QueueSettings) (q : Question) : Session Station (Json × QueueSettings) := do
  let c := s.client
  match q.name with
  | "credential" =>
    let s ← withCredentials (q.arg 0) s
    return (.obj s.record, s)
  | "capabilities" =>
    Station.signOnce s
    return (recordForm (← c.limits Station.transport).record, s)
  | "submit" =>
    let spec ← TaskSpec.ofRecord (q.arg 0)
    Station.signOnce s
    return (← c.postTask Station.transport spec.body, s)
  | "validate" =>
    let spec ← TaskSpec.ofRecord (q.arg 0)
    Station.signOnce s
    c.validate Station.transport spec.body
    return (.null, s)
  | _ =>
    Station.signOnce s
    return (← serviceStep (c.service Station.transport) q, s)

def queueRequest : Answer := do
  let settings ← QueueSettings.ofRecord (.obj request["init"].members)
  let step (s : QueueSettings × Station) (q : Question) : Json × QueueSettings × Station :=
    let (o, station) := (queueStep s.1 q).run s.2.fresh
    (.arr [outcome (o.map (·.1)), .arr station.requests],
      (o.toOption.map (·.2)).getD s.1, station)
  let (steps, s) := inTurn step (settings, .ofRequest request) (stepQuestions request)
  return .obj [("steps", .arr steps), ("sigv4", .arr s.2.signatures)]

def cloudStep (settings : CloudSettings) (q : Question) : Session Station Json := do
  match q.name with
  | "capabilities" => return recordForm (Capabilities.standard : Capabilities Quantity).record
  | "credential" => throw .part
  | _ => serviceStep (Station.cloud.service settings) q

def cloudRequest : Answer := do
  let settings ← CloudSettings.ofRecord (.obj request["init"].members)
  let step (s : Station) (q : Question) : Json × Station :=
    let (o, s) := (cloudStep settings q).run s.fresh
    (.arr [outcome o, .arr s.calls], s)
  return .arr (inTurn step (.ofRequest request) (stepQuestions request)).1

end AtomArray.Wire
