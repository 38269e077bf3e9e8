import AtomArray.Service.Queue
import AtomArray.Hardware.Record

/-!
Backends: the queue of a processing unit, a cloud service, and a stand-in that draws its results at
random. The settings of a backend are what a saved task keeps of it.
-/

namespace AtomArray

namespace Login

/-- The command that ends with zero if somebody is signed in. -/
def check : String := "aws sts get-caller-identity "

def signIn : String := "aws sso login"

/-- The commands that are run if the check ends with the given code. -/
def commands (code : Int) : List String :=
  if code = 0 then [check] else [check, signIn]

end Login

open Json

structure QueueSettings where
  apiHost : String
  processor : String
  stage : String := "v0"
  virtualQueue : Option String := none
  proxy : Option String := none
  region : Option String := none
  accessKey : Option String := none
  secretKey : Option String := none
  sessionToken : Option String := none
  sessionExpires : Option Int := none
  roleArn : Option String := none
  roleSession : Option String := none
  profile : Option String := none
  deriving DecidableEq

/-- The settings of the stand-in: where it keeps its results, and whether it refuses tasks. -/
structure MockSettings where
  stateFile : String := ".mock_state.txt"
  refuses : Bool := false
  deriving DecidableEq

structure CloudSettings where
  device : String := "arn:aws:braket:us-east-1::device/qpu/quera/Aquila"
  deriving DecidableEq

/-- A service by its settings. -/
inductive Backend where
  | queue (s : QueueSettings)
  | mock (s : MockSettings)
  | cloud (s : CloudSettings)
  deriving DecidableEq

def checkKeys (known : List String) (j : Json) : Outcome Unit := do
  if (← asObject j).any fun (k, _) => !known.contains k then throw .refused

namespace QueueSettings

/-- The settings that are kept secret when a task is saved. -/
def secrets : List String := ["access_key", "secret_key", "session_token"]

variable (s : QueueSettings)

def record : Members :=
  let text (o : Option String) : Json := ofOption .str o
  [("api_hostname", .str s.apiHost), ("qpu_id", .str s.processor), ("api_stage", .str s.stage),
    ("virtual_queue", text s.virtualQueue), ("proxy", text s.proxy), ("region", text s.region),
    ("access_key", text s.accessKey), ("secret_key", text s.secretKey),
    ("session_token", text s.sessionToken),
    ("session_expires", ofOption .int s.sessionExpires), ("role_arn", text s.roleArn),
    ("role_session_name", text s.roleSession), ("profile", text s.profile)]

def publicRecord : Members :=
  s.record.filter fun (k, _) => !secrets.contains k

def ofRecord (j : Json) : Outcome QueueSettings := do
  let text (key : String) : Outcome (Option String) := j.optionalField key asText
  let settings : QueueSettings := {
    apiHost := ← j.field "api_hostname" asText
    processor := ← j.field "qpu_id" asText
    stage := ← j.fieldD "api_stage" "v0" asText
    virtualQueue := ← text "virtual_queue"
    proxy := ← text "proxy"
    region := ← text "region"
    accessKey := ← text "access_key"
    secretKey := ← text "secret_key"
    sessionToken := ← text "session_token"
    sessionExpires := ← j.optionalField "session_expires" asWhole
    roleArn := ← text "role_arn"
    roleSession := ← text "role_session_name"
    profile := ← text "profile" }
  checkKeys (settings.record.map (·.1)) j
  return settings

def client : QueueClient :=
  ⟨s.apiHost, s.processor, s.stage, s.virtualQueue, s.proxy⟩

def named (name : String) : Outcome QueueSettings :=
  let at_ (processor : String) : QueueSettings :=
    { apiHost := "XXXXXXXXXXX.execute-api.us-east-1.amazonaws.com"
      processor
      proxy := some "XXXXXXXXXXX.execute-api.us-east-1.vpce.amazonaws.com"
      region := some "us-east-1" }
  match name with
  | "Aquila" => .ok (at_ "qpu1")
  | "Mock" => .ok (at_ "qpu2-mock")
  | n => .error (.unknownUnit n)

end QueueSettings

namespace MockSettings

def record (s : MockSettings) : Members :=
  [("state_file", .str s.stateFile), ("submission_error", .bool s.refuses)]

def ofRecord (j : Json) : Outcome MockSettings := do
  let stateFile ← j.fieldD "state_file" ".mock_state.txt" asText
  let refuses ← j.fieldD "submission_error" false asFlag
  checkKeys ["state_file", "submission_error"] j
  return ⟨stateFile, refuses⟩

end MockSettings

namespace CloudSettings

def record (s : CloudSettings) : Members := [("device_arn", .str s.device)]

def ofRecord (j : Json) : Outcome CloudSettings := do
  let device ← j.fieldD "device_arn" ({} : CloudSettings).device asText
  checkKeys ["device_arn"] j
  return ⟨device⟩

end CloudSettings

namespace Backend

def record : Backend → Json
  | queue s => .obj s.record
  | mock s => .obj s.record
  | cloud s => .obj s.record

/-- The settings that a saved task keeps. -/
def publicRecord : Backend → Json
  | queue s => .obj s.publicRecord
  | b => b.record

end Backend

/-! ### The queue as a service -/

/-- A decimal as a plain number: a whole one if it is written without a fraction. -/
def Decimal.plainNumber (d : Decimal) : Json :=
  match d, d.truncate? with
  | .finite _ _ e, some i => if e < 0 then .binary (Binary.ofDecimal d) else .int i
  | _, _ => .binary (Binary.ofDecimal d)

mutual

/-- A record with its decimals as binary numbers, or as whole ones if they are written without a
fraction. -/
def Json.plainNumbers : Json → Json
  | .decimal d => d.plainNumber
  | .arr xs => .arr (plainItems xs)
  | .obj ms => .obj (plainMembers ms)
  | j => j

def Json.plainItems : List Json → List Json
  | [] => []
  | x :: xs => plainNumbers x :: plainItems xs

def Json.plainMembers : Members → Members
  | [] => []
  | (k, x) :: xs => (k, plainNumbers x) :: plainMembers xs

end

mutual

def Json.withoutNulls : Json → Json
  | .obj ms => .obj (membersWithoutNulls ms)
  | .arr xs => .arr (itemsWithoutNulls xs)
  | j => j

def Json.itemsWithoutNulls : List Json → List Json
  | [] => []
  | x :: xs => withoutNulls x :: itemsWithoutNulls xs

def Json.membersWithoutNulls : Members → Members
  | [] => []
  | (_, .null) :: xs => membersWithoutNulls xs
  | (k, x) :: xs => (k, withoutNulls x) :: membersWithoutNulls xs

end

def TaskSpec.body (s : TaskSpec Quantity) : Json :=
  .str s.record.withoutNulls.plainNumbers.text

namespace QueueClient

variable {σ : Type} (t : Transport σ)

def service (c : QueueClient) : Service σ where
  submit spec := do
    match ← c.postTask t spec.body with
    | .str id => return id
    | j => return statusText j
  results id := do
    match ← c.pollResults t id with
    | .obj ms => TaskResults.ofRecord (.obj ms)
    | _ => throw .type
  status id := do
    match ← c.status t id with
    | .str s => TaskStatus.ofName s
    | _ => throw .value
  cancel id := c.cancel t id
  validate spec := c.validate t spec.body

/-- The capabilities of the processing unit; the standard ones if they cannot be had. -/
def limits (c : QueueClient) : Session σ (Capabilities Quantity) :=
  tryCatch (do Capabilities.ofRecord (← c.capabilities t)) fun _ => return Capabilities.standard

end QueueClient

/-! ### The cloud service -/

/-- What the cloud offers. -/
structure CloudDevice (σ : Type) where
  run : String → TaskSpec Quantity → Session σ String
  result : String → Session σ (List (Bits × Bits))
  cancel : String → Session σ Unit
  state : String → Session σ String

def TaskResults.ofReadings (readings : List (Bits × Bits)) : TaskResults :=
  ⟨.completed, readings.map fun (before, after) => ⟨.completed, before, after⟩⟩

def capitalised (s : String) : String :=
  match s.toLower.toList with
  | [] => ""
  | c :: cs => String.ofList (c.toUpper :: cs)

def TaskStatus.ofCloud (code : String) : Outcome TaskStatus :=
  if code = "QUEUED" then .ok .enqueued else TaskStatus.ofName (capitalised code)

/-- The cloud as a service for tasks. It takes every task without looking at it first. -/
def CloudDevice.service {σ : Type} (d : CloudDevice σ) (s : CloudSettings) : Service σ where
  submit spec := d.run s.device spec
  results id := do return TaskResults.ofReadings (← d.result id)
  status id := do TaskStatus.ofCloud (← d.state id)
  cancel id := d.cancel id
  validate _ := return ()

/-! ### The stand-in -/

/-- The state of the stand-in: the results that it has drawn, and the random bits that it draws
them from, over and over. -/
structure MockState where
  bits : List Bool
  used : Nat := 0
  drawn : List (String × TaskResults) := []

namespace MockState

def nextBit : StateM MockState Bool := fun s =>
  ((s.bits[s.used % s.bits.length]?).getD false, { s with used := s.used + 1 })

/-- Draws one bit for every site: one that cannot be set is zero whatever is drawn. -/
def drawBits : List Bool → StateM MockState Bits
  | [] => return []
  | possible :: rest => do
    let b ← nextBit
    return (possible && b) :: (← drawBits rest)

/-- Draws the readings of one shot. Atoms that were not there before are not there after. -/
def drawShot (sites : Nat) : StateM MockState Shot := do
  let before ← drawBits (List.replicate sites true)
  let after ← drawBits before
  return ⟨.completed, before, after⟩

def drawShots (sites : Nat) : Nat → StateM MockState (List Shot)
  | 0 => return []
  | n + 1 => do
    let s ← drawShot sites
    return s :: (← drawShots sites n)

/-- Draws the results of a task and keeps them under a new identifier. -/
def accept (spec : TaskSpec Quantity) : StateM MockState String := do
  let shots ← drawShots spec.sites.length spec.shots.toNat
  let s ← get
  let id := s!"task-{s.drawn.length}"
  set { s with drawn := s.drawn ++ [(id, (⟨.completed, shots⟩ : TaskResults))] }
  return id

/-- The results kept under an identifier. Before anything was drawn there is no file to look in. -/
def lookUp (id : String) (s : MockState) : Outcome TaskResults :=
  if s.drawn.isEmpty then .error (.plain .missingFile)
  else
    match s.drawn.lookup id with
    | some r => .ok r
    | none => .error (.resultsUnavailable id)

end MockState

def MockSettings.service (m : MockSettings) : Service MockState where
  submit spec := do
    if m.refuses then throw .standInRefuses
    return ← (MockState.accept spec : StateM MockState String)
  results id := do MockState.lookUp id (← get)
  status _ := return .completed
  cancel _ := return ()
  validate _ := throw (.plain .notImplemented)

end AtomArray
