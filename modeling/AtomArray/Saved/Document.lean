import AtomArray.Saved.Loaded
import AtomArray.Service.Backend
import AtomArray.Task.Batch

/-!
Saved documents: batches and what they consist of, as files hold them.

An object with a single member whose key names a class stands for an object of that class, and its
parts are the members of the value. Reading builds objects from the inside out. A task writes its
specification, results, decoder and backend as plain records and reads them back with their rules,
except that the backend of a task for a queue stays the plain record.
-/

namespace AtomArray

open Json

inductive SavedClass where
  | localBatch
  | remoteBatch
  | batchErrors
  | taskError
  | queueTask
  | cloudTask
  | simulatorTask
  | emulatorTask
  | program
  | register
  | fields
  | detuningTerm
  | detuningOperator
  | rabiTerm
  | rabiOperator
  | waveform
  | twoLevels
  | threeLevels
  deriving DecidableEq

variable (c : SavedClass)

namespace SavedClass

def name : SavedClass → String
  | localBatch => "LocalBatch"
  | remoteBatch => "RemoteBatch"
  | batchErrors => "BatchErrors"
  | taskError => "TaskError"
  | queueTask => "QuEraTask"
  | cloudTask => "BraketTask"
  | simulatorTask => "BraketEmulatorTask"
  | emulatorTask => "BloqadeTask"
  | program => "EmulatorProgram"
  | register => "Register"
  | fields => "Fields"
  | detuningTerm => "DetuningTerm"
  | detuningOperator => "DetuningOperatorData"
  | rabiTerm => "RabiTerm"
  | rabiOperator => "RabiOperatorData"
  | waveform => "CompiledWaveform"
  | twoLevels => "TwoLevelAtomType"
  | threeLevels => "ThreeLevelAtomType"

def group : SavedClass → String
  | localBatch | remoteBatch | batchErrors | taskError => "bloqade.task.batch"
  | queueTask => "bloqade.task.quera"
  | cloudTask => "bloqade.task.braket"
  | simulatorTask => "bloqade.task.braket_simulator"
  | emulatorTask => "bloqade.task.bloqade"
  | twoLevels | threeLevels => "bloqade.emulate.ir.atom_type"
  | _ => "bloqade.emulate.ir.emulator"

def key : String := c.group ++ "." ++ c.name

def all : List SavedClass :=
  [localBatch, remoteBatch, batchErrors, taskError, queueTask, cloudTask, simulatorTask,
    emulatorTask, program, register, fields, detuningTerm, detuningOperator, rabiTerm,
    rabiOperator, waveform, twoLevels, threeLevels]

def ofKey? (k : String) : Option SavedClass := all.find? (·.key = k)

end SavedClass

/-- A key of a dictionary. In a file every key is text. -/
inductive DocumentKey where
  | text (s : String)
  | whole (i : Int)
  | coupling (c : Coupling)
  deriving DecidableEq

def DocumentKey.written : DocumentKey → String
  | text s => s
  | whole i => toString i
  | coupling c => c.key

inductive Document where
  | null
  | bool (b : Bool)
  | int (i : Int)
  | binary (x : Float)
  | decimal (d : Decimal)
  | text (s : String)
  | list (items : List Document)
  /-- A list that cannot change. A file holds it as a list. -/
  | tuple (items : List Document)
  | dict (members : List (DocumentKey × Document))
  | object (c : SavedClass) (parts : List (String × Document))
  /-- What the saved form of a waveform was read as. -/
  | source (l : Loaded Quantity)
  | spec (s : TaskSpec Quantity)
  | simulated (s : TaskSpec Quantity)
  | results (r : TaskResults)
  | decoder (d : Decoder)
  | backend (b : Backend)
  /-- A value that no file can hold. -/
  | unsavable

/-! ### Records of tasks -/

namespace TaskSpec

/-- The record of a specification for the simulator of the cloud service. -/
def simulatorRecord (s : TaskSpec Quantity) : Json :=
  let field (t : TimeSeries Quantity) : Json :=
    .obj [("time_series", t.record), ("pattern", .str "uniform")]
  .obj [("nshots", .int s.shots), ("program", .obj [
    ("setup", .obj [("ahs_register", .obj [
      ("sites", .arr (s.sites.map fun (x, y) => .arr [x.record, y.record])),
      ("filling", .arr (s.filling.map fun f => .int (if f = 1 then 1 else 0)))])]),
    ("hamiltonian", .obj [
      ("drivingFields", .arr [.obj [("amplitude", field s.amplitude), ("phase", field s.phase),
        ("detuning", field s.detuning)]]),
      ("shiftingFields", .arr [])])])]

def ofSimulatorRecord (j : Json) : Outcome (TaskSpec Quantity) := do
  let shots ← j.field "nshots" asWhole
  let program ← j.field "program" .ok
  let atoms ← program.field "setup" (Json.field "ahs_register" .ok)
  let sites ← atoms.field "sites" (asList (Json.asPair asQuantity))
  let filling ← atoms.field "filling" (asList asWhole)
  let hamiltonian ← program.field "hamiltonian" .ok
  let drives ← hamiltonian.field "drivingFields" (asList .ok)
  let drive := drives.headD .null
  let series (key : String) : Outcome (TimeSeries Quantity) :=
    drive.field key (Json.field "time_series" TimeSeries.ofRecord)
  let amplitude ← series "amplitude"
  let phase ← series "phase"
  return ⟨shots, sites, filling, amplitude, phase, ← series "detuning", none⟩

end TaskSpec

def Decoder.ofRecord (j : Json) : Outcome Decoder := do
  let ms ← asObject j
  if ms.any fun (k, _) => !(["mapping", "locations_per_cluster", "number_of_cluster"].contains k) then
    throw .type
  match ms.lookup "mapping" with
  | none => throw .type
  | some m =>
    let sites ← asList Decoder.siteOfRecord m
    match ms.lookup "number_of_cluster" with
    | none | some .null => if sites.isEmpty then Decoder.ofMapping [] else throw .part
    | some n => Decoder.ofMapping sites (some (← asWhole n))

namespace Document

/-! ### Writing -/

/-- The parts that a class does not write. -/
def isDropped : SavedClass → String → Bool
  | .emulatorTask, "compile_cache" => true
  | _, _ => false

def optionalRecord : Document → Outcome Json
  | results r => .ok r.record
  | decoder d => .ok d.record
  | null => .ok .null
  | _ => .error .part

/-- The parts that a class writes in a way of its own. -/
def ownRecord? : SavedClass → String → Document → Option (Outcome Json)
  | .queueTask, "backend", backend b => some (.ok b.publicRecord)
  | .cloudTask, "backend", backend b => some (.ok b.record)
  | .queueTask, "backend", _ | .cloudTask, "backend", _ => some (.error .part)
  | .queueTask, "task_ir", spec s | .cloudTask, "task_ir", spec s =>
    some (.ok s.record.withoutNulls)
  | .simulatorTask, "task_ir", simulated s => some (.ok s.simulatorRecord)
  | .queueTask, "parallel_decoder", d | .cloudTask, "parallel_decoder", d
  | .queueTask, "task_result_ir", d | .cloudTask, "task_result_ir", d
  | .simulatorTask, "task_result_ir", d => some (optionalRecord d)
  | .waveform, "source", source (.waveform w) => some w.saved
  | .waveform, "source", _ => some (.error .part)
  | .localBatch, "source", _ | .remoteBatch, "source", _ => some (.ok .null)
  | _, _, _ => none

mutual

/-- The JSON of a document. Numbers that are not finite cannot be written. -/
def save : Document → Outcome Json
  | null => .ok .null
  | bool b => .ok (.bool b)
  | int i => .ok (.int i)
  | binary x => if x.isNaN || x.isInf then .error .value else .ok (.binary x)
  | decimal d => .ok (.decimal d)
  | text s => .ok (.str s)
  | list xs => do return .arr (← saveItems xs)
  | tuple xs => do return .arr (← saveItems xs)
  | dict ms => do return .obj (← saveMembers ms)
  | object c parts => do return .obj [(c.key, .obj (← saveParts c parts))]
  | _ => .error .type

def saveItems : List Document → Outcome (List Json)
  | [] => .ok []
  | x :: xs => do
    let j ← save x
    return j :: (← saveItems xs)

def saveMembers : List (DocumentKey × Document) → Outcome Members
  | [] => .ok []
  | (k, x) :: xs => do
    let j ← save x
    return (k.written, j) :: (← saveMembers xs)

def saveParts (c : SavedClass) : List (String × Document) → Outcome Members
  | [] => .ok []
  | (k, x) :: xs =>
    if isDropped c k then saveParts c xs
    else
      match ownRecord? c k x with
      | some o => do
        let j ← o
        return (k, j) :: (← saveParts c xs)
      | none => do
        let j ← save x
        return (k, j) :: (← saveParts c xs)

end

/-! ### Reading -/

/-- The parts of a class in their order, with the values of those that may be left out. -/
def partsOf : SavedClass → List (String × Option Document)
  | .localBatch | .remoteBatch => [("source", none), ("tasks", none), ("name", some null)]
  | .batchErrors => [("task_errors", some (list []))]
  | .taskError => [("exception_type", none), ("stack_trace", none)]
  | .queueTask | .cloudTask =>
    [("task_id", none), ("backend", none), ("task_ir", none), ("metadata", none),
      ("parallel_decoder", some null), ("task_result_ir", some (results ⟨.unsubmitted, []⟩))]
  | .simulatorTask => [("task_ir", none), ("metadata", none), ("task_result_ir", some null)]
  | .emulatorTask =>
    [("shots", none), ("emulator_ir", none), ("metadata", none), ("compile_cache", some null),
      ("task_result_ir", some null)]
  | .program => [("register", none), ("duration", none), ("pulses", none)]
  | .register => [("atom_type", none), ("sites", none), ("blockade_radius", none)]
  | .fields => [("detuning", none), ("rabi", none)]
  | .detuningTerm => [("operator_data", none), ("amplitude", none)]
  | .detuningOperator => [("target_atoms", none)]
  | .rabiTerm => [("operator_data", none), ("amplitude", none), ("phase", some null)]
  | .rabiOperator => [("operator_type", none), ("target_atoms", none)]
  | .waveform => [("assignments", none), ("source", none)]
  | .twoLevels | .threeLevels => []

abbrev Given := List (String × Document)

/-- A part that is given, or else the value that it has if it is left out. -/
def partOr (given : Given) (p : String × Option Document) : Outcome (String × Document) :=
  match given.lookup p.1, p.2 with
  | some d, _ => .ok (p.1, d)
  | none, some d => .ok (p.1, d)
  | none, none => .error .type

/-- An object of a class from the parts that are given. -/
def construct (given : Given) : Outcome Document := do
  if given.any fun g => ((partsOf c).lookup g.1).isNone then throw .type
  return object c (← (partsOf c).mapM (partOr given))

mutual

/-- A document without objects as JSON. An object counts as an empty text, which no record
takes. -/
def plain : Document → Json
  | null => .null
  | bool b => .bool b
  | int i => .int i
  | binary x => .binary x
  | decimal d => .decimal d
  | text s => .str s
  | list xs => .arr (plainItems xs)
  | dict ms => .obj (plainMembers ms)
  | _ => .str ""

def plainItems : List Document → List Json
  | [] => []
  | x :: xs => plain x :: plainItems xs

def plainMembers : List (DocumentKey × Document) → Members
  | [] => []
  | (k, x) :: xs => (k.written, plain x) :: plainMembers xs

end

mutual

/-- Does a document hold nothing but text, whole numbers, truth values, null, and lists and
dictionaries of these? -/
def isBasic : Document → Bool
  | null | bool _ | int _ | binary _ | text _ => true
  | list xs => areBasic xs
  | dict ms => membersBasic ms
  | _ => false

def areBasic : List Document → Bool
  | [] => true
  | x :: xs => isBasic x && areBasic xs

def membersBasic : List (DocumentKey × Document) → Bool
  | [] => true
  | (_, x) :: xs => isBasic x && membersBasic xs

end

def isTruthy : Document → Bool
  | null => false
  | bool b => b
  | int i => i ≠ 0
  | binary x => x != 0.0
  | decimal d => !d.sameValue 0
  | text s => !s.isEmpty
  | list xs => !xs.isEmpty
  | dict ms => !ms.isEmpty
  | _ => true

/-- The members of a dictionary, by their written keys. -/
def given? : Document → Option Given
  | dict ms => some (ms.map fun (k, d) => (k.written, d))
  | _ => none

def need (given : Given) (k : String) : Outcome Document :=
  match given.lookup k with
  | some d => .ok d
  | none => .error (.plain .missingKey)

def asRecord {α : Type} (read : Json → Outcome α) (d : Document) : Outcome α :=
  match d with
  | dict _ => read d.plain
  | _ => .error .type

/-- Reads a part that may count as missing. -/
def asOptionalRecord {α : Type} (read : Json → Outcome α) (wrap : α → Document) (d : Document) :
    Outcome Document :=
  if d.isTruthy then (asRecord read d).map wrap else .ok null

def put (k : String) (d : Document) (given : Given) : Given := insert k d given

def isKey : Document → Bool
  | list _ | dict _ => false
  | _ => true

def sameKey : Document → Document → Bool
  | text a, text b => a = b
  | int a, int b => a = b
  | null, null => true
  | bool a, bool b => a = b
  | bool a, int b | int b, bool a => (if a then 1 else 0) = b
  | decimal a, decimal b => a.sameValue b
  | decimal a, int b | int b, decimal a => a.sameValue (.ofInt b)
  | _, _ => false

/-- Puts a pair after others; an equal key is replaced in place. -/
def putPair (k v : Document) : List Document → List Document
  | [] => [list [k, v]]
  | list [k', v'] :: rest =>
    if sameKey k' k then list [k', v] :: rest else list [k', v'] :: putPair k v rest
  | d :: rest => d :: putPair k v rest

def asPair : Document → Outcome (Document × Document)
  | list [k, v] => if isKey k then .ok (k, v) else .error .type
  | list _ => .error .value
  | text s =>
    match s.toList with
    | [a, b] => .ok (text a.toString, text b.toString)
    | _ => .error .value
  | dict [(k, _), (k', _)] => .ok (text k.written, text k'.written)
  | dict _ => .error .value
  | _ => .error .type

/-- Pairs in order, the last for each key. -/
def orderedPairs (d : Document) : Outcome Document := do
  let collect (items : List Document) : Outcome Document := do
    let pairs ← items.mapM asPair
    return list (pairs.foldl (fun out (k, v) => putPair k v out) [])
  match d with
  | list xs => collect xs
  | dict ms => return list (ms.map fun (k, v) => list [text k.written, v])
  | text s => collect (s.toList.map fun c => text c.toString)
  | _ => throw .type

def asSource (d : Document) : Outcome Document :=
  if d.isBasic then (Loaded.ofJson d.plain).map source else .error .type

/-- The parts of a task for a remote service. The backend of a queue stays as it is. -/
def buildRemoteTask (given : Given) : Outcome Document := do
  let mut given := given
  if c = .cloudTask then
    given := put "backend"
      (backend (.cloud (← asRecord CloudSettings.ofRecord (← need given "backend")))) given
  given := put "task_ir" (spec (← asRecord TaskSpec.ofRecord (← need given "task_ir"))) given
  if c = .cloudTask then
    given := put "parallel_decoder"
      (← asOptionalRecord Decoder.ofRecord decoder (← need given "parallel_decoder")) given
  given := put "task_result_ir"
    (← asOptionalRecord TaskResults.ofRecord results (← need given "task_result_ir")) given
  if c ≠ .cloudTask then
    given := put "parallel_decoder"
      (← asOptionalRecord Decoder.ofRecord decoder (← need given "parallel_decoder")) given
  construct c given

/-- An object of a class from the value under its key. -/
def build (d : Document) : Outcome Document :=
  match c with
  | .localBatch | .remoteBatch =>
    match d.given? with
    | some given => do
      construct c (put "tasks" (← orderedPairs (← need given "tasks")) given)
    | none => .error .type
  | .batchErrors =>
    match d.given? with
    | some given => do
      return object c [("task_errors", ← orderedPairs (← need given "task_errors"))]
    | none => .error .type
  | .queueTask | .cloudTask =>
    match d.given? with
    | some given => buildRemoteTask c given
    | none => .error .type
  | .simulatorTask =>
    match d.given? with
    | some given => do
      let s ← asRecord TaskSpec.ofSimulatorRecord (← need given "task_ir")
      let r ← asOptionalRecord TaskResults.ofRecord results (← need given "task_result_ir")
      construct c (put "task_result_ir" r (put "task_ir" (simulated s) given))
    | none => .error .type
  | .waveform =>
    match d.given? with
    | some given => do construct c (put "source" (← asSource (← need given "source")) given)
    | none => .error .type
  | _ =>
    match d.given? with
    | some given => construct c given
    | none => .error .argument

/-- A dictionary, or the object that it stands for. -/
def ofMembers (ms : List (String × Document)) : Outcome Document :=
  let asIs := dict (ms.map fun (k, d) => (.text k, d))
  match ms with
  | [(k, d)] =>
    match SavedClass.ofKey? k with
    | some c => build c d
    | none => .ok asIs
  | _ => .ok asIs

mutual

def load : Json → Outcome Document
  | .null => .ok null
  | .bool b => .ok (bool b)
  | .int i => .ok (int i)
  | .binary x => .ok (binary x)
  | .decimal d => .ok (decimal d)
  | .str s => .ok (text s)
  | .arr xs => do return list (← loadItems xs)
  | .obj ms => do ofMembers (← loadMembers ms)

def loadItems : List Json → Outcome (List Document)
  | [] => .ok []
  | x :: xs => do
    let d ← load x
    return d :: (← loadItems xs)

def loadMembers : Members → Outcome (List (String × Document))
  | [] => .ok []
  | (k, x) :: xs => do
    let d ← load x
    return (k, d) :: (← loadMembers xs)

end

/-- Writes a document to text. Only objects of the known classes are written. -/
def dump : Document → Outcome String
  | object c parts => do return (← save (object c parts)).text
  | _ => .error .type

def parse (t : String) : Outcome Document :=
  match parse? .decimal t with
  | some j => load j
  | none => .error (.plain .malformedJson)

end Document

/-! ### Documents of batches -/

def Quantity.document : Quantity → Document
  | .decimal d => .decimal d
  | .binary x => .binary x

mutual

def Param.document : Param Quantity → Document
  | .number v => v.document
  | .whole i => .int i
  | .flag b => .bool b
  | .text s => .text s
  | .none => .null
  | .list xs => .list (Param.documents xs)
  | .array _ => .unsavable
  | .record ms => .dict (Param.memberDocuments ms)

def Param.documents : List (Param Quantity) → List Document
  | [] => []
  | x :: xs => x.document :: Param.documents xs

def Param.memberDocuments : Env Quantity → List (DocumentKey × Document)
  | [] => []
  | (k, x) :: xs => (.text k, x.document) :: Param.memberDocuments xs

end

def envDocument (env : Env Quantity) : Document := .dict (Param.memberDocuments env)

def optionalText (o : Option String) : Document := (o.map Document.text).getD .null

/-- The document of numbered things: pairs in order. -/
def numberedDocument {τ : Type} (f : τ → Document) (ts : Numbered τ) : Document :=
  .list (ts.map fun (k, t) => .list [.int k, f t])

def CompiledWaveform.document (w : CompiledWaveform Quantity) : Document :=
  .object .waveform
    [("assignments", envDocument w.env), ("source", .source (.waveform w.source))]

def targetsDocument (ts : Targets Quantity) : Document :=
  .dict (ts.map fun (a, w) => (.whole a, w.document))

def DetuningTerm.document (t : DetuningTerm Quantity) : Document :=
  .object .detuningTerm [
    ("operator_data", .object .detuningOperator [("target_atoms", targetsDocument t.targets)]),
    ("amplitude", t.amplitude.document)]

def RabiTerm.document (t : RabiTerm Quantity) : Document :=
  .object .rabiTerm [
    ("operator_data", .object .rabiOperator [
      ("operator_type", .int (match t.kind with | .asymmetric => 0 | .symmetric => 1)),
      ("target_atoms", targetsDocument t.targets)]),
    ("amplitude", t.amplitude.document),
    ("phase", (t.phase.map CompiledWaveform.document).getD .null)]

def AtomRegister.document (r : AtomRegister Quantity) : Document :=
  .object .register [
    ("atom_type", .object (match r.kind with
      | .twoLevel => .twoLevels
      | .threeLevel => .threeLevels) []),
    ("sites", .list (r.sites.map fun (x, y) => .tuple [x.document, y.document])),
    ("blockade_radius", r.radius.document)]

def EmulatorProgram.document (p : EmulatorProgram Quantity) : Document :=
  .object .program [
    ("register", p.register.document),
    ("duration", .binary p.duration.toFloat),
    ("pulses", .dict (p.pulses.map fun (c, d) =>
      (.coupling c, .object .fields [
        ("detuning", .list (d.detuning.map DetuningTerm.document)),
        ("rabi", .list (d.rabi.map RabiTerm.document))])))]

def LocalTask.document (t : LocalTask) : Document :=
  let done := (t.results.map Document.results).getD .null
  match t.work with
  | .emulator shots p =>
    .object .emulatorTask [("shots", .int shots), ("emulator_ir", p.document),
      ("metadata", envDocument t.metadata), ("compile_cache", .null), ("task_result_ir", done)]
  | .simulator s =>
    .object .simulatorTask [("task_ir", .simulated s), ("metadata", envDocument t.metadata),
      ("task_result_ir", done)]

def LocalBatch.document (b : LocalBatch) : Document :=
  .object .localBatch [("source", .null), ("tasks", numberedDocument LocalTask.document b.tasks),
    ("name", optionalText b.name)]

def RemoteTask.document (t : RemoteTask Backend) : Document :=
  .object (match t.family with | .queue => .queueTask | .cloud => .cloudTask) [
    ("task_id", optionalText t.id), ("backend", .backend t.service), ("task_ir", .spec t.spec),
    ("metadata", envDocument t.metadata),
    ("parallel_decoder", (t.decoder.map Document.decoder).getD .null),
    ("task_result_ir", (t.results.map Document.results).getD .null)]

def RemoteBatch.document (b : RemoteBatch Backend) : Document :=
  .object .remoteBatch [("source", .null), ("tasks", numberedDocument RemoteTask.document b.tasks),
    ("name", optionalText b.name)]

def TaskError.document (e : TaskError) : Document :=
  .object .taskError [("exception_type", .text e.kind), ("stack_trace", .text e.trace)]

def BatchErrors.document (es : BatchErrors) : Document :=
  .object .batchErrors [("task_errors", numberedDocument TaskError.document es)]

end AtomArray
