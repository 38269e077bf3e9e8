import AtomArray.Wire.Register
import AtomArray.Circuit

/-!
Fields, pulses, sequences and circuits in requests and answers.
-/

namespace AtomArray.Wire

abbrev Field := AtomArray.Field Quantity

abbrev Pulse := AtomArray.Pulse Quantity

variable (j : Json)

def readScale : Outcome Scalar := do castNode (← readArg j)

def keyNumber? : Json → Option Quantity
  | .bool b => some (.decimal (.ofInt (if b then 1 else 0)))
  | .int i => some (.decimal (.ofInt i))
  | .binary x => some (.binary x)
  | _ => none

def sameKey (a b : Json) : Bool :=
  match keyNumber? a, keyNumber? b with
  | some x, some y => Arith.same x y
  | none, none => a.text == b.text
  | _, _ => false

def setKey {α : Type} (k : Json) (v : α) : List (Json × α) → List (Json × α)
  | [] => [(k, v)]
  | (j, u) :: rest => if sameKey j k then (j, v) :: rest else (j, u) :: setKey k v rest

def keyText : Json → String
  | .str s => s
  | .binary x => Binary.text x
  | .null => "None"
  | j => j.text

def locationKey : Json → Outcome Int
  | .int i => .ok i
  | .bool b => .ok (if b then 1 else 0)
  | j => .error (.badLocation (keyText j))

def locationObject : Json → Outcome Int
  | .int i => .ok i
  | .bool b => .ok (if b then 1 else 0)
  | .binary x =>
    match (Binary.exact x).truncate? with
    | some i => .ok i
    | none => .error .refused
  | .str s => required .refused (Text.whole? s)
  | _ => .error .refused

def readPair {α β : Type} (f : Json → Outcome α) (g : Json → Outcome β) : Json → Outcome (α × β)
  | .arr [a, b] => do return (← f a, ← g b)
  | _ => .error badRequest

def plainKey : Json → Outcome Json
  | .arr _ | .obj _ => .error .type
  | j => .ok j

def readKeyed : Outcome (List (Json × Value)) := do
  return (← j.items.mapM (readPair plainKey readArg)).foldl (fun acc p => setKey p.1 p.2 acc) []

def readScales (location : Json → Outcome Int) (j : Json) : Outcome (Scales Quantity) := do
  return Scales.ofPairs (← (← readKeyed j).mapM fun (k, v) => do
    return (← location k, ← v.castScalar))

def readModulation : Json → Outcome (Modulation Quantity)
  | node "Uniform" [] => .ok .uniform
  | node "RunTimeVector" [.str n] => .ok (.vector n)
  | node "AssignedRunTimeVector" [n, .arr vs] => do
    let vs ← vs.mapM fun v => do (rawParam v).stored?
    return .boundVector n.str? vs
  | node "ScaledLocations" [ps] => do return .scaled (← readScales locationKey ps)
  | node "ScaledLocationObjects" [ps] => do return .scaled (← readScales locationObject ps)
  | _ => .error badRequest

def readField : Json → Outcome Field
  | node "Field" [.arr ds] => do
    let ds ← ds.mapM (readPair readModulation readWaveform?)
    let ds ← ds.mapM fun (m, w) => do return (m, ← required .refused w)
    return Field.ofDrives ds
  | node "sum" (f :: gs) => do
    gs.foldlM (fun f g => do f.plus (← readField g)) (← readField f)
  | node "canon" [f] => do (← readField f).canon
  | _ => .error badRequest

def readFieldName : Json → Outcome FieldName
  | .str "detuning" => .ok .detuning
  | .str "amplitude" => .ok .amplitude
  | .str "phase" => .ok .phase
  | _ => .error badRequest

def readFieldMembers : Outcome (List (FieldName × Field)) := do
  return membersOf (← j.items.mapM (readPair readFieldName readField))

def readBounds (start stop : Json) : Outcome (Interval Quantity) := do
  return ⟨← readBound start, ← readBound stop⟩

def nameArgument : Json → Outcome String
  | .str s => .ok s
  | .int i => .ok (toString i)
  | .binary x => .ok (Binary.text x)
  | .decimal d => .ok d.text
  | _ => .error .refused

def readPulse : Json → Outcome Pulse
  | node "Pulse" [fs] | node "PulseDict" [fs] => do return .fields (← readFieldMembers fs)
  | node "NamedPulse" [n, p] => do
    let p ← readPulse p
    return .named (← nameArgument n) p
  | node "PulseAppend" [.arr ps] => do return .append (← ps.mapM fun p => readPulse p)
  | node "PulseSlice" [p, a, b] | node "slice" [p, a, b] => do
    return .slice (← readPulse p) (← readBounds a b)
  | node "append" (p :: ps) => do
    let p ← readPulse p
    return (← ps.mapM fun p => readPulse p).foldl Pulse.join p
  | _ => .error badRequest

def readCoupling : Json → Outcome Coupling
  | .str "rydberg" => .ok .rydberg
  | .str "hyperfine" => .ok .hyperfine
  | _ => .error badRequest

/-- The sequence under a name; a named sequence is not named again. -/
def nameSequence (s : Sequence Quantity) (n : Json) : Outcome (Sequence Quantity) := do
  match s with
  | .named .. => throw .type
  | s => return .named s (← nameArgument n)

def readSequence : Json → Outcome (Sequence Quantity)
  | node "Sequence" [.arr ps] => do return .pulses (membersOf (← ps.mapM (readPair readCoupling readPulse)))
  | node "EmptySequence" [] => .ok (.pulses [])
  | node "NamedSequence" [s, n] => do return .named (← readSequence s) (← nameArgument n)
  | node "SequenceAppend" [.arr ss] => do return .append (← ss.mapM fun s => readSequence s)
  | node "SequenceSlice" [s, a, b] => do return .slice (← readSequence s) (← readBounds a b)
  | node "append" (s :: ss) => do
    let s ← readSequence s
    return (← ss.mapM fun s => readSequence s).foldl Sequence.join s
  | node "slice" (s :: a :: b :: rest) => do
    return .slice (← readSequence s) (← readInterval a b (rest.headD .null))
  | node "name" [s, n] => do nameSequence (← readSequence s) n
  | _ => .error badRequest

def readCircuit : Outcome (Circuit Quantity) := do
  return ⟨← readArrangement j["register"], ← readSequence j["sequence"]⟩

/-! ### Answers -/

def scalesForm (s : Scales Quantity) : Json :=
  each s fun (k, e) => .arr [.int k, scalarForm e]

def modulationForm : Modulation Quantity → Json
  | .uniform => node "Uniform" []
  | .vector n => node "RunTimeVector" [.str n]
  | .boundVector n vs =>
    node "AssignedRunTimeVector" [.ofOption .str n,
      each vs fun v => .str (Arith.text v)]
  | .scaled s => node "ScaledLocations" [scalesForm s]

def fieldForm (f : Field) : Json :=
  node "Field" [each f.drives fun (m, w) => .arr [modulationForm m, waveformForm w]]

def fieldNameForm : FieldName → Json
  | .detuning => .str "detuning"
  | .amplitude => .str "amplitude"
  | .phase => .str "phase"

def pulseForm : Pulse → Json := Bundle.fold {
  members := fun fs => node "Pulse" [each fs fun (n, f) => .arr [fieldNameForm n, fieldForm f]]
  named := fun p n => node "NamedPulse" [.str n, p]
  append := fun ps => node "PulseAppend" [.arr ps]
  slice := fun p i => node "PulseSlice" [p, boundForm i.start, boundForm i.stop] }

def sequenceForm : Sequence Quantity → Json := Bundle.fold {
  members := fun ps => node "Sequence" [each ps fun (c, p) => node c.key [pulseForm p]]
  named := fun s n => node "NamedSequence" [s, .str n]
  append := fun ss => node "SequenceAppend" [.arr ss]
  slice := fun s i => node "SequenceSlice" [s, boundForm i.start, boundForm i.stop] }

def circuitForm (c : Circuit Quantity) : Json :=
  .obj [("register", arrangementForm c.register), ("sequence", sequenceForm c.sequence)]

/-- A field made of the members of a record; only an empty one has suitable members. -/
def fieldOfRecord : List Json → Outcome Field
  | [] => .ok ⟨[]⟩
  | _ => .error (.plain .invalidRecord)

def memberField : Json → Outcome Field
  | .obj [("field", f)] => readField f
  | .obj [("fields", fs)] => fieldOfRecord fs.items
  | .obj [("raw", .obj ms)] => fieldOfRecord (ms.map (·.2))
  | .obj [("pulse", p)] => do
    let _ ← readPulse p
    throw .type
  | _ => .error .type

def memberPulse : Json → Outcome Pulse
  | .obj [("pulse", p)] => readPulse p
  | .obj [("fields", fs)] => do return .fields (← readFieldMembers fs)
  | .obj [("raw", .obj [])] => .ok (.fields [])
  | .obj [("field", f)] => do
    let _ ← readField f
    throw .type
  | _ => .error .type

def pulseOfItems (items : List Json) : Outcome Pulse := do
  return .fields (membersOf (← items.mapM (readPair readFieldName memberField)))

def sequenceOfItems (items : List Json) : Outcome (List (Coupling × Pulse)) := do
  let coupling (j : Json) : Outcome Coupling := (readCoupling j).mapError fun _ => .type
  return membersOf (← items.mapM (readPair coupling memberPulse))

end AtomArray.Wire
