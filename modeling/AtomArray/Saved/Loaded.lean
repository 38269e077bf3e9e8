import AtomArray.Circuit
import AtomArray.Json.Record

/-!
Reading saved objects back.

A saved object is a JSON object with a single member: its key says what the object is, and the
members of its value are the parts. Reading goes from the leaves up. Parts that are missing or
unknown are a fault of type; parts of the wrong kind are refused, except that the operations that
take a single number or name are asked for an argument.
-/

namespace AtomArray

inductive Loaded (N : Type) where
  | null
  | bool (b : Bool)
  | int (i : Int)
  | binary (x : Float)
  | text (s : String)
  | list (items : List (Loaded N))
  | dict (members : List (String × Loaded N))
  | scalar (e : Scalar N)
  | interval (i : Interval N)
  | waveform (w : Waveform N)
  | register (a : Arrangement N)
  | location (k : Int)
  | modulation (m : Modulation N)
  | field (f : Field N)
  | pulse (p : Pulse N)
  | sequence (s : Sequence N)
  | circuit (c : Circuit N)

variable {N : Type} [Arith N]

abbrev Parts (N : Type) := List (String × Loaded N)

namespace Loaded

def plain : Loaded N → Json
  | null => .null
  | bool b => .bool b
  | int i => .int i
  | binary x => .binary x
  | text s => .str s
  | list _ => .arr []
  | _ => .obj []

/-! ### Parts of records -/

variable (ps : Parts N)

/-- All parts must be there, and there must be no others. -/
def checkParts (required : List String) (optional : List String := []) : Outcome Unit :=
  if required.all (fun k => (ps.lookup k).isSome) &&
      ps.all fun p => required.contains p.1 || optional.contains p.1 then .ok ()
  else .error .type

def part (key : String) : Loaded N := (ps.lookup key).getD null

def asScalar : Loaded N → Outcome (Scalar N)
  | scalar e => .ok e
  | _ => .error .refused

def asBound : Loaded N → Outcome (Option (Scalar N))
  | null => .ok none
  | x => (asScalar x).map some

def asInterval : Loaded N → Outcome (Interval N)
  | interval i => .ok i
  | _ => .error .refused

def asWaveform : Loaded N → Outcome (Waveform N)
  | waveform w => .ok w
  | _ => .error .refused

def asSequence : Loaded N → Outcome (Sequence N)
  | sequence s => .ok s
  | _ => .error .refused

def asPulse : Loaded N → Outcome (Pulse N)
  | pulse p => .ok p
  | _ => .error .refused

def asList {α : Type} (item : Loaded N → Outcome α) : Loaded N → Outcome (List α)
  | list xs => xs.mapM item
  | _ => .error .refused

variable (x : Loaded N)

def asNumber : Outcome N := (Json.asDecimal x.plain).map Arith.ofDecimal

def asText (x : Loaded N) : Outcome String := Json.asText x.plain

/-! ### Arguments of operations -/

/-- Is it a single number, name or expression? -/
def isScalarLike : Loaded N → Bool
  | bool _ | int _ | binary _ | text _ | scalar _ => true
  | _ => false

def castScalar : Loaded N → Outcome (Scalar N)
  | int i => .ok (.const (.ofInt i))
  | binary x => .ok (.const (Binary.textDecimal x))
  | text s => Scalar.named s
  | scalar e => .ok e
  | bool _ => .error (.plain .undefinedOperation)
  | list _ => .error .refused
  | _ => .error .type

/-- Checks the arguments that are given before it is asked which ones are missing. -/
def checkArguments (keys : List String) (fits : Loaded N → Bool) : Outcome Unit :=
  if keys.all fun k => ((ps.lookup k).map fits).getD true then .ok () else .error .argument

def isWhole : Loaded N → Bool
  | int _ | bool _ => true
  | _ => false

def isFlag : Loaded N → Bool
  | bool _ => true
  | _ => false

def isScalarList : Loaded N → Bool
  | list xs => xs.all isScalarLike
  | _ => false

def whole : Loaded N → Int
  | int i => i
  | bool b => if b then 1 else 0
  | _ => 0

def standardSpacing : Scalar N := .const (.finite false 10 (-1))

def spacing (key : String) : Outcome (Scalar N) :=
  match ps.lookup key with
  | some x => castScalar x
  | none => .ok standardSpacing

/-! ### Scalars and waveforms -/

variable (head : String)

def buildScalar (ps : Parts N) : Outcome (Option (Loaded N)) := do
  match head with
  | "literal" =>
    checkParts ps ["value"]
    return some (scalar (.lit (← asNumber (part ps "value"))))
  | "variable" =>
    checkParts ps ["name"]
    return some (scalar (← Scalar.named (← asText (part ps "name"))))
  | "assigned_variable" =>
    checkParts ps ["name", "value"]
    let name ← checkName (← asText (part ps "name"))
    return some (scalar (.assigned name (← asNumber (part ps "value"))))
  | "negative" =>
    checkParts ps ["expr"]
    return some (scalar (.neg (← asScalar (part ps "expr"))))
  | "add" =>
    checkParts ps ["lhs", "rhs"]
    return some (scalar (.add (← asScalar (part ps "lhs")) (← asScalar (part ps "rhs"))))
  | "mul" =>
    checkParts ps ["lhs", "rhs"]
    return some (scalar (.mul (← asScalar (part ps "lhs")) (← asScalar (part ps "rhs"))))
  | "div" =>
    checkParts ps ["lhs", "rhs"]
    return some (scalar (.div (← asScalar (part ps "lhs")) (← asScalar (part ps "rhs"))))
  | "min" =>
    checkParts ps ["exprs"]
    return some (scalar (.min (Scalar.termSet (← asList asScalar (part ps "exprs")))))
  | "max" =>
    checkParts ps ["exprs"]
    return some (scalar (.max (Scalar.termSet (← asList asScalar (part ps "exprs")))))
  | "slice_scalar" =>
    checkParts ps ["expr", "interval"]
    let e ← asScalar (part ps "expr")
    let i ← asInterval (part ps "interval")
    return some (scalar (.slice e i.start i.stop))
  | "interval" =>
    checkParts ps ["start", "stop"]
    return some (interval ⟨← asBound (part ps "start"), ← asBound (part ps "stop")⟩)
  | _ => return none

def asAlignment : Outcome Alignment :=
  match x with
  | text s =>
    match Alignment.ofName? s with
    | some a => .ok a
    | none => .error .refused
  | _ => .error .refused

def asAlignedValue : Loaded N → Outcome (AlignedValue N)
  | scalar e => .ok (.scalar e)
  | text "left_value" => .ok .left
  | text "right_value" => .ok .right
  | _ => .error .refused

def asInterpolation : Loaded N → Outcome Interpolation
  | text s =>
    match Interpolation.ofName? s with
    | some i => .ok i
    | none => .error .refused
  | _ => .error .refused

def asVariable : Loaded N → Outcome String
  | scalar (.var n) => .ok n
  | _ => .error .refused

def asKernel : Loaded N → Outcome Kernel
  | text s =>
    match Kernel.ofLabel? s with
    | some k => .ok k
    | none => .error (.unknownKernel s)
  | _ => .error .refused

def buildWaveform (ps : Parts N) : Outcome (Option (Loaded N)) := do
  match head with
  | "constant" =>
    checkArguments ps ["value", "duration"] isScalarLike
    checkParts ps ["value", "duration"]
    let v ← castScalar (part ps "value")
    return some (waveform (.constant v (← castScalar (part ps "duration"))))
  | "linear" =>
    checkArguments ps ["start", "stop", "duration"] isScalarLike
    checkParts ps ["start", "stop", "duration"]
    let a ← castScalar (part ps "start")
    let b ← castScalar (part ps "stop")
    return some (waveform (.linear a b (← castScalar (part ps "duration"))))
  | "poly" =>
    checkArguments ps ["coeffs"] isScalarList
    checkArguments ps ["duration"] isScalarLike
    checkParts ps ["coeffs", "duration"]
    let cs ← asList castScalar (part ps "coeffs")
    return some (waveform (.poly cs (← castScalar (part ps "duration"))))
  | "negative_waveform" =>
    checkParts ps ["waveform"]
    return some (waveform (.neg (← asWaveform (part ps "waveform"))))
  | "add_waveform" =>
    checkParts ps ["left", "right"]
    return some (waveform (.add (← asWaveform (part ps "left")) (← asWaveform (part ps "right"))))
  | "scale" =>
    checkParts ps ["scalar", "waveform"]
    let s ← castScalar (part ps "scalar")
    return some (waveform (.scale s (← asWaveform (part ps "waveform"))))
  | "slice_waveform" =>
    checkParts ps ["waveform", "interval"]
    let w ← asWaveform (part ps "waveform")
    return some (waveform (.slice w (← asInterval (part ps "interval"))))
  | "sample" =>
    checkParts ps ["waveform", "interpolation", "dt"]
    let w ← asWaveform (part ps "waveform")
    let i ← asInterpolation (part ps "interpolation")
    return some (waveform (.sample w i (← asScalar (part ps "dt"))))
  | "append_waveform" =>
    checkParts ps ["waveforms"]
    return some (waveform (.append (← asList asWaveform (part ps "waveforms"))))
  | "record" =>
    checkParts ps ["waveform", "var"]
    let w ← asWaveform (part ps "waveform")
    return some (waveform (.record w (← asVariable (part ps "var"))))
  | "smooth" =>
    checkParts ps ["radius", "kernel", "waveform"]
    let k ← asKernel (part ps "kernel")
    let r ← castScalar (part ps "radius")
    return some (waveform (.smooth r k (← asWaveform (part ps "waveform"))))
  | "alligned" =>
    checkParts ps ["waveform", "alignment", "value"]
    let w ← asWaveform (part ps "waveform")
    let a ← asAlignment (part ps "alignment")
    return some (waveform (.aligned w a (← asAlignedValue (part ps "value"))))
  | _ => return none

/-! ### Registers -/

def buildLattice (make : Int → Lattice N) (ps : Parts N) : Outcome (Loaded N) := do
  checkArguments ps ["L"] isWhole
  checkArguments ps ["lattice_spacing"] isScalarLike
  checkParts ps ["L"] ["lattice_spacing"]
  let s ← spacing ps "lattice_spacing"
  return register (.plain (.ofLattice (make (whole (part ps "L"))) s))

def isOptionalScalar : Bool := (x matches null) || isScalarLike x

def buildRegister (ps : Parts N) : Outcome (Option (Loaded N)) := do
  match head with
  | "chain" =>
    checkArguments ps ["L"] isWhole
    checkArguments ps ["lattice_spacing"] isScalarLike
    checkArguments ps ["vertical_chain"] isFlag
    checkParts ps ["L"] ["lattice_spacing", "vertical_chain"]
    let s ← spacing ps "lattice_spacing"
    let vertical := part ps "vertical_chain" matches bool true
    return some (register (.plain (.ofLattice (.chain (whole (part ps "L")) vertical) s)))
  | "square" => return some (← buildLattice .square ps)
  | "honeycomb" => return some (← buildLattice .honeycomb ps)
  | "kagome" => return some (← buildLattice .kagome ps)
  | "lieb" => return some (← buildLattice .lieb ps)
  | "triangular" => return some (← buildLattice .triangular ps)
  | "rectangular" =>
    checkArguments ps ["width", "height"] isWhole
    checkArguments ps ["lattice_spacing_x"] isScalarLike
    checkArguments ps ["lattice_spacing_y"] isOptionalScalar
    checkParts ps ["width", "height"] ["lattice_spacing_x", "lattice_spacing_y"]
    let x ← spacing ps "lattice_spacing_x"
    let y ← match part ps "lattice_spacing_y" with
      | null => pure none
      | y => (castScalar y).map some
    let r ← Register.rectangular (whole (part ps "width")) (whole (part ps "height")) x y
    return some (register (.plain r))
  | "list_of_locations" =>
    checkArguments ps ["location_list"] fun
      | list [] => true
      | _ => false
    checkParts ps [] ["location_list"]
    return some (register (.plain (.list [])))
  | "parallel_register" =>
    checkArguments ps ["register"] fun
      | register (.plain _) => true
      | _ => false
    checkArguments ps ["cluster_spacing"] isScalarLike
    checkParts ps ["register", "cluster_spacing"]
    match part ps "register" with
    | register (.plain r) =>
      let t ← Tiling.ofRegister r (← castScalar (part ps "cluster_spacing"))
      return some (register (.tiled t))
    | _ => throw .argument
  | _ => return none

/-! ### Drives, sequences and circuits -/

def asDrive : Loaded N → Outcome (Drive N)
  | list [modulation m, waveform w] => .ok (m, w)
  | _ => .error .refused

/-- The drives of a field: pairs of a modulation and a waveform. -/
def asDrives : Loaded N → Outcome (Field N)
  | list ds => do return Field.ofDrives (← ds.mapM asDrive)
  | dict [] => .ok ⟨[]⟩
  | _ => .error .refused

/-- The fields of a pulse by plain names, which no field has. -/
def asNamedFields : Loaded N → Outcome (Pulse N)
  | dict [] => .ok (.fields [])
  | dict ms => do
    ms.forM fun (_, x) => do
      match x with
      | field _ => pure ()
      | dict ds => let _ ← asDrives (dict ds)
      | _ => throw .type
    return .fields []
  | _ => .error .part

/-- The scales by plain texts, which are no locations. -/
def asNamedScales : Loaded N → Outcome (Modulation N)
  | dict [] => .ok (.scaled [])
  | dict ((k, _) :: _) => .error (.badLocation k)
  | _ => .error .part

/-- The pulses by plain texts, which are no transitions. -/
def asNamedPulses : Loaded N → Outcome (Sequence N)
  | null => .ok (.pulses [])
  | dict [] => .ok (.pulses [])
  | dict _ => .error .type
  | _ => .error .part

/-- A modulation, field, pulse, sequence or circuit of its parts. -/
def buildDrive (ps : Parts N) : Outcome (Option (Loaded N)) := do
  match head with
  | "sequence" =>
    checkParts ps [] ["seq_pairs"]
    return some (sequence (← asNamedPulses (part ps "seq_pairs")))
  | "named_sequence" =>
    checkParts ps ["sequence"] ["name"]
    let s ← asSequence (part ps "sequence")
    return some (sequence (.named s (← asText (part ps "name"))))
  | "append_sequence" =>
    checkParts ps ["sequences"]
    return some (sequence (.append (← asList asSequence (part ps "sequences"))))
  | "slice_sequence" =>
    checkParts ps ["sequence", "interval"]
    let s ← asSequence (part ps "sequence")
    return some (sequence (.slice s (← asInterval (part ps "interval"))))
  | "pulse" =>
    checkParts ps ["field_pairs"]
    return some (pulse (← asNamedFields (part ps "field_pairs")))
  | "append_pulse" =>
    checkParts ps ["pulses"]
    return some (pulse (.append (← asList asPulse (part ps "pulses"))))
  | "named_pulse" =>
    checkParts ps ["name", "pulse"]
    let n ← asText (part ps "name")
    return some (pulse (.named n (← asPulse (part ps "pulse"))))
  | "slice_pulse" =>
    checkParts ps ["pulse", "interval"]
    let p ← asPulse (part ps "pulse")
    return some (pulse (.slice p (← asInterval (part ps "interval"))))
  | "location" =>
    checkParts ps ["value"]
    return some (location (← Json.asWhole (part ps "value").plain))
  | "scaled_locations" =>
    checkParts ps ["pairs"]
    return some (modulation (← asNamedScales (part ps "pairs")))
  | "uniform" => throw .type
  | "run_time_vector" =>
    checkParts ps ["name"]
    return some (modulation (.vector (← asText (part ps "name"))))
  | "assigned_run_time_vector" =>
    checkParts ps ["name", "value"]
    let n ← Json.asOptional Json.asText (part ps "name").plain
    return some (modulation (.boundVector n (← asList asNumber (part ps "value"))))
  | "field" =>
    checkParts ps ["drives"]
    return some (field (← asDrives (part ps "drives")))
  | "analog_circuit" =>
    checkParts ps ["atom_arrangement", "sequence"]
    match part ps "atom_arrangement" with
    | register a => return some (circuit ⟨a, ← asSequence (part ps "sequence")⟩)
    | _ => throw .refused
  | _ => return none

/-! ### Objects -/

/-- The keys that say what an object is. -/
def heads : List String :=
  ["literal", "variable", "assigned_variable", "negative", "add", "mul", "div", "min", "max",
    "slice_scalar", "interval", "constant", "linear", "poly", "negative_waveform", "add_waveform",
    "scale", "slice_waveform", "sample", "append_waveform", "record", "smooth", "alligned", "chain",
    "honeycomb", "kagome", "lieb", "list_of_locations", "rectangular", "square", "triangular",
    "parallel_register", "sequence", "named_sequence", "append_sequence", "slice_sequence",
    "pulse", "append_pulse", "named_pulse", "slice_pulse", "location", "scaled_locations",
    "uniform", "run_time_vector", "assigned_run_time_vector", "field", "analog_circuit"]

/-- The first of several readings that knows the key. -/
def firstOf (head : String) (ps : Parts N) :
    List (String → Parts N → Outcome (Option (Loaded N))) → Outcome (Loaded N)
  | [] => .error .type
  | f :: fs => do
    match ← f head ps with
    | some x => return x
    | none => firstOf head ps fs

def build : List (String × Loaded N) → Outcome (Loaded N)
  | [(head, body)] =>
    if heads.contains head then
      match body with
      | dict ps => firstOf head ps [buildScalar, buildWaveform, buildRegister, buildDrive]
      | _ => .error .type
    else .ok (dict [(head, body)])
  | ms => .ok (dict ms)

mutual

/-- Reads a saved text from the leaves up. -/
def ofJson : Json → Outcome (Loaded N)
  | .null => .ok null
  | .bool b => .ok (bool b)
  | .int i => .ok (int i)
  | .binary x => .ok (binary x)
  | .decimal d => .ok (binary (Binary.ofDecimal d))
  | .str s => .ok (text s)
  | .arr xs => do return list (← ofItems xs)
  | .obj ms => do build (← ofMembers ms)

def ofItems : List Json → Outcome (List (Loaded N))
  | [] => .ok []
  | x :: xs => do return (← ofJson x) :: (← ofItems xs)

def ofMembers : Members → Outcome (List (String × Loaded N))
  | [] => .ok []
  | (k, x) :: xs => do return (k, ← ofJson x) :: (← ofMembers xs)

end

end Loaded

end AtomArray
