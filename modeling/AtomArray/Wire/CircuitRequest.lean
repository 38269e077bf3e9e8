import AtomArray.Wire.Emulator
import AtomArray.Wire.ScalarRequest

/-!
Requests about registers, fields, pulses and circuits.
-/

namespace AtomArray.Wire

/-! ### Registers -/

def registerState (r : Register) : Json :=
  .obj [("class", .str r.className),
    ("sites", outcome (r.sites.map fun ss => each ss siteForm)),
    ("n_atoms", outcome (r.atomCount.map .int)),
    ("n_sites", outcome (r.siteCount.map .int)),
    ("n_vacant", outcome (r.vacantCount.map .int)),
    ("n_dims", outcome (r.dimensions.map (.ofOption .int)))]

def arrangementState : Arrangement Quantity → Json
  | .plain r => registerState r
  | .tiled t => .obj [("class", .str (Arrangement.tiled t).className)]

def coordinateForm : Coordinate Quantity → Answer
  | .whole i => .ok (sci (Lattice.toBinary i))
  | .real x => .ok (sci x)
  | .expr (.lit v) => .ok (sci v.toFloat)
  | .expr _ => .error .type

def coordinatePairs (ps : List (Coordinate Quantity × Coordinate Quantity)) : Answer := do
  return .arr (← ps.mapM fun (x, y) => do return .arr [← coordinateForm x, ← coordinateForm y])

def rawArgument : Json → Value
  | .obj [("array", v)] => arrayValue (.arr (arrayItems v.items))
  | .obj [("raw", v)] => rawValue v
  | j => rawValue j

def binaryArgument : Value → Outcome Float
  | .binary x => .ok x
  | _ => .error .argument

def registerStep (r : Register) (step : Json) : Outcome (Json × Register) := do
  let changed (r : Outcome Register) : Outcome (Json × Register) :=
    r.map fun r => (registerState r, r)
  match step with
  | node "add_position" (p :: rest) => changed do
    addPosition r (← readPosition p) (rawArgument (rest.headD .null))
  | node "scale" [s] => changed do r.scale (← (← readArg s).scalarArgument)
  | node "defect_count" [n, draws] => changed do
    let n ← wholeArgument (← readArg n)
    r.defectCount n (fun xs i => item? xs i) (draws.items.filterMap Json.int?)
  | node "defect_density" [p, draws] => changed do
    r.defectDensity (← binaryArgument (← readArg p)) (draws.items.filterMap fun
      | .binary x => some x
      | .int i => some (Lattice.toBinary i)
      | _ => none)
  | node "remove_vacant" [] => changed r.removeVacant
  | node "iter" [] => return (each (← r.sites) siteForm, r)
  | node "coordinates" [index] =>
    match r with
    | .lattice l _ _ =>
      return (← coordinatePairs (← l.coordinates (index.items.filterMap Json.int?)), r)
    | .list _ => throw .part
  | _ => throw badRequest

def arrangementQuestion (a : Arrangement Quantity) (env : Env) (q : Question) : Answer :=
  match q.name with
  | "ir" => .ok (arrangementForm a)
  | "vars" => a.names.map nameList
  | "assign" => (a.assign env).map arrangementForm
  | "str" => textUnless a.hasTermSet a.shownText
  | "tree" => textUnless a.hasTermSet (a.tree.render {} (q.arg 0).int?)
  | "json" => savedText a.hasTermSet a.saved
  | "back" => do backForm (← a.saved)
  | "cell" =>
    match a with
    | .plain (.lattice l _ _) => do
      return .arr [← coordinatePairs l.vectors, ← coordinatePairs l.basis]
    | _ => .error .part
  | "parallel" =>
    match a with
    | .plain r => do return tilingForm (← tilingOf r (← readArg (q.arg 0)))
    | .tiled _ => .error .argument
  | "base_visitor" => .error (.plain .notImplemented)
  | _ => .error badRequest

def registerRequest (request : Json) : Answer := do
  let env ← readEnv request["env"]
  let a ← readArrangement request["start"]
  let qs := questions request []
  let first := arrangementState a
  let (later, a) := match a with
    | .plain r =>
      let (js, r) := stepAnswers registerStep r request["steps"].items
      (js, Arrangement.plain r)
    | .tiled t => ([], .tiled t)
  return .obj (("steps", .arr (first :: later)) :: answers qs (arrangementQuestion a env))

def sharesForm (env : Env) (m : Modulation Quantity) : Answer := do
  let (names, weights) ← m.shares env
  return .arr [each names (.ofOption .str), each weights .str]

def fieldQuestion (f : Field) (env : Env) (q : Question) : Answer :=
  match q.name with
  | "ir" => .ok (fieldForm f)
  | "canon" => f.canon.map fieldForm
  | "tree" => textUnless f.hasTermSet (f.tree.render {} (q.arg 0).int?)
  | "mod_data" => .ok (each f.drives fun d => outcome (sharesForm env d.1))
  | "mod_trees" => .ok (each f.drives fun d =>
      outcome (textUnless d.1.hasTermSet d.1.tree.render))
  | "add" => do return fieldForm (← f.plus (← readField (q.arg 0)))
  | "add_bad" => .error .value
  | "eq" => do return .bool (f.same (← readField (q.arg 0)))
  | "bool" => .ok (each f.drives fun d =>
      .bool (match d.1 with
        | .scaled s => !s.isEmpty
        | _ => true))
  | _ => .error badRequest

def locationsForm (s : Scales Quantity) : Json := modulationForm (.scaled s)

def locationsStep (s : Scales Quantity) (step : Json) : Outcome (Json × Scales Quantity) := do
  match step with
  | node "set" [.int k, v] =>
    let s := s.insert k (← readScale v)
    return (locationsForm s, s)
  | node "set_raw" _ => throw (.plain .brokenPromise)
  | node "get" [.int k] =>
    match s.lookup k with
    | some e => return (scalarForm e, s)
    | none => throw (.plain .missingKey)
  | node "bool" [] => return (.bool !s.isEmpty, s)
  | _ => throw badRequest

/-- A question about a pulse. Only a plain pulse has data. -/
def pulseQuestion (p : Pulse) (q : Question) : Answer :=
  match q.name with
  | "ir" => .ok (pulseForm p)
  | "tree" => textUnless p.hasTermSet (p.tree.render {} (q.arg 0).int?)
  | "data" =>
    match p with
    | .fields _ => .ok .null
    | .named .. => .error .part
    | _ => .error .type
  | "json" => savedText p.hasTermSet p.saved
  | "base_visitor" => .error (.plain .notImplemented)
  | _ => .error badRequest

/-! ### Circuits -/

def circuitNamesForm (ns : CircuitNames) : Json :=
  .obj [("scalar", nameList ns.scalars), ("vector", nameList ns.vectors)]

def circuitQuestion (c : Circuit Quantity) (env : Env) (q : Question) : Answer :=
  match q.name with
  | "circuit" => .ok (circuitForm c)
  | "register" => .ok (arrangementForm c.register)
  | "sequence" => .ok (sequenceForm c.sequence)
  | "vars" => c.names.map circuitNamesForm
  | "seq_tree" => textUnless c.sequence.hasTermSet (c.sequence.tree.render {} (q.arg 0).int?)
  | "seq_str" => textUnless c.sequence.hasTermSet c.sequence.tree.render
  | "circuit_tree" => textUnless c.hasTermSet (c.tree.render {} (q.arg 0).int?)
  | "is_constant" => do
    let (b, c) ← c.constancy env
    return .arr [.bool b, circuitForm c]
  | "hyperfine" => .ok (.bool c.sequence.drivesHyperfine)
  | "assign" => (c.assign env).map circuitForm
  | "scan" => (c.scanRecords env).map envForm
  | "json_sequence" => savedText c.sequence.hasTermSet c.sequence.saved
  | "json_circuit" => savedText c.hasTermSet c.saved
  | "base_visitor" => .error (.plain .notImplemented)
  | "eq" => do return .bool (c.same (← readCircuit (q.arg 0)))
  | "ahs" => do programForm (← compileHardware c env (q.arg 0) (q.arg 1))
  | "emulator" => (compileEmulator c env (q.arg 0) (q.arg 1)).map emulatorForm
  | _ => .error badRequest

end AtomArray.Wire
