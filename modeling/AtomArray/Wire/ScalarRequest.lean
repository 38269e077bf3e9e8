import AtomArray.Wire.Circuit
import AtomArray.Saved.Loaded
import AtomArray.Json.Parser
import AtomArray.Piecewise.Compile

/-!
Saved objects, and requests about scalar expressions, waveforms and piecewise series.
-/

namespace AtomArray.Wire

def pulseClass : Pulse → String
  | .fields _ => "Pulse"
  | .named .. => "NamedPulse"
  | .append _ => "Append"
  | .slice .. => "Slice"

def sequenceClass : Sequence Quantity → String
  | .pulses _ => "Sequence"
  | .named .. => "NamedSequence"
  | .append _ => "Append"
  | .slice .. => "Slice"

def modulationClass : Modulation Quantity → String
  | .uniform => "UniformModulation"
  | .vector _ => "RunTimeVector"
  | .boundVector .. => "AssignedRunTimeVector"
  | .scaled _ => "ScaledLocations"

def loadedClass : Loaded Quantity → String
  | .null => "NoneType"
  | .bool _ => "bool"
  | .int _ => "int"
  | .binary _ => "float"
  | .text _ => "str"
  | .list _ => "list"
  | .dict _ => "dict"
  | .scalar _ => "Scalar"
  | .interval _ => "Interval"
  | .waveform _ => "Waveform"
  | .register a => a.className
  | .location _ => "Location"
  | .modulation m => modulationClass m
  | .field _ => "Field"
  | .pulse p => pulseClass p
  | .sequence s => sequenceClass s
  | .circuit _ => "AnalogCircuit"

def backForm (saved : Json) : Answer := do
  let loaded : Loaded Quantity ← Loaded.ofJson saved
  match loaded with
  | .scalar e => return scalarForm e
  | .waveform w => return waveformForm w
  | .register a => return arrangementForm a
  | l => return node "?" [.str (loadedClass l)]

def readText (t : String) : Answer :=
  match Json.parse? .binary t with
  | some j => .ok j
  | none => .error (.plain .malformedJson)

variable (request : Json)

def scalarPart : Scalar → String
  | .lit _ => "literal"
  | .var _ => "variable"
  | .assigned .. => "default_variable"
  | .neg _ => "negative"
  | .add .. => "add"
  | .mul .. => "mul"
  | .div .. => "div"
  | .min _ => "min"
  | .max _ => "max"
  | .slice .. => "slice"

def scalarQuestion (e : Scalar) (env : Env) (q : Question) : Answer :=
  match q.name with
  | "ir" => .ok (scalarForm e)
  | "str" => textUnless e.hasTermSet e.text
  | "base_str" => textUnless e.hasTermSet e.tree.render
  | "tree" => textUnless e.hasTermSet (e.tree.render {} (q.arg 0).int?)
  | "vars" => .ok (nameList e.names)
  | "value" => (e.eval env).map quantity
  | "assign" => (e.assign env).map scalarForm
  | "canon" => e.canon.map scalarForm
  | "eq" => do return .bool (e.same (← readScalar (q.arg 0)))
  | "json" => textUnless e.hasTermSet (.ok e.saved.text)
  | "back" => backForm e.saved
  | _ => .error badRequest

def inapplicableQuestion (q : Question) : Answer :=
  match q.name with
  | "ir" => .ok (valueForm .inapplicable)
  | "str" => .ok (.str "NotImplemented")
  | "value" | "json" | "back" => .error .type
  | "vars" | "assign" => .error (.unknownNode "NotImplementedType")
  | _ => .error .part

def scalarRequest : Answer := do
  let env ← readEnv request["env"]
  let v ← readExpr request["expr"]
  if request["visitor"] matches .str "base" then
    match v with
    | .scalar e => return fault (.notHandled (scalarPart e) "ScalarVisitor")
    | _ => return fault (.unknownNode "NotImplementedType")
  let qs := questions request ["ir", "str", "vars", "value"]
  match v with
  | .scalar e => return .obj (answers qs (scalarQuestion e env))
  | .inapplicable => return .obj (answers qs inapplicableQuestion)
  | v => return .obj (answers qs fun q => if q.name = "ir" then .ok (valueForm v) else .error .part)

def intervalRequest : Answer := do
  let i : Interval Quantity :=
    ⟨← readBound request["start"], ← readBound request["stop"]⟩
  let bounds := [("start", i.start), ("stop", i.stop)].filterMap fun (k, b) =>
    b.map fun e => (k, scalarForm e)
  let children : Answer :=
    if bounds.isEmpty then .error .intervalWithoutBounds else .ok (.obj bounds)
  return .obj [("str", outcome (textUnless i.hasTermSet i.text)),
    ("tree", outcome (textUnless i.hasTermSet i.tree.render)), ("children", outcome children)]

def quantities (xs : List Quantity) : Json := each xs quantity

def seriesForm (times values : List Quantity) : Json := .arr [quantities times, quantities values]

def readQuantity : Json → Outcome Quantity
  | .str t => do return .decimal (← readDecimal t)
  | .int i => .ok (.decimal (.ofInt i))
  | .binary x => .ok (.binary x)
  | _ => .error badRequest

def atTimes (j : Json) (f : Quantity → Answer) : Answer := do
  return .arr (← j.items.mapM fun t => do return outcome (f (← readQuantity t)))

def waveformQuestion (w : Waveform) (env : Env) (q : Question) : Answer :=
  match q.name with
  | "ir" => .ok (waveformForm w)
  | "canon" => w.canon.map waveformForm
  | "str" => textUnless w.hasTermSet w.tree.render
  | "tree" => textUnless w.hasTermSet (w.tree.render {} (q.arg 0).int?)
  | "duration" => w.duration.map scalarForm
  | "duration_value" => (w.length env).map quantity
  | "eval" => atTimes (q.arg 0) fun t => (w.eval env t).map quantity
  | "call" => atTimes (q.arg 0) fun t => (w.measure env t).map quantity
  | "smooth" => atTimes (q.arg 0) fun t => (w.eval env t).map fun v => fix 6 v.toFloat
  | "samples" =>
    match w with
    | .sample w _ dt => (w.samples env dt).map fun (ts, vs) => seriesForm ts vs
    | _ => .error .part
  | "data" => do
    let (ts, vs) ← w.curve env ((q.arg 0).nat?.getD 0)
    return .arr [each ts binary, each vs binary]
  | "vars" => .ok (nameList w.names)
  | "records" => (w.scanRecords env).map envForm
  | "assign" => (w.assign env).map waveformForm
  | "is_constant" => do
    let (c, w) ← w.constancy env
    return .arr [.bool c, waveformForm w]
  | "pwl" => (PiecewiseLinear.ofWaveform env w).map fun p => seriesForm p.times p.values
  | "pwc" => (PiecewiseConstant.ofWaveform env w).map fun p => seriesForm p.times p.values
  | "json" => savedText w.hasTermSet w.saved
  | "back" => do backForm (← w.saved)
  | "eq" => do
    return .bool ((← readWaveform? (q.arg 0)).any w.same)
  | _ => .error badRequest

def noWaveformQuestion (q : Question) : Answer :=
  match q.name with
  | "ir" | "canon" | "back" => .ok .null
  | "str" => .ok (.str "None")
  | "json" => .ok (.str "null")
  | "eval" | "smooth" => atTimes (q.arg 0) fun _ => .error .part
  | "call" => atTimes (q.arg 0) fun _ => .error .type
  | "eq" => do return .bool (← readWaveform? (q.arg 0)).isNone
  | "vars" | "records" | "assign" | "is_constant" | "pwl" | "pwc" => .error .value
  | _ => .error .part

def waveformRequest : Answer := do
  let env ← readEnv request["env"]
  let w ← readWaveform? request["wf"]
  if request["visitor"] matches .str "base" then
    return fault (.plain (if w.isSome then .notImplemented else .wrongValue))
  let qs := questions request ["ir", "duration", "duration_value", "vars"]
  match w with
  | some w => return .obj (answers qs (waveformQuestion w env))
  | none => return .obj (answers qs noWaveformQuestion)

end AtomArray.Wire
