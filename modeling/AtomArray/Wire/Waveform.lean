import AtomArray.Wire.Value
import AtomArray.Waveform.Text

/-!
Waveforms in requests and answers.
-/

namespace AtomArray.Wire

open Waveform

abbrev Waveform := AtomArray.Waveform Quantity

def required {α : Type} (f : Fault) : Option α → Outcome α
  | some a => .ok a
  | none => .error f

def scalarArguments (vs : List Value) : Outcome (List Scalar) := do
  if !vs.all Value.isScalarLike then throw .argument
  vs.mapM Value.castScalar

def readArgList (j : Json) : Outcome (List Value) :=
  match j with
  | .arr xs => xs.mapM readArg
  | j => do
    match ← readArg j with
    | .list vs => return vs
    | _ => throw .argument

/-- The expression that a node keeps; a sequence of expressions is refused. -/
def castNode (v : Value) : Outcome Scalar := do
  match ← v.cast with
  | .scalar e => return e
  | _ => throw .refused

def recordName (v : Value) : Outcome String := do
  match ← v.cast with
  | .scalar (.var n) => return n
  | _ => throw .refused

def profileWaveform (name : String) (v : Value) : Outcome Waveform := do
  match Profile.ofName? name with
  | none => throw badRequest
  | some p =>
    -- the profile is checked before its duration is read
    let _ ← ofProfile p (Scalar.zeroLit : Scalar)
    ofProfile p (← castNode v)

def linesBetween : List Scalar → List Scalar → List Waveform
  | d :: ds, a :: b :: vs => .linear a b d :: linesBetween ds (b :: vs)
  | _, _ => []

def joinAll : List Waveform → Outcome (Option Waveform)
  | [] => .error .argument
  | w :: ws => do return some (← ws.foldlM join w)

def readInterpolation (j : Json) : Outcome Interpolation :=
  required .refused (j.str? >>= Interpolation.ofName?)

def readAlignment (f : Fault) (j : Json) : Outcome Alignment :=
  required f (j.str? >>= Alignment.ofName?)

def alignWith (w : Waveform) (alignment : Option Alignment) (shown : String)
    (v : Value) : Outcome (Option Waveform) :=
  match v with
  | .none => do
    if alignment.isNone then throw (.unknownAlignment shown)
    return none
  | v => do
    let e ← castNode v
    return some (.aligned w (← required .refused alignment) (.scalar e))

def readAlignedValue : Json → Outcome (AlignedValue Quantity)
  | .obj [("aligned", .str "left_value")] => .ok .left
  | .obj [("aligned", .str "right_value")] => .ok .right
  | j => do return .scalar (← asPart (← readExpr j))

def readInterval (start stop step : Json) : Outcome (Interval Quantity) := do
  Value.interval (← readArg start) (← readArg stop) (← readArg step)

abbrev Answered := Outcome (Option Waveform)

def scaled (w : Waveform) (v : Value) : Answered := do
  return some (.scale (← castNode v) w)

def basic (vs : List Value) : Answered := do
  match ← scalarArguments vs with
  | [a, b, d] => return some (.linear a b d)
  | [v, d] => return some (.constant v d)
  | _ => throw badRequest

/-- A part of a waveform. What is no waveform is a fault. -/
def part (f : Fault) (w : Option Waveform) (i : Interval Quantity) : Answered := do
  return some (.slice (← required f w) i)

def sum (f g : Fault) (w v : Option Waveform) : Answered := do
  return some (← (← required f w).plus (← required g v))

def sampled (w : Option Waveform) (i : Json) (dt : Scalar) : Answered := do
  return some (.sample (← required .refused w) (← readInterpolation i) dt)

mutual

def readWaveform? : Json → Answered
  | node "linear" [a, b, d] | node "f_linear" [d, a, b] => do basic (← [a, b, d].mapM readArg)
  | node "constant" [v, d] | node "f_constant" [d, v] => do basic (← [v, d].mapM readArg)
  | node "poly" [cs, d] => do
    let cs ← readArgList cs
    let d ← readArg d
    if !d.isScalarLike then throw .argument
    return some (.poly (← scalarArguments cs) (← d.castScalar))
  | node "fn" [.str name, d] => do return some (← profileWaveform name (← readArg d))
  | node "decorated" [.str name, d] => do
    let d ← readArg d
    if !d.isScalarLike then throw .argument
    return some (← profileWaveform name d)
  | node "slice" (w :: a :: b :: rest) => do
    part .type (← readWaveform? w) (← readInterval a b (rest.headD .null))
  | node "append" (w :: ws) => do
    let first ← readWaveform? w
    let rest ← readWaveforms? ws
    rest.foldlM (fun acc v => do
      let acc ← required .part acc
      return some (← acc.join (← required .refused v))) first
  | node "neg" [w] => do return some (.neg (← required .type (← readWaveform? w)))
  | node "scale" [s, w] => do
    let s ← readArg s
    scaled (← required .part (← readWaveform? w)) s
  | node "rmul" [s, w] => do
    let s ← readArg s
    scaled (← required .type (← readWaveform? w)) s
  | node "mul" [w, s] => do scaled (← required .type (← readWaveform? w)) (← readArg s)
  | node "div" [w, s] => do
    let w ← required .type (← readWaveform? w)
    match ← (← readArg s).cast with
    | .scalar e => return some (.scale (← (Scalar.const 1).dividedBy e) w)
    | _ => throw .type
  | node "add" [w, v] => do sum .type .type (← readWaveform? w) (← readWaveform? v)
  | node "addm" [w, v] => do sum .part .refused (← readWaveform? w) (← readWaveform? v)
  | node "sub" [w, v] => do
    sum .type .type (← readWaveform? w) ((← readWaveform? v).map .neg)
  | node "add_raw" [w, x] | node "sub_raw" [w, x] => do
    let _ ← readWaveform? w
    let _ ← readArg x
    throw .type
  | node "radd" [x, w] => do
    let _ ← readArg x
    let _ ← readWaveform? w
    throw .type
  | node "rsubs" [w, v] => do
    let w ← required .part (← readWaveform? w)
    if v matches .arr (.str _ :: _) then (← readWaveform? v).mapM (·.plus (.neg w))
    else return none
  | node "align_raw" (w :: a :: rest) => do
    let w ← required .part (← readWaveform? w)
    let v := rawValue (rest.headD .null)
    alignWith w (a.str? >>= Alignment.ofName?) (a.str?.getD a.text) v
  | node "align" [w, a, v] => do
    let w ← required .part (← readWaveform? w)
    let alignment ← readAlignment .value a
    match v with
    | .obj [("aligned", .str t)] => alignWith w (some alignment) "" (.text t)
    | v => alignWith w (some alignment) "" (← readArg v)
  | node "record" [w, n] => do
    return some (.record (← required .part (← readWaveform? w)) (← recordName (← readArg n)))
  | node "sample" [w, i, dt] => do
    sampled (← readWaveform? w) i (← castNode (← readArg dt))
  | node "fn_sample" [w, i, dt] => do
    match ← readWaveform? w with
    | w@(some (.profile ..)) => sampled w i (← castNode (← readArg dt))
    | _ => throw .part
  | node "smooth" [r, .str k, w] => do
    let w ← required .part (← readWaveform? w)
    let r ← castNode (← readArg r)
    return some (.smooth r (← required badRequest (Kernel.ofName? k)) w)
  | node "Smooth" [r, .str k, w] => do
    let r ← readArg r
    let w ← required .refused (← readWaveform? w)
    match Kernel.ofLabel? k with
    | none => throw (.unknownKernel k)
    | some k => return some (.smooth (← castNode r) k w)
  | node "pwl" [ds, vs] => do
    let ds ← readArgList ds
    let vs ← readArgList vs
    if !(ds ++ vs).all Value.isScalarLike then throw .argument
    if ds.length + 1 ≠ vs.length then throw .factoryLinearLengths
    joinAll (linesBetween (← ds.mapM Value.castScalar) (← vs.mapM Value.castScalar))
  | node "pwc" [ds, vs] => do
    let ds ← readArgList ds
    let vs ← readArgList vs
    if !(ds ++ vs).all Value.isScalarLike then throw .argument
    if ds.length ≠ vs.length then throw .factoryConstantLengths
    joinAll ((← vs.mapM Value.castScalar).zipWith constant (← ds.mapM Value.castScalar))
  | node "canon" [w] => do (← readWaveform? w).mapM canon
  | node "Linear" [a, b, d] => do
    return some (.linear (← readScalar a) (← readScalar b) (← readScalar d))
  | node "Constant" [v, d] => do
    return some (.constant (← readScalar v) (← readScalar d))
  | node "Poly" [.arr cs, d] => do
    return some (.poly (← cs.mapM readScalar) (← readScalar d))
  | node "Append" [.arr ws] => do
    return some (.append (← (← readWaveforms? ws).mapM (required .refused)))
  | node "Negative" [w] => do return some (.neg (← required .refused (← readWaveform? w)))
  | node "Scale" [s, w] => do
    return some (.scale (← readScalar s) (← required .refused (← readWaveform? w)))
  | node "Add" [l, r] => do
    let l ← readWaveform? l
    let r ← readWaveform? r
    return some (.add (← required .refused l) (← required .refused r))
  | node "Slice" [w, a, b] => do
    part .refused (← readWaveform? w) ⟨← readBound a, ← readBound b⟩
  | node "Record" [w, v] => do
    let w ← readWaveform? w
    match ← readExpr v with
    | .scalar (.var n) => return some (.record (← required .refused w) n)
    | _ => throw .refused
  | node "Sample" [w, i, dt] => do sampled (← readWaveform? w) i (← readScalar dt)
  | node "AlignedWaveform" [w, a, v] => do
    let w ← readWaveform? w
    let v ← readAlignedValue v
    return some (.aligned (← required .refused w) (← readAlignment .refused a) v)
  | .null => .ok none
  | _ => .error badRequest

def readWaveforms? : List Json → Outcome (List (Option Waveform))
  | [] => .ok []
  | w :: ws => do return (← readWaveform? w) :: (← readWaveforms? ws)

end

def readWaveform (j : Json) : Outcome Waveform := do
  required .refused (← readWaveform? j)

def alignedValueForm : AlignedValue Quantity → Json
  | .scalar e => scalarForm e
  | .left => .obj [("aligned", .str "left_value")]
  | .right => .obj [("aligned", .str "right_value")]

def waveformForm : Waveform → Json
  | .linear a b d => node "Linear" [scalarForm a, scalarForm b, scalarForm d]
  | .constant v d => node "Constant" [scalarForm v, scalarForm d]
  | .poly cs d => node "Poly" [each cs scalarForm, scalarForm d]
  | .profile fn d ps ds =>
    node "PythonFn" [.str fn.name, scalarForm d, each ps scalarForm,
      .obj (ds.map fun (n, v) => (n, .str (Arith.text v)))]
  | .smooth r k w => node "Smooth" [scalarForm r, .str k.name, waveformForm w]
  | .slice w i => node "Slice" [waveformForm w, boundForm i.start, boundForm i.stop]
  | .append ws => node "Append" [.arr (ws.map fun w => waveformForm w)]
  | .neg w => node "Negative" [waveformForm w]
  | .scale s w => node "Scale" [scalarForm s, waveformForm w]
  | .add a b => node "Add" [waveformForm a, waveformForm b]
  | .record w n => node "Record" [waveformForm w, node "Variable" [.str n]]
  | .sample w i dt => node "Sample" [waveformForm w, .str i.name, scalarForm dt]
  | .aligned w a v =>
    node "AlignedWaveform" [waveformForm w, .str a.name, alignedValueForm v]

mutual

def paramForm : Param → Json
  | .number v => quantity v
  | .whole i => .int i
  | .flag b => .bool b
  | .text s => .str s
  | .none => .null
  | .list xs | .array xs => .arr (xs.map fun x => paramForm x)
  | .record ms => .obj (paramMembers ms)

def paramMembers : List (String × Param) → Members
  | [] => []
  | (k, x) :: xs => (k, paramForm x) :: paramMembers xs

end

def envForm (env : Env) : Json := .obj (env.map fun (k, v) => (k, paramForm v))

end AtomArray.Wire
