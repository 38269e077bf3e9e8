import AtomArray.Waveform.Eval

/-!
Analyses of waveforms: their names, recorded final values, substitution, constancy, and curves.
-/

namespace AtomArray

variable {N : Type} [Arith N]

def AlignedValue.names : AlignedValue N → List String
  | scalar e => e.names
  | _ => []

def AlignedValue.hasTermSet : AlignedValue N → Bool
  | scalar e => e.hasTermSet
  | _ => false

namespace Waveform

mutual

/-- The parameters of a waveform, recorded names included. -/
def names : Waveform N → List String
  | linear a b d => a.names ++ b.names ++ d.names
  | constant v d => v.names ++ d.names
  | poly cs d => cs.flatMap Scalar.names ++ d.names
  | profile _ d ps _ => d.names ++ ps.flatMap Scalar.names
  | smooth r _ w => names w ++ r.names
  | slice w i => i.names ++ names w
  | append ws => namesAll ws
  | neg w => names w
  | scale s w => names w ++ s.names
  | add a b => names a ++ names b
  | record w n => names w ++ [n]
  | sample w _ dt => dt.names ++ names w
  | aligned w _ v => names w ++ v.names

def namesAll : List (Waveform N) → List String
  | [] => []
  | w :: ws => names w ++ namesAll ws

end

mutual

/-- Does a set of several terms occur, whose order is not fixed? -/
def hasTermSet : Waveform N → Bool
  | linear a b d => a.hasTermSet || b.hasTermSet || d.hasTermSet
  | constant v d => v.hasTermSet || d.hasTermSet
  | poly cs d => cs.any Scalar.hasTermSet || d.hasTermSet
  | profile _ d ps _ => d.hasTermSet || ps.any Scalar.hasTermSet
  | smooth r _ w => r.hasTermSet || hasTermSet w
  | slice w i => i.hasTermSet || hasTermSet w
  | append ws => anyTermSet ws
  | neg w => hasTermSet w
  | scale s w => s.hasTermSet || hasTermSet w
  | add a b => hasTermSet a || hasTermSet b
  | record w _ => hasTermSet w
  | sample w _ dt => dt.hasTermSet || hasTermSet w
  | aligned w _ v => v.hasTermSet || hasTermSet w

def anyTermSet : List (Waveform N) → Bool
  | [] => false
  | w :: ws => hasTermSet w || anyTermSet ws

end

mutual

/-- The environment with the final value of every recorded waveform; values recorded earlier are
already known to later pieces. -/
def scanRecords (env : Env N) : Waveform N → Outcome (Env N)
  | linear .. | constant .. | poly .. | profile .. => .ok env
  | smooth _ _ w => scanRecords env w
  | slice w _ => scanRecords env w
  | append ws => scanRecordsAll env ws
  | neg w => scanRecords env w
  | scale _ w => scanRecords env w
  | add a b => do scanRecords (← scanRecords env a) b
  | record w name => do
    let env ← scanRecords env w
    let v ← w.eval env (← w.length env)
    return Env.insert name (.number v) env
  | sample w _ _ => scanRecords env w
  | aligned .. => .error (.plain .notImplemented)

def scanRecordsAll (env : Env N) : List (Waveform N) → Outcome (Env N)
  | [] => .ok env
  | w :: ws => do scanRecordsAll (← scanRecords env w) ws

end

variable (env : Env N)

def assignBound : Option (Scalar N) → Outcome (Option (Scalar N))
  | none => .ok none
  | some e => do return some (← e.assign env)

def assignAligned : AlignedValue N → Outcome (AlignedValue N)
  | .scalar e => do return .scalar (← e.assign env)
  | v => .ok v

def isBound (params : List (Scalar N)) (name : String) : Bool :=
  params.any fun
    | .assigned n _ => n == name
    | _ => false

mutual

/-- Substitution part by part. A recorded name that the environment supplies is recorded no
longer. -/
def substitute (env : Env N) : Waveform N → Outcome (Waveform N)
  | linear a b d => do return linear (← a.assign env) (← b.assign env) (← d.assign env)
  | constant v d => do return constant (← v.assign env) (← d.assign env)
  | poly cs d => do return poly (← cs.mapM (Scalar.assign env)) (← d.assign env)
  | profile fn d ps defaults => do
    let d ← d.assign env
    let ps ← ps.mapM (Scalar.assign env)
    return profile fn d ps (defaults.filter fun kv => !isBound ps kv.1)
  | smooth r k w => do
    let r ← r.assign env
    return smooth r k (← substitute env w)
  | slice w i => do
    let a ← assignBound env i.start
    let b ← assignBound env i.stop
    return slice (← substitute env w) ⟨a, b⟩
  | append ws => do return append (← substituteAll env ws)
  | neg w => do return neg (← substitute env w)
  | scale s w => do
    let s ← s.assign env
    return scale s (← substitute env w)
  | add a b => do return add (← substitute env a) (← substitute env b)
  | record w n => do
    if env.has n then substitute env w else return record (← substitute env w) n
  | sample w i dt => do
    let dt ← dt.assign env
    return sample (← substitute env w) i dt
  | aligned w a v => do
    let v ← assignAligned env v
    return aligned (← substitute env w) a v

def substituteAll (env : Env N) : List (Waveform N) → Outcome (List (Waveform N))
  | [] => .ok []
  | w :: ws => do return (← substitute env w) :: (← substituteAll env ws)

end

def assign (w : Waveform N) : Outcome (Waveform N) := do (← w.substitute env).canon

/-! ### Constancy -/

/-- The final value as a constant waveform over the whole duration. -/
def finalConstant (w : Waveform N) : Outcome (N × N) := do
  let d ← w.length env
  return (Arith.decimal (← w.eval env d), d)

mutual

/-- Whether a waveform is constant, given whether everything before it was. -/
def staysConstant (env : Env N) (before : Bool) : Waveform N → Outcome Bool
  | constant .. => .ok before
  | linear a b _ => do
    let stop ← b.eval env
    let diff ← Arith.sub stop (← a.eval env)
    return before && Arith.isDecimal 0 diff
  | poly cs _ => do
    let vs ← Scalar.evalAll env cs
    return before && (vs.drop 1).all (Arith.isDecimal 0)
  | profile .. => .ok false
  | append ws => piecesConstant env before none ws
  | add a b => do
    let l ← a.length env
    let r ← b.length env
    if Arith.same l r then staysConstant env (← staysConstant env before a) b else return false
  | aligned w _ _ => staysConstant env before w
  | neg w => staysConstant env before w
  | record w _ => staysConstant env before w
  | sample w _ _ => staysConstant env before w
  | scale _ w => staysConstant env before w
  | slice w _ => staysConstant env before w
  | smooth _ _ w => staysConstant env before w

def piecesConstant (env : Env N) (before : Bool) (value : Option N) :
    List (Waveform N) → Outcome Bool
  | [] => .ok before
  | w :: ws => do
    let own ← staysConstant env true w
    let v := (← w.finalConstant env).1
    let now := before && own && Arith.same v (value.getD v)
    if now then piecesConstant env now (some (value.getD v)) ws else return false

end

/-- Whether a waveform is constant, with its final value over its duration. -/
def constancy (w : Waveform N) : Outcome (Bool × Waveform N) := do
  let c ← w.staysConstant env true
  let (v, d) ← w.finalConstant env
  return (c, constant (.lit v) (.lit d))

end Waveform

/-! ### Curves -/

/-- Evenly spaced numbers from zero to an end, which is met exactly. -/
def evenlySpaced (stop : Float) (n : Nat) : List Float :=
  let step := stop / n.toFloat
  (List.range (n + 1)).map fun i =>
    if n = 0 then i.toFloat * stop
    else if i = n then stop
    else if step == 0.0 then i.toFloat / n.toFloat * stop
    else i.toFloat * step

/-- The times and values of a waveform at `n + 1` evenly spaced times. -/
def Waveform.plainCurve (env : Env Quantity) (w : Waveform Quantity) (n : Nat) :
    Outcome (List Float × List Float) := do
  let d := (← w.length env).toFloat
  let times := evenlySpaced d n
  let values ← times.mapM fun t => do return (← w.measure env (.binary t)).toFloat
  return (times, values)

def Waveform.curve (env : Env Quantity) (w : Waveform Quantity) (n : Nat) :
    Outcome (List Float × List Float) := do
  w.plainCurve (← w.scanRecords env) n

end AtomArray
