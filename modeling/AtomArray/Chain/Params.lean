import AtomArray.Circuit

/-!
Programs written as a chain of steps: a register, a transition to drive, the field of the drive,
where it acts, waveforms, and then how the parameters are supplied. A step that the one before does
not offer (`Chain.offers`) is refused as a missing part.

Parameters are fixed values, a batch of values, and names left to be supplied as arguments. They are
checked against the names of a circuit: a scalar takes a number, and a vector a list with a number
for each site.
-/

namespace AtomArray

inductive Step (N : Type) where
  | rydberg
  | hyperfine
  | detuning
  | rabi
  | amplitude
  | phase
  | uniform
  | location (scales : Scales N)
  | vector (name : String)
  | values (items : List (Param N))
  | linear (start stop duration : Scalar N)
  | constant (value duration : Scalar N)
  | poly (coeffs : List (Scalar N)) (duration : Scalar N)
  | apply (waveform : Waveform N)
  | piecewiseLinear (durations values : List (Scalar N))
  | piecewiseConstant (durations values : List (Scalar N))
  | profile (fn : Profile) (duration : Scalar N)
  | sample (dt : Scalar N) (interpolation : Option Interpolation)
  | slice (start stop : Option (Scalar N))
  | record (name : String)
  | sequence (s : Sequence N)
  | assign (params : Env N)
  | columns (params : List (Env N))
  | batch (params : List (Env N))
  | args (names : List String)
  | parallelize (spacing : Scalar N)

/-- A program as a chain: its register and its steps. -/
structure Chain (N : Type) where
  register : Register N
  steps : List (Step N) := []

/-- The sorts of steps, by what may follow them. -/
inductive StepSort where
  | coupling
  | rabi
  | field
  | modulation
  | shape
  | profile
  | sample
  | slice
  | record
  | sequence
  | assign
  | batch
  | args
  | parallelize
  deriving DecidableEq

namespace Step

variable {N : Type}

def sort : Step N → StepSort
  | rydberg | hyperfine => .coupling
  | rabi => .rabi
  | detuning | amplitude | phase => .field
  | uniform | location _ | vector _ | values _ => .modulation
  | linear .. | constant .. | poly .. | apply _ | piecewiseLinear .. | piecewiseConstant .. => .shape
  | profile .. => .profile
  | sample .. => .sample
  | slice .. => .slice
  | record _ => .record
  | sequence _ => .sequence
  | assign _ => .assign
  | columns _ | batch _ => .batch
  | args _ => .args
  | parallelize _ => .parallelize

def name : Step N → String
  | rydberg => "Rydberg"
  | hyperfine => "Hyperfine"
  | detuning => "Detuning"
  | rabi => "Rabi"
  | amplitude => "RabiAmplitude"
  | phase => "RabiPhase"
  | uniform => "Uniform"
  | location _ => "Location"
  | vector _ | values _ => "Scale"
  | linear .. => "Linear"
  | constant .. => "Constant"
  | poly .. => "Poly"
  | apply _ => "Apply"
  | piecewiseLinear .. => "PiecewiseLinear"
  | piecewiseConstant .. => "PiecewiseConstant"
  | profile .. => "Fn"
  | sample .. => "Sample"
  | slice .. => "Slice"
  | record _ => "Record"
  | sequence _ => "SequenceBuilder"
  | assign _ => "Assign"
  | columns _ => "BatchAssign"
  | batch _ => "ListAssign"
  | args _ => "Args"
  | parallelize _ => "Parallelize"

end Step

/-- What can be asked of a chain next. -/
inductive Offer where
  /-- A transition to drive. -/
  | coupling
  /-- A ready-made sequence. -/
  | sequence
  /-- The detuning, or the choice between amplitude and phase. -/
  | drive
  /-- The amplitude or the phase. -/
  | rabi
  /-- Where a drive acts. -/
  | modulation
  /-- A waveform. -/
  | shape
  | sample
  | slice
  | record
  | assign
  | batch
  | args
  | parallelize
  /-- A device to run on. -/
  | device
  deriving DecidableEq

namespace StepSort

def endsWaveform : StepSort → Bool
  | shape | profile | sample | slice | record => true
  | _ => false

def offers (s : StepSort) : Offer → Bool
  | .coupling => s.endsWaveform
  | .sequence => false
  | .drive => s.endsWaveform || s == coupling
  | .rabi => s.endsWaveform || s == rabi
  | .modulation => s.endsWaveform || s == field
  | .shape => (s.endsWaveform && s != sample) || s == modulation
  | .sample => s == profile
  | .slice => s.endsWaveform && s != slice
  | .record => s.endsWaveform && s != record
  | .assign => s.endsWaveform || s == sequence
  | .batch => s.endsWaveform || s == sequence || s == assign
  | .args => s.endsWaveform || s == sequence || s == assign || s == batch
  | .parallelize => s.endsWaveform || s == sequence || s == assign || s == batch || s == args
  | .device =>
    s.endsWaveform || s == sequence || s == assign || s == batch || s == args || s == parallelize

end StepSort

namespace Chain

variable {N : Type}

/-- What may come next in a chain. A register alone offers a transition or a whole sequence. -/
def offers (c : Chain N) (o : Offer) : Bool :=
  match c.steps.getLast? with
  | some s => s.sort.offers o
  | none => o == .coupling || o == .sequence

def demand (c : Chain N) (o : Offer) : Outcome Unit :=
  if c.offers o then .ok () else .error .part

def push (c : Chain N) (s : Step N) : Chain N := { c with steps := c.steps ++ [s] }

def names (c : Chain N) : List String := c.register.className :: c.steps.map Step.name

end Chain

/-! ### Parameters -/

/-- How the parameters of a program are supplied. -/
structure Params (N : Type) where
  fixed : Env N := []
  batch : List (Env N) := [[]]
  args : List String := []

section

variable {N : Type} [Arith N]

/-! ### Checking supplied values -/

def Param.asNumber : Param N → Outcome N
  | .number v => .ok (Arith.decimal v)
  | .whole i => .ok (Arith.ofInt i)
  | .flag _ => .error (.plain .undefinedOperation)
  | _ => .error .type

def Param.asVector (name : String) (sites : Int) : Param N → Outcome (Param N)
  | .list xs | .array xs =>
    if (xs.length : Int) ≠ sites then .error (.parameterLength name sites.toNat xs.length)
    else do return .list ((← xs.mapM Param.asNumber).map .number)
  | _ => .error .type

/-- What the values are checked against. -/
structure ParamRules where
  sites : Int
  names : CircuitNames

namespace ParamRules

def check (r : ParamRules) (name : String) (p : Param N) : Outcome (Param N) :=
  if r.names.vectors.contains name then p.asVector name r.sites
  else if r.names.scalars.contains name then p.asNumber.map .number
  else .error (.parameterUnknown name)

def checkAll (r : ParamRules) (env : Env N) : Outcome (Env N) :=
  env.mapM fun (n, p) => do return (n, ← r.check n p)

end ParamRules

/-! ### Batches -/

def Param.column : Param N → Outcome (List (Param N))
  | .list xs | .array xs => .ok xs
  | .text s => .ok (s.toList.map fun c => .text c.toString)
  | .record ms => .ok (ms.map fun (k, _) => .text k)
  | _ => .error .type

def rowsOf (columns : List (String × List (Param N))) : List (Env N) :=
  match columns with
  | [] => []
  | (_, xs) :: _ => (List.range xs.length).map fun i =>
    columns.filterMap fun (n, ys) => (ys[i]?).map (n, ·)

/-- The rows of a batch given by columns, which have to be of one length. -/
def columnRows (env : Env N) : Outcome (List (Env N)) := do
  let columns ← env.mapM fun (n, p) => do return (n, ← p.column)
  match columns.map fun (_, xs) => xs.length with
  | [] => return []
  | n :: ns => if ns.all (· == n) then return rowsOf columns else .error .batchColumnsDiffer

def batchNames (rows : List (Env N)) : List String :=
  (rows.flatMap fun r => r.map Prod.fst).foldl (fun ns n => if ns.contains n then ns else ns ++ [n]) []

def quoted (s : String) : String := "'" ++ s ++ "'"

/-- Names in round brackets, a comma after a single one. -/
def tupleText : List String → String
  | [] => "()"
  | [n] => "(" ++ quoted n ++ ",)"
  | ns => "(" ++ String.intercalate ", " (ns.map quoted) ++ ")"

/-- Refuses a batch in which one row lacks a name that another has. -/
def checkBatchNames (rows : List (Env N)) : Outcome Unit :=
  let all := batchNames rows
  rows.zipIdx.forM fun (r, i) =>
    let missing := all.filter fun n => (r.lookup n).isNone
    if missing.isEmpty then .ok () else .error (.batchMissingKeys i (tupleText missing))

/-! ### Assignments -/

/-- The decimal of an argument; a text is one if it reads as a decimal. -/
def Param.asArgument : Param N → Outcome N
  | .number v => .ok (Arith.decimal v)
  | .whole i => .ok (Arith.ofInt i)
  | .text s =>
    match Decimal.ofText? s with
    | some d => .ok (Arith.ofDecimal d)
    | Option.none => .error (.plain .undefinedOperation)
  | _ => .error (.plain .undefinedOperation)

variable (p : Params N)

namespace Params

def named (values : List (Param N)) : Outcome (Env N) := do
  if values.length ≠ p.args.length then throw (.argumentCount p.args.length values.length)
  return p.args.zip ((← values.mapM Param.asArgument).map .number)

/-- The assignments of the batch: the arguments, and over them the values of each row. -/
def points (values : List (Param N)) : Outcome (List (Env N)) := do
  let given ← p.named values
  return p.batch.map fun row => given.extend row

end Params

/-! ### Text -/

def paramText : Param N → String
  | .number v => Arith.text v
  | .list xs =>
    "[" ++ String.intercalate ", " (xs.map fun
      | .number v => "Decimal('" ++ Arith.text v ++ "')"
      | _ => "") ++ "]"
  | _ => ""

mutual

def Param.shownInside : Param Quantity → String
  | .number (.decimal d) => "Decimal('" ++ d.text ++ "')"
  | .text s => quoted s
  | p => p.shown

def Param.shown : Param Quantity → String
  | .number v => v.text
  | .whole i => toString i
  | .flag b => if b then "True" else "False"
  | .text s => s
  | .none => "None"
  | .list xs => "[" ++ String.intercalate ", " (shownItems xs) ++ "]"
  | .array xs => "[" ++ String.intercalate " " (shownItems xs) ++ "]"
  | .record fs => "\x7b" ++ String.intercalate ", " (shownFields fs) ++ "\x7d"

def Param.shownItems : List (Param Quantity) → List String
  | [] => []
  | x :: xs => x.shownInside :: shownItems xs

def Param.shownFields : Env Quantity → List String
  | [] => []
  | (k, v) :: fs => (quoted k ++ ": " ++ v.shownInside) :: shownFields fs

end

def Params.text : String :=
  let fixed := p.fixed.map fun (n, v) => s!" :: {n} \n      => " ++ paramText v ++ "\n"
  let batch := p.batch.zipIdx.map fun (row, i) =>
    s!"- batch {i}:\n" ++ String.join (row.map fun (n, v) =>
      s!"   :: {n}\n       => " ++ paramText v ++ "\n")
  "> Static params:\n" ++ String.join fixed ++ "\n> Batch params:\n" ++ String.join batch
    ++ "\n> Arguments:\n  " ++ tupleText p.args

end

end AtomArray
