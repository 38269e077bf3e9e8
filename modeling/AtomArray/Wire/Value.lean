import AtomArray.Scalar.Text
import AtomArray.Scalar.Cast

/-!
Values and scalar expressions in requests and answers.

An answer is JSON. A fault is an object with its kind and, if it is explained, the first line of
the explanation. `answers` answers a list of questions one by one; a name asked again is numbered.
-/

namespace AtomArray.Wire

abbrev Answer := Outcome Json

instance : GetElem Json String Json fun _ _ => True := ⟨fun j key _ => j.getD key⟩

def each {α : Type} (xs : List α) (form : α → Json) : Json := .arr (xs.map form)

@[match_pattern] def node (name : String) (parts : List Json) : Json := .arr (.str name :: parts)

/-- Where an explanation is cut: at the first line break or backspace, and where it begins to
write out drives. -/
def cutMessage (s : String) : String :=
  let line := String.ofList (s.toList.takeWhile fun c => c ≠ '\n' && c ≠ '\x08')
  (line.splitOn "Field(drives").headD ""

def isShowable (s : String) : Bool :=
  !s.isEmpty && ["<class", "<function", " at 0x"].all fun w => (s.splitOn w).length == 1

def shownMessage? (f : Fault) : Option String := do
  let line := cutMessage (← f.message?)
  if isShowable line then some line else none

def faultMembers (f : Fault) : Members :=
  ("error", .str f.kind.name) :: ((shownMessage? f).map fun line => ("message", .str line)).toList

def fault (f : Fault) : Json := .obj (faultMembers f)

def outcome : Answer → Json
  | .ok j => j
  | .error f => fault f

def whole : Answer → Json
  | .ok j => .obj [("ok", j)]
  | .error f => fault f

/-! ### Numbers -/

def nonFinite? (x : Float) : Option String :=
  if x.isNaN then some "nan" else if x.isInf then some (if x < 0 then "-inf" else "inf") else none

/-- A binary number; one that is not finite is written as text. -/
def binary (x : Float) : Json := ((nonFinite? x).map .str).getD (.binary x)

def decimal (d : Decimal) : Json := .str d.text

def quantity : Quantity → Json
  | .decimal d => decimal d
  | .binary x => binary x

def dropZeroSign (s : String) : String :=
  if s.startsWith "-" && s.toList.all (fun c => !c.isDigit || c = '0') then
    String.ofList (s.toList.drop 1)
  else s

/-- A text with eight decimals of the mantissa. -/
def sci (x : Float) : Json :=
  .str ((nonFinite? x).getD
    (if x == 0.0 then "0.00000000e+00" else Binary.scientific 8 x))

def fix (n : Nat) (x : Float) : Json :=
  .str ((nonFinite? x).getD (dropZeroSign (Binary.fixed n x)))

/-! ### Questions -/

structure Question where
  name : String
  args : List Json

/-- Reads a question: a name alone, or a name followed by arguments. -/
def Question.ofJson : Json → Question
  | .str s => ⟨s, []⟩
  | .arr (.str s :: args) => ⟨s, args⟩
  | _ => ⟨"", []⟩

def Question.arg (q : Question) (i : Nat) : Json := q.args.getD i .null

def questions (request : Json) (standard : List String) : List Question :=
  match request.get? "ask" with
  | some (.arr qs) => qs.map Question.ofJson
  | _ => standard.map (⟨·, []⟩)

def numbered : List String → List String → List String
  | _, [] => []
  | seen, n :: rest =>
    let before := seen.count n
    let shown := if before = 0 then n else n ++ "#" ++ toString (before + 1)
    shown :: numbered (n :: seen) rest

def answers (qs : List Question) (f : Question → Answer) : Members :=
  (numbered [] (qs.map (·.name))).zip (qs.map fun q => outcome (f q))

/-- The answers of steps one after the other, and what is left in the end. -/
def inTurn {σ α : Type} (step : σ → α → Json × σ) (s : σ) : List α → List Json × σ
  | [] => ([], s)
  | a :: as =>
    let (answer, s) := step s a
    let (rest, s) := inTurn step s as
    (answer :: rest, s)

/-- The answers of steps that can fail; one that does changes nothing. -/
def stepAnswers {σ : Type} (step : σ → Json → Outcome (Json × σ)) : σ → List Json → List Json × σ :=
  inTurn fun s j =>
    match step s j with
    | .ok (j, s) => (j, s)
    | .error f => (fault f, s)

def unordered : Json := .str "unordered"

def savedText (unfixed : Bool) (saved : Answer) : Answer := do
  let j ← saved
  return if unfixed then unordered else .str j.text

def textUnless (unfixed : Bool) (t : Outcome String) : Answer :=
  if unfixed then .ok unordered else t.map .str

open Scalar

abbrev Scalar := AtomArray.Scalar Quantity

abbrev Param := AtomArray.Param Quantity

abbrev Env := AtomArray.Env Quantity

def readBinary (t : String) : Float := (Binary.ofText? t).getD 0.0

mutual

/-- The parts of a value that `f` replaces, replaced. -/
def replaced (f : Json → Option Json) (j : Json) : Json :=
  match f j, j with
  | some k, _ => k
  | none, .arr xs => .arr (xs.map fun x => replaced f x)
  | none, .obj ms => .obj (replacedMembers f ms)
  | none, j => j

def replacedMembers (f : Json → Option Json) : Members → Members
  | [] => []
  | (k, x) :: xs => (k, replaced f x) :: replacedMembers f xs

end

def withBinaries : Json → Json :=
  replaced fun
    | .obj [("f", .str t)] => some (.binary (readBinary t))
    | _ => none

def badRequest : Fault := .plain .scriptEnded

def readDecimal (s : String) : Outcome Decimal :=
  match Decimal.ofText? s with
  | some d => .ok d
  | none => .error (.plain .undefinedOperation)

/-! ### Plain values -/

/-- The sorts of items that decide how an array stores all of them. -/
inductive ArraySort where
  | flags
  | wholes
  | binaries
  | texts
  | mixed
  deriving DecidableEq

def ArraySort.join : ArraySort → ArraySort → ArraySort
  | .mixed, _ | _, .mixed => .mixed
  | .texts, _ | _, .texts => .texts
  | .binaries, _ | _, .binaries => .binaries
  | .wholes, _ | _, .wholes => .wholes
  | .flags, .flags => .flags

def arraySort : Json → ArraySort
  | .bool _ => .flags
  | .int _ => .wholes
  | .binary _ => .binaries
  | .str _ => .texts
  | .arr xs => (xs.map fun x => arraySort x).foldr .join .flags
  | _ => .mixed

def storedAs : ArraySort → Json → Json
  | s, .arr xs => .arr (xs.map fun x => storedAs s x)
  | .wholes, .bool b => .int (if b then 1 else 0)
  | .binaries, .bool b => .binary (if b then 1.0 else 0.0)
  | .texts, .bool b => .str (if b then "True" else "False")
  | .binaries, .int i => .binary (Binary.ofDecimal (.ofInt i))
  | .texts, .int i => .str (toString i)
  | .texts, .binary x => .str (Binary.text x)
  | _, j => j

def arrayItems (xs : List Json) : List Json := xs.map (storedAs (arraySort (.arr xs)))

mutual

def rawValue : Json → Value
  | .null => .none
  | .bool b => .flag b
  | .int i => .whole i
  | .binary x => .binary x
  | .decimal d => .decimal d
  | .str s => .text s
  | .arr xs => .list (xs.map fun x => rawValue x)
  | .obj ms => .record (rawMembers ms)

def rawMembers : Members → List (String × Value)
  | [] => []
  | (k, x) :: xs => (k, rawValue x) :: rawMembers xs

end

def arrayValue : Json → Value
  | .arr xs => .array (xs.map fun x => arrayValue x)
  | j => rawValue j

/-! ### Scalar expressions -/

def asScalar : Value → Outcome Scalar
  | .scalar e => .ok e
  | v => v.castScalar

def asPart : Value → Outcome Scalar
  | .scalar e => .ok e
  | _ => .error .refused

def ofCast : Cast → Value
  | .scalar e => .scalar e
  | .list xs => .list (xs.map fun c => ofCast c)
  | .tuple xs => .tuple (xs.map fun c => ofCast c)
  | .array xs => .array (xs.map fun c => ofCast c)

def operator? : String → Option (Scalar → Scalar → Outcome Scalar)
  | "+" => some plus
  | "-" => some minus
  | "*" => some times
  | "/" => some dividedBy
  | _ => none

def pairNode (form : Scalar → Scalar → Scalar) (a b : Value) : Outcome Value := do
  return .scalar (form (← asPart a) (← asPart b))

def cutNode (e : Scalar) (start stop step : Value) : Outcome Value := do
  return .scalar (← (e.cut (← Value.interval start stop step)).canon)

def plainArg : Json → Outcome Value
  | .obj [("raw", v)] => .ok (rawValue v)
  | .obj [("array", v)] => .ok (arrayValue (.arr (arrayItems v.items)))
  | .obj [("dec", .str t)] => do return .decimal (← readDecimal t)
  | j => .ok (rawValue j)

mutual

/-- An argument: a value handed over as it is; a list is an expression. -/
def readArg : Json → Outcome Value
  | .arr xs => readForm xs
  | .obj [("tuple", .arr xs)] => do return .tuple (← xs.mapM fun x => readArg x)
  | j => plainArg j

def readExpr : Json → Outcome Value
  | .arr xs => readForm xs
  | .obj [("tuple", .arr xs)] => do
    return ofCast (← (Value.tuple (← xs.mapM fun x => readArg x)).cast)
  | j => do return ofCast (← (← plainArg j).cast)

def readForm : List Json → Outcome Value
  | [.str "cast", x] => do return ofCast (← (← readArg x).cast)
  | [.str "dec", .str t] => do return .scalar (.const (← readDecimal t))
  | [.str "py_var", x] => do return ofCast (← (← readArg x).var)
  | [.str "neg", x] => do return .scalar (← (← asScalar (← readExpr x)).opposite)
  | [.str "canon", x] => do return .scalar (← (← asScalar (← readExpr x)).canon)
  | [.str "min", x, y] => do
    Value.extremum lesser (← asScalar (← readExpr x)) (← readArg y)
  | [.str "max", x, y] => do
    Value.extremum greater (← asScalar (← readExpr x)) (← readArg y)
  | [.str "getitem", x, start, stop] => do
    cutNode (← asScalar (← readExpr x)) (← readArg start) (← readArg stop) .none
  | [.str "getitem", x, start, stop, step] => do
    cutNode (← asScalar (← readExpr x)) (← readArg start) (← readArg stop) (← readArg step)
  | [.str "Literal", .str t] => do return .scalar (.const (← readDecimal t))
  | [.str "Variable", .str n] => do return .scalar (← named n)
  | [.str "AssignedVariable", .str n, .str t] => do
    let d ← readDecimal t
    return .scalar (.assigned (← checkName n) (.decimal d))
  | [.str "Negative", x] => do return .scalar (.neg (← asPart (← readExpr x)))
  | [.str "Add", x, y] => do pairNode .add (← readExpr x) (← readExpr y)
  | [.str "Mul", x, y] => do pairNode .mul (← readExpr x) (← readExpr y)
  | [.str "Div", x, y] => do pairNode .div (← readExpr x) (← readExpr y)
  | [.str "Min", .arr xs] => do
    return .scalar (.min (termSet (← (← xs.mapM fun x => readExpr x).mapM asPart)))
  | [.str "Max", .arr xs] => do
    return .scalar (.max (termSet (← (← xs.mapM fun x => readExpr x).mapM asPart)))
  | [.str "Slice", x, start, stop] => do
    let e ← readExpr x
    let a ← readBound start
    let b ← readBound stop
    return .scalar (.slice (← asPart e) a b)
  | [.str sign, x, y] => do
    match operator? sign with
    | some op => Value.operate op (← readArg x) (← readArg y)
    | none => throw badRequest
  | _ => .error badRequest

def readBound : Json → Outcome (Option Scalar)
  | .null => .ok none
  | j => do return some (← asPart (← readExpr j))

end

variable (j : Json)

def readScalar : Outcome Scalar := do asScalar (← readExpr j)

/-! ### Environments -/

mutual

def paramOf : Value → Param
  | .flag b => .flag b
  | .whole i => .whole i
  | .binary x => .number (.binary x)
  | .decimal d => .number (.decimal d)
  | .text s => .text s
  | .list xs => .list (xs.map fun x => paramOf x)
  | .record ms => .record (paramsOf ms)
  | _ => .none

def paramsOf : List (String × Value) → List (String × Param)
  | [] => []
  | (k, x) :: xs => (k, paramOf x) :: paramsOf xs

end

def rawParam : Param := paramOf (rawValue j)

def readParam : Json → Outcome Param
  | .str t => do return .number (.decimal (← readDecimal t))
  | .arr xs => do return .list (← xs.mapM fun x => readParam x)
  | .obj [("raw", v)] => .ok (rawParam v)
  | .obj [("array", v)] => .ok (.array ((arrayItems v.items).map rawParam))
  | j => .ok (rawParam j)

def readEnv : Outcome Env :=
  j.members.mapM fun (k, v) => do return (k, ← readParam v)

/-! ### Answers -/

mutual

/-- The form of an expression in answers; terms of a set stand in the order of their text. -/
def scalarForm : Scalar → Json
  | .lit v => node "Literal" [.str (Arith.text v)]
  | .var n => node "Variable" [.str n]
  | .assigned n v => node "AssignedVariable" [.str n, .str (Arith.text v)]
  | .neg e => node "Negative" [scalarForm e]
  | .add a b => node "Add" [scalarForm a, scalarForm b]
  | .mul a b => node "Mul" [scalarForm a, scalarForm b]
  | .div a b => node "Div" [scalarForm a, scalarForm b]
  | .min ts => node "Min" [.arr (sortForms (ts.map fun t => scalarForm t))]
  | .max ts => node "Max" [.arr (sortForms (ts.map fun t => scalarForm t))]
  | .slice e a b => node "Slice" [scalarForm e, boundForm a, boundForm b]

def boundForm : Option Scalar → Json
  | none => .null
  | some e => scalarForm e

def sortForms (forms : List Json) : List Json :=
  (forms.map fun j => (j.text, j)).mergeSort (fun a b => decide (a.1 ≤ b.1)) |>.map (·.2)

end

def valueForm : Value → Json
  | .scalar e => scalarForm e
  | .list xs | .tuple xs | .array xs => .arr (xs.map fun v => valueForm v)
  | .none => .null
  | .inapplicable => other "NotImplementedType"
  | .whole _ => other "int"
  | .binary _ => other "float"
  | .decimal _ => other "Decimal"
  | .flag _ => other "bool"
  | .text _ => other "str"
  | .record _ => other "dict"
where
  other (sort : String) : Json := node "?" [.str sort]

def sortedNames (names : List String) : List String :=
  names.eraseDups.mergeSort fun a b => decide (a ≤ b)

def nameList (names : List String) : Json := each (sortedNames names) .str

mutual

/-- The extents of an array; items of different extents make none. -/
def arrayExtents : Json → Outcome (List Nat)
  | .arr [] => .ok [0]
  | .arr (x :: xs) => do
    let inner ← arrayExtents x
    extentsLike inner xs
    return (xs.length + 1) :: inner
  | _ => .ok []

def extentsLike (extents : List Nat) : List Json → Outcome Unit
  | [] => .ok ()
  | x :: xs => do
    if (← arrayExtents x) ≠ extents then throw .value
    extentsLike extents xs

end

def isPositionArray : Outcome Bool := do
  let extents ← arrayExtents j
  let sort := arraySort j
  return match extents with
    | [0, _] => false
    | [_, n] => n == 2 && (sort == .wholes || sort == .binaries)
    | _ => false

def isFlagArray : Outcome Bool := do
  return match ← arrayExtents j with
    | [n] => n != 0 && arraySort j == .flags
    | _ => false

end AtomArray.Wire
