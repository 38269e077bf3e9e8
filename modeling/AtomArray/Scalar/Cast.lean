import AtomArray.Scalar.Eval

/-!
Plain values read as scalar expressions: numbers of every sort, text, which names a parameter, or an
expression itself. Sequences are read item by item and keep their sort.
-/

namespace AtomArray

/-- A plain value handed to an operation. -/
inductive Value where
  | whole (i : Int)
  | binary (x : Float)
  | decimal (d : Decimal)
  | flag (b : Bool)
  | text (s : String)
  | none
  | scalar (e : Scalar Quantity)
  | list (xs : List Value)
  | tuple (xs : List Value)
  | array (xs : List Value)
  | record (fields : List (String × Value))
  /-- The answer of an operation that does not apply to its operands. -/
  | inapplicable

inductive Cast where
  | scalar (e : Scalar Quantity)
  | list (xs : List Cast)
  | tuple (xs : List Cast)
  | array (xs : List Cast)

namespace Value

def isScalarLike : Value → Bool
  | whole _ | binary _ | decimal _ | flag _ | text _ | scalar _ => true
  | _ => false

def isNumber : Value → Bool
  | whole _ | binary _ | decimal _ | flag _ => true
  | _ => false

mutual

/-- The scalars that a value denotes; none if it denotes no scalars at all. -/
def tryCast : Value → Outcome (Option Cast)
  | whole i => .ok (some (.scalar (.const (.ofInt i))))
  | binary x => .ok (some (.scalar (.const (Binary.textDecimal x))))
  | decimal d => .ok (some (.scalar (.const d)))
  | flag _ => .error (.plain .undefinedOperation)
  | text s => do return some (.scalar (← Scalar.named s))
  | scalar e => .ok (some (.scalar e))
  | list xs => do return some (.list (← castAll xs))
  | tuple xs => do return some (.tuple (← castAll xs))
  | array xs => do return some (.array (← castAll xs))
  | none | record _ | inapplicable => .ok Option.none

def castAll : List Value → Outcome (List Cast)
  | [] => .ok []
  | x :: xs => do
    match ← tryCast x with
    | some c => return c :: (← castAll xs)
    | Option.none => throw .type

end

variable (v : Value)

def cast : Outcome Cast := do
  match ← tryCast v with
  | some c => return c
  | Option.none => throw .type

def castScalar : Outcome (Scalar Quantity) := do
  match ← cast v with
  | .scalar e => return e
  | _ => throw .type

/-- The scalar of an argument that must be a single number, name or expression. -/
def scalarArgument : Outcome (Scalar Quantity) :=
  if v.isScalarLike then castScalar v else .error .argument

mutual

/-- The parameters that a value names; none if it names no parameters at all. -/
def tryVar : Value → Outcome (Option Cast)
  | text s => do return some (.scalar (← Scalar.named s))
  | scalar (.var n) => .ok (some (.scalar (.var n)))
  | list xs => do return some (.list (← varAll xs))
  | tuple xs => do return some (.tuple (← varAll xs))
  | _ => .ok Option.none

def varAll : List Value → Outcome (List Cast)
  | [] => .ok []
  | x :: xs => do
    match ← tryVar x with
    | some c => return c :: (← varAll xs)
    | Option.none => throw .type

end

def var : Outcome Cast := do
  match ← tryVar v with
  | some c => return c
  | Option.none => throw .type

/-- The interval between two bounds; a step makes no sense for it. -/
def interval (start stop step : Value) : Outcome (Interval Quantity) := do
  match start, stop, step with
  | none, none, none => throw .sliceWithoutBounds
  | _, _, none =>
    let bound (v : Value) (f : Fault) : Outcome (Option (Scalar Quantity)) := do
      match v with
      | none => return Option.none
      | v =>
        match ← v.cast with
        | .scalar e => return some e
        | _ => throw f
    return ⟨← bound start .sliceStartNotScalar, ← bound stop .sliceStopNotScalar⟩
  | _, _, _ => throw .sliceWithStep

/-! ### Operators on plain values -/

mutual

/-- An operation on every item of an array, or on a single value. -/
def overItems (f : Value → Outcome Value) : Value → Outcome Value
  | array xs => do return array (← overAll f xs)
  | v => f v

def overAll (f : Value → Outcome Value) : List Value → Outcome (List Value)
  | [] => .ok []
  | x :: xs => do return (← overItems f x) :: (← overAll f xs)

end

variable (op : Scalar Quantity → Scalar Quantity → Outcome (Scalar Quantity))

/-- An operator between two values, which are read as scalars; over an array the operator works item
by item. -/
def operate (a b : Value) : Outcome Value :=
  match a, b with
  | array _, b => do
    let b ← castScalar b
    overItems (fun x => do return scalar (← op (← castScalar x) b)) a
  | a, b => do
    let a ← castScalar a
    overItems (fun y => do return scalar (← op a (← castScalar y))) b

/-- The smaller or larger of an expression and a value. A value that denotes no scalar makes the
operation inapplicable; a sequence is no term. -/
def extremum (a : Scalar Quantity) (b : Value) : Outcome Value := do
  match b.cast with
  | .ok (.scalar e) => return scalar (← op a e)
  | .ok (.tuple _) => throw .refused
  | .ok _ => throw .type
  | .error (.plain .wrongType) => return inapplicable
  | .error f => throw f

end Value

end AtomArray
