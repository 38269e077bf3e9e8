import AtomArray.Number.Arith
import AtomArray.Json.Basic

/-!
Scalar expressions over named parameters.

A parameter is free (`var`) or bound to a number (`assigned`). The terms of a minimum or maximum are
a set: they are kept without repetition, in the order of their first occurrence. The slice of a
length is the length of the part between two bounds, each of which may be open. Parameters get their
numbers from an `Env`; only values that write a number can be used as one.
-/

namespace AtomArray

inductive Scalar (N : Type) where
  | lit (value : N)
  | var (name : String)
  | assigned (name : String) (value : N)
  | neg (expr : Scalar N)
  | add (lhs rhs : Scalar N)
  | mul (lhs rhs : Scalar N)
  | div (lhs rhs : Scalar N)
  | min (terms : List (Scalar N))
  | max (terms : List (Scalar N))
  | slice (expr : Scalar N) (start stop : Option (Scalar N))

/-- An interval of times, open where a bound is missing. -/
structure Interval (N : Type) where
  start : Option (Scalar N)
  stop : Option (Scalar N)

/-- A value supplied for a parameter. -/
inductive Param (N : Type) where
  | number (v : N)
  | whole (i : Int)
  | flag (b : Bool)
  | text (s : String)
  | none
  | list (xs : List (Param N))
  | array (xs : List (Param N))
  | record (fields : List (String × Param N))

/-- Named values, in the order in which they were supplied. -/
abbrev Env (N : Type) := List (String × Param N)

variable {N : Type} [Arith N]

namespace Env

/-- Binds a name; a name that is bound already keeps its position. -/
def insert (name : String) (v : Param N) (env : Env N) : Env N := Json.insert name v env

/-- All bindings of the second environment over those of the first. -/
def extend (base extra : Env N) : Env N := Json.merge base extra

def has (env : Env N) (name : String) : Bool := (env.lookup name).isSome

end Env

namespace Param

/-- The number that a supplied value writes; anything else is an undefined operation. -/
def number? : Param N → Outcome N
  | number v => .ok (Arith.decimal v)
  | whole i => .ok (Arith.ofDecimal (.ofInt i))
  | text s =>
    match Decimal.ofText? s with
    | some d => .ok (Arith.ofDecimal d)
    | Option.none => .error (.plain .undefinedOperation)
  | _ => .error (.plain .undefinedOperation)

/-- The decimal that a record keeps of a supplied value: it must write a finite number unless
it is a decimal already. -/
def stored? : Param N → Outcome N
  | number v => Arith.stored v
  | whole i => .ok (Arith.ofDecimal (.ofInt i))
  | text s =>
    match Decimal.ofText? s with
    | some d => if d.isFinite then .ok (Arith.ofDecimal d) else .error .refused
    | Option.none => .error .refused
  | _ => .error .refused

def items? : Param N → Option (List (Param N))
  | list xs => some xs
  | array xs => some xs
  | _ => Option.none

end Param

/-! ### Names of parameters -/

def nameStart (c : Char) : Bool := c.isAlpha || c = '_'
def nameRest (c : Char) : Bool := c.isAlphanum || c = '_'

/-- The name that stands for a whole table of parameters and cannot be used for one. -/
def reservedName : String := "__batch_params"

/-- Accepts a name of letters, digits and underscores that does not begin with a digit. A text
that does not even begin like a name has no name part at all. -/
def checkName (name : String) : Outcome String :=
  match name.toList with
  | [] => .error .part
  | c :: cs =>
    if !nameStart c then .error .part
    else if !cs.all nameRest then .error .refused
    else if name = reservedName then .error .refused
    else .ok name

def Scalar.named (name : String) : Outcome (Scalar N) := (checkName name).map Scalar.var

end AtomArray
