import AtomArray.Scalar.Canon

/-!
Evaluating, scanning and substituting in scalar expressions.

A bound parameter must not be supplied again. `Scalar.assign` binds the free parameters that an
environment supplies and simplifies again from the leaves up; it does not reach under a slice, nor
into the terms of a minimum or maximum.
-/

namespace AtomArray

open Arith

variable {N : Type} [Arith N]

/-- The length between two bounds inside a length; an open bound is an end of the whole. -/
def cutLength (whole : N) (start stop : Option N) : Outcome N := do
  let a := start.getD zero
  let b := stop.getD whole
  if ← lt a zero then throw (.sliceStartNegative (Arith.text a))
  if ← lt whole b then throw (.sliceStopBeyond (Arith.text whole) (Arith.text b))
  let len ← sub b a
  if ← lt len zero then throw (.sliceReversed (Arith.text a) (Arith.text b))
  return len

namespace Scalar

mutual

def eval (env : Env N) : Scalar N → Outcome N
  | lit v => .ok v
  | var name =>
    match env.lookup name with
    | some p => p.number?
    | none => .error (.unassigned name)
  | assigned name v => if env.has name then .error (.alreadyAssigned name) else .ok v
  | neg e => do Arith.neg (← eval env e)
  | add a b => do Arith.add (← eval env a) (← eval env b)
  | mul a b => do Arith.mul (← eval env a) (← eval env b)
  | div a b => do Arith.div (← eval env a) (← eval env b)
  | min ts => do
    match ← evalAll env ts with
    | [] => throw .value
    | v :: vs => minimum v vs
  | max ts => do
    match ← evalAll env ts with
    | [] => throw .value
    | v :: vs => maximum v vs
  | slice e start stop => do
    let whole ← eval env e
    let a ← evalBound env start
    let b ← evalBound env stop
    cutLength whole a b

def evalAll (env : Env N) : List (Scalar N) → Outcome (List N)
  | [] => .ok []
  | t :: ts => do return (← eval env t) :: (← evalAll env ts)

def evalBound (env : Env N) : Option (Scalar N) → Outcome (Option N)
  | none => .ok none
  | some e => do return some (← eval env e)

end

mutual

/-- The parameters of an expression, free and bound, in the order of their occurrence. -/
def names : Scalar N → List String
  | lit _ => []
  | var name => [name]
  | assigned name _ => [name]
  | neg e => names e
  | add a b => names a ++ names b
  | mul a b => names a ++ names b
  | div a b => names a ++ names b
  | min ts => namesAll ts
  | max ts => namesAll ts
  | slice e start stop => names e ++ boundNames start ++ boundNames stop

def namesAll : List (Scalar N) → List String
  | [] => []
  | t :: ts => names t ++ namesAll ts

def boundNames : Option (Scalar N) → List String
  | none => []
  | some e => names e

end

mutual

/-- Does a set of several terms occur, whose order is not fixed? -/
def hasTermSet : Scalar N → Bool
  | lit _ | var _ | assigned .. => false
  | neg e => hasTermSet e
  | add a b => hasTermSet a || hasTermSet b
  | mul a b => hasTermSet a || hasTermSet b
  | div a b => hasTermSet a || hasTermSet b
  | min ts => decide (1 < ts.length) || anyTermSet ts
  | max ts => decide (1 < ts.length) || anyTermSet ts
  | slice e start stop => hasTermSet e || boundTermSet start || boundTermSet stop

def anyTermSet : List (Scalar N) → Bool
  | [] => false
  | t :: ts => hasTermSet t || anyTermSet ts

def boundTermSet : Option (Scalar N) → Bool
  | none => false
  | some e => hasTermSet e

end

/-- Who is named when substitution meets a node it does not handle. -/
def assignHandler : String := "AssignScalar"

def substitute (env : Env N) : Scalar N → Outcome (Scalar N)
  | lit v => .ok (lit v)
  | var name =>
    match env.lookup name with
    | some p => do return assigned name (← p.stored?)
    | none => .ok (var name)
  | assigned name v =>
    if env.has name then .error (.reassigned name (Arith.text v)) else .ok (assigned name v)
  | neg e => do opposite (← substitute env e)
  | add a b => do plus (← substitute env a) (← substitute env b)
  | mul a b => do times (← substitute env a) (← substitute env b)
  | div a b => do dividedBy (← substitute env a) (← substitute env b)
  | min _ => .error .part
  | max _ => .error .part
  | slice .. => .error (.notHandled "slice" assignHandler)

/-- Binds the free parameters that the environment supplies. -/
def assign (env : Env N) (e : Scalar N) : Outcome (Scalar N) := do canon (← substitute env e)

end Scalar

def Interval.names (i : Interval N) : List String :=
  Scalar.boundNames i.start ++ Scalar.boundNames i.stop

def Interval.hasTermSet (i : Interval N) : Bool :=
  Scalar.boundTermSet i.start || Scalar.boundTermSet i.stop

end AtomArray
