import AtomArray.Scalar.Basic

/-!
Equality and canonical form of scalar expressions.

`Scalar.same` compares expressions part by part, numbers by value and term sets as sets.
`Scalar.canon` simplifies at the root: double negation, neutral and absorbing literals, folding of
two literals, cancellation of opposites, and terms of a minimum or maximum that are alone or
repeated.
-/

namespace AtomArray

open Arith

variable {N : Type} [Arith N]

def sameOption {α : Type} (f : α → α → Bool) : Option α → Option α → Bool
  | none, none => true
  | some a, some b => f a b
  | _, _ => false

namespace Scalar

mutual

def same : Scalar N → Scalar N → Bool
  | lit a, lit b => Arith.same a b
  | var a, var b => a == b
  | assigned a v, assigned b w => a == b && Arith.same v w
  | neg a, neg b => same a b
  | add a b, add c d => same a c && same b d
  | mul a b, mul c d => same a c && same b d
  | div a b, div c d => same a c && same b d
  | min xs, min ys => xs.length == ys.length && allIn xs ys && ys.all fun y => isIn xs y
  | max xs, max ys => xs.length == ys.length && allIn xs ys && ys.all fun y => isIn xs y
  | slice a s t, slice b u v => same a b && sameBound s u && sameBound t v
  | _, _ => false

def sameBound : Option (Scalar N) → Option (Scalar N) → Bool
  | none, none => true
  | some a, some b => same a b
  | _, _ => false

/-- Every term of the first list equals one of the second. -/
def allIn : List (Scalar N) → List (Scalar N) → Bool
  | [], _ => true
  | x :: xs, ys => anySame x ys && allIn xs ys

def anySame : Scalar N → List (Scalar N) → Bool
  | _, [] => false
  | x, y :: ys => same x y || anySame x ys

/-- The expression equals some term of the list, which stands first in the comparison. -/
def isIn : List (Scalar N) → Scalar N → Bool
  | [], _ => false
  | x :: xs, y => same x y || isIn xs y

end

def insertTerm (terms : List (Scalar N)) (t : Scalar N) : List (Scalar N) :=
  if terms.any (same · t) then terms else terms ++ [t]

def termSet (ts : List (Scalar N)) : List (Scalar N) := ts.foldl insertTerm []

/-- Is the expression this literal number? -/
def isLit (d : Decimal) : Scalar N → Bool
  | lit v => isDecimal d v
  | _ => false

def underNeg? : Scalar N → Option (Scalar N)
  | neg e => some e
  | _ => none

def zeroLit : Scalar N := lit foldedZero

/-- A minimum or maximum of canonical terms: a single term stands for itself. -/
def ofTerms (node : List (Scalar N) → Scalar N) (ts : List (Scalar N)) : Outcome (Scalar N) :=
  match termSet ts with
  | [] => .error .value
  | [t] => .ok t
  | ts => .ok (node ts)

mutual

def canon : Scalar N → Outcome (Scalar N)
  | neg (neg e) => canon e
  | neg (lit v) => do
    if ← lt v zero then return lit (← Arith.neg v) else return neg (lit v)
  | add (lit a) (lit b) => do
    if isDecimal 0 a then return lit b
    else if isDecimal 0 b then return lit a
    else return lit (← Arith.add a b)
  | add (lit a) (neg (lit b)) => do
    if isDecimal 0 a then canon (neg (lit b)) else return lit (← sub a b)
  | add (neg (lit a)) (lit b) => do
    if isDecimal 0 b then canon (neg (lit a)) else return lit (← sub b a)
  | add l r =>
    if isLit 0 l then canon r
    else if isLit 0 r then canon l
    else if sameOption same l.underNeg? (some r) || sameOption same r.underNeg? (some l) then
      .ok zeroLit
    else .ok (add l r)
  | mul (lit a) (lit b) => do
    if isDecimal 1 a then return lit b
    else if isDecimal 1 b then return lit a
    else return lit (← Arith.mul a b)
  | mul l r =>
    if isLit 1 l then canon r
    else if isLit 1 r then canon l
    else if isLit 0 l || isLit 0 r then .ok zeroLit
    else .ok (mul l r)
  | div (lit a) (lit b) => do
    if isDecimal 0 a then return zeroLit
    else if isDecimal 1 b then return lit a
    else return lit (← Arith.div a b)
  | div l r =>
    if isLit 0 l then .ok zeroLit
    else if isLit 1 r then canon l
    else .ok (div l r)
  | min ts => do ofTerms min (← canonAll ts)
  | max ts => do ofTerms max (← canonAll ts)
  | e => .ok e

def canonAll : List (Scalar N) → Outcome (List (Scalar N))
  | [] => .ok []
  | t :: ts => do return (← canon t) :: (← canonAll ts)

end

/-! ### Operators -/

def opposite (e : Scalar N) : Outcome (Scalar N) := canon (neg e)

variable (a b : Scalar N)

def plus : Outcome (Scalar N) := canon (add a b)

def minus : Outcome (Scalar N) := do canon (add a (← opposite b))

def times : Outcome (Scalar N) := canon (mul a b)

def dividedBy : Outcome (Scalar N) := canon (div a b)

def lesser : Outcome (Scalar N) := canon (min (termSet [a, b]))

def greater : Outcome (Scalar N) := canon (max (termSet [a, b]))

def const (d : Decimal) : Scalar N := lit (ofDecimal d)

end Scalar

def Interval.same (a b : Interval N) : Bool :=
  Scalar.sameBound a.start b.start && Scalar.sameBound a.stop b.stop

def Scalar.cut (e : Scalar N) (i : Interval N) : Scalar N := .slice e i.start i.stop

end AtomArray
