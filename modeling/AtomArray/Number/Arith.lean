import AtomArray.Number.Quadrature

/-!
The arithmetic that programs are evaluated in.

Expressions, waveforms and everything compiled from them are generic in a type `N` of numbers with
the operations of `Arith`. They run at `Quantity`: 28-digit decimals, and the binary numbers that
measuring a decimal yields, which do not combine with decimals except in a comparison. They are
reasoned about at `Rat`, where no operation rounds and measuring changes nothing.
-/

namespace AtomArray

/-- Numbers to evaluate in. -/
class Arith (N : Type) where
  /-- The number a decimal constant denotes. -/
  ofDecimal : Decimal → N
  text : N → String
  neg : N → Outcome N
  abs : N → Outcome N
  add : N → N → Outcome N
  sub : N → N → Outcome N
  mul : N → N → Outcome N
  div : N → N → Outcome N
  lt : N → N → Outcome Bool
  le : N → N → Outcome Bool
  /-- Equality of value, which never fails. -/
  same : N → N → Bool
  /-- The decimal that the written form denotes. -/
  decimal : N → N
  /-- The binary number nearest to it. -/
  measured : N → N
  /-- The decimal that a record keeps; a binary number without a finite value is refused. -/
  stored : N → Outcome N
  /-- The nearest binary number, for numerical work. -/
  approx : N → Float
  /-- Is the vector with the first two numbers as its parts at most as long as the third? -/
  within : N → N → N → Outcome Bool
  /-- How many steps of the second number fit between zero and the first, and a few more. -/
  stepBound : N → N → Nat
  /-- The nearest integer, a tie to the even one. -/
  round : N → Outcome Int
  /-- The integral of a function weighted by a kernel, as far as the arithmetic has one. -/
  smoothed : Kernel → (N → Outcome N) → Outcome N

/-- The numbers of a running program: a decimal, or a binary number. -/
inductive Quantity where
  | decimal (d : Decimal)
  | binary (x : Float)
  deriving Inhabited

namespace Quantity

instance (n : Nat) : OfNat Quantity n := ⟨decimal (OfNat.ofNat n)⟩

/-- The value as a decimal, without rounding. -/
def exact : Quantity → Decimal
  | decimal d => d
  | binary x => Binary.exact x

def text : Quantity → String
  | decimal d => d.text
  | binary x => Binary.text x

/-- An operation on two numbers of one sort; a decimal and a binary number do not combine. -/
def combine (onDecimal : Decimal → Decimal → Except Decimal.Trap Decimal)
    (onBinary : Float → Float → Outcome Float) : Quantity → Quantity → Outcome Quantity
  | decimal a, decimal b => (Outcome.ofDecimal (onDecimal a b)).map decimal
  | binary a, binary b => (onBinary a b).map binary
  | _, _ => .error .type

def divideBinary (a b : Float) : Outcome Float :=
  if b == 0.0 then .error (.plain .floatDivision) else .ok (a / b)

/-- Comparison by value; binary numbers among themselves compare as such. -/
def compareBy (onBinary : Float → Float → Bool)
    (onDecimal : Decimal → Decimal → Except Decimal.Trap Bool) :
    Quantity → Quantity → Outcome Bool
  | binary a, binary b => .ok (onBinary a b)
  | a, b => Outcome.ofDecimal (onDecimal a.exact b.exact)

def toDecimal : Quantity → Decimal
  | decimal d => d
  | binary x => Binary.textDecimal x

def toFloat : Quantity → Float
  | decimal d => Binary.ofDecimal d
  | binary x => x

def within (x y bound : Quantity) : Outcome Bool := do
  let xx ← combine Decimal.mul (fun a b => .ok (a * b)) x x
  let yy ← combine Decimal.mul (fun a b => .ok (a * b)) y y
  match ← combine Decimal.add (fun a b => .ok (a + b)) xx yy with
  | decimal d =>
    let length ← Outcome.ofDecimal d.sqrt
    compareBy (fun a b => a ≤ b) Decimal.le (decimal length) bound
  | binary a => compareBy (fun a b => a ≤ b) Decimal.le (binary a.sqrt) bound

/-- A bound for the number of steps `dt` up to `duration`, with room for rounding. -/
def stepBound (duration dt : Decimal) : Nat :=
  match duration, dt with
  | .finite false c₁ e₁, .finite false c₂ e₂ =>
    if c₂ = 0 then 0
    else
      let d := (e₁ - e₂)
      if 12 < d + Decimal.digitCount c₁ - Decimal.digitCount c₂ then Nat.pow 10 12
      else 2 * (c₁ * Nat.pow 10 d.toNat / (c₂ * Nat.pow 10 (-d).toNat)) + 4
  | _, _ => 4

instance : Arith Quantity where
  ofDecimal := decimal
  text := text
  neg
    | decimal d => (Outcome.ofDecimal d.neg).map decimal
    | binary x => .ok (binary (-x))
  abs
    | decimal d => (Outcome.ofDecimal d.abs).map decimal
    | binary x => .ok (binary x.abs)
  add := combine Decimal.add fun a b => .ok (a + b)
  sub := combine Decimal.sub fun a b => .ok (a - b)
  mul := combine Decimal.mul fun a b => .ok (a * b)
  div := combine Decimal.div divideBinary
  lt := compareBy (fun a b => a < b) Decimal.lt
  le := compareBy (fun a b => a ≤ b) Decimal.le
  same
    | binary a, binary b => a == b
    | a, b => a.exact.sameValue b.exact
  decimal q := decimal q.toDecimal
  measured q := binary q.toFloat
  stored
    | decimal d => .ok (decimal d)
    | binary x =>
      if x.isFinite then .ok (decimal (Binary.textDecimal x)) else .error .refused
  approx := toFloat
  within := within
  stepBound a b := stepBound a.exact b.exact
  round q :=
    match q.exact with
    | .infinite _ => .error (.plain .floatOverflow)
    | d =>
      match d.roundToInt? with
      | some i => .ok i
      | none => .error .value
  smoothed k f :=
    (Quadrature.weighted k fun x => (f (binary x)).map toFloat).map binary

end Quantity

namespace Arith

variable {N : Type} [Arith N]

def zero : N := ofDecimal Decimal.zero
def one : N := ofDecimal Decimal.one

def ofInt (i : Int) : N := ofDecimal (.ofInt i)

def gt (a b : N) : Outcome Bool := lt b a
def ge (a b : N) : Outcome Bool := le b a

/-- The zero written with one decimal, which folding an expression leaves behind. -/
def foldedZero : N := ofDecimal (.finite false 0 (-1))

def isDecimal (d : Decimal) (a : N) : Bool := same a (ofDecimal d)

/-- The least of a nonempty list, the earliest of equals. -/
def minimum : N → List N → Outcome N
  | best, [] => .ok best
  | best, x :: xs => do
    if ← lt x best then minimum x xs else minimum best xs

/-- The greatest of a nonempty list, the earliest of equals. -/
def maximum : N → List N → Outcome N
  | best, [] => .ok best
  | best, x :: xs => do
    if ← lt best x then maximum x xs else maximum best xs

end Arith

end AtomArray
