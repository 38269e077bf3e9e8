import AtomArray.Number.Arith

/-!
Exact arithmetic: the rational numbers as an `Arith`.

No operation rounds and a measured number is the number itself. A division by zero has no result,
and neither has a numerical integral.
-/

namespace AtomArray

/-- The value of a finite decimal; a decimal without one denotes zero. -/
def Decimal.toRat : Decimal → Rat
  | .finite s c e =>
    let v : Rat :=
      if 0 ≤ e then (c * Nat.pow 10 e.toNat : Nat) else (c : Rat) / (Nat.pow 10 (-e).toNat : Nat)
    if s then -v else v
  | _ => 0

namespace Exact

/-- How often `dt` fits into `duration`, and one more. -/
def stepBound (duration dt : Rat) : Nat :=
  if dt ≤ 0 then 0 else (duration / dt).floor.toNat + 2

def round (a : Rat) : Int :=
  let low := a.floor
  let rest := a - low
  if rest < 1 / 2 then low
  else if 1 / 2 < rest then low + 1
  else if low % 2 = 0 then low else low + 1

instance : Arith Rat where
  ofDecimal := Decimal.toRat
  text := toString
  neg a := .ok (-a)
  abs a := .ok (if a < 0 then -a else a)
  add a b := .ok (a + b)
  sub a b := .ok (a - b)
  mul a b := .ok (a * b)
  div a b := if b = 0 then .error (.plain .divisionByZero) else .ok (a / b)
  lt a b := .ok (decide (a < b))
  le a b := .ok (decide (a ≤ b))
  same a b := decide (a = b)
  decimal a := a
  measured a := a
  stored a := .ok a
  approx a := Float.ofInt a.num / Float.ofNat a.den
  within x y bound := .ok (decide (0 ≤ bound ∧ x * x + y * y ≤ bound * bound))
  stepBound := stepBound
  round a := .ok (round a)
  smoothed _ _ := .error (.plain .notImplemented)

end Exact

/-! ### Decimals and binary numbers, kept apart -/

inductive NumberSort where
  | decimal
  | binary
  deriving DecidableEq

/-- A number of one of the two sorts, without rounding. -/
structure ExactQuantity where
  sort : NumberSort
  value : Rat
  deriving DecidableEq

namespace ExactQuantity

def combine (op : Rat → Rat → Outcome Rat) (a b : ExactQuantity) : Outcome ExactQuantity :=
  if a.sort = b.sort then (op a.value b.value).map fun x => ⟨a.sort, x⟩ else .error .type

instance : Arith ExactQuantity where
  ofDecimal d := ⟨.decimal, d.toRat⟩
  text a := toString a.value
  neg a := (Arith.neg a.value).map fun x => ⟨a.sort, x⟩
  abs a := (Arith.abs a.value).map fun x => ⟨a.sort, x⟩
  add := combine Arith.add
  sub := combine Arith.sub
  mul := combine Arith.mul
  div := combine Arith.div
  lt a b := Arith.lt a.value b.value
  le a b := Arith.le a.value b.value
  same a b := Arith.same a.value b.value
  decimal a := ⟨.decimal, a.value⟩
  measured a := ⟨.binary, a.value⟩
  stored a := .ok ⟨.decimal, a.value⟩
  approx a := Arith.approx a.value
  within x y bound :=
    if x.sort = y.sort then Arith.within x.value y.value bound.value else .error .type
  stepBound a b := Arith.stepBound a.value b.value
  round a := Arith.round a.value
  smoothed _ _ := .error (.plain .notImplemented)

end ExactQuantity

end AtomArray
