import AtomArray.Number.Arith

/-!
Positions in sorted lists of numbers.

`bisectLeft xs x` is the first position whose number is not below `x`, `bisectRight xs x` the
first whose number is above it. `item?` looks up a position, counting from the end if it is
negative.
-/

namespace AtomArray

variable {N : Type} [Arith N]

/-- Bisection between `lo` and `hi`: the first position of which `before` does not hold, in a list
where it holds of a first part only. -/
def bisectBy (before : N → Outcome Bool) (xs : List N) (lo hi : Nat) : Outcome Nat :=
  if _h : lo < hi then
    match xs[(lo + hi) / 2]? with
    | some m => do
      if ← before m then bisectBy before xs ((lo + hi) / 2 + 1) hi
      else bisectBy before xs lo ((lo + hi) / 2)
    | none => .ok lo
  else .ok lo
termination_by hi - lo
decreasing_by all_goals omega

def bisectLeft (xs : List N) (x : N) : Outcome Nat :=
  bisectBy (fun m => Arith.lt m x) xs 0 xs.length

def bisectRight (xs : List N) (x : N) : Outcome Nat :=
  bisectBy (fun m => do return !(← Arith.lt x m)) xs 0 xs.length

def outOfRange : Fault := .plain .outOfRange

variable {α : Type}

/-- The item at a position; a negative one counts from the end. -/
def item? (xs : List α) (i : Int) : Outcome α :=
  let j := if i < 0 then i + xs.length else i
  if j < 0 then .error outOfRange
  else
    match xs[j.toNat]? with
    | some x => .ok x
    | none => .error outOfRange

def lastItem? (xs : List α) : Outcome α :=
  match xs.getLast? with
  | some x => .ok x
  | none => .error outOfRange

def firstItem? (xs : List α) : Outcome α :=
  match xs.head? with
  | some x => .ok x
  | none => .error outOfRange

/-- The items from position `a` up to position `b`. -/
def between (xs : List α) (a b : Nat) : List α := (xs.drop a).take (b - a)

end AtomArray
