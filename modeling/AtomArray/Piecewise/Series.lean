import AtomArray.Number.Bisect

/-!
Series of breakpoints: times, with the value that belongs to each.

A series is constant from each time on, and its last value repeats the one before, or it is linear in
between. Series are cut, moved to begin at zero, and put one after another.
-/

namespace AtomArray

structure Series (N : Type) where
  times : List N := []
  values : List N := []

namespace Series

variable {N : Type} [Arith N]

/-- A series of numbers as a record keeps them. -/
def stored (times values : List N) : Outcome (Series N) := do
  return ⟨← times.mapM Arith.stored, ← values.mapM Arith.stored⟩

def empty : Series N := ⟨[Arith.zero, Arith.zero], [Arith.zero, Arith.zero]⟩

end Series

/-! ### Constant pieces -/

open Series Arith

variable {N : Type} [Arith N]

abbrev PiecewiseConstant (N : Type) := Series N

namespace PiecewiseConstant

variable (p : PiecewiseConstant N)

def eval (t : N) : Outcome N := do
  if ← ge t (← lastItem? p.times) then lastItem? p.values
  else if ← le t (← firstItem? p.times) then firstItem? p.values
  else
    let i ← bisectLeft p.times t
    let i := if same (← item? p.times i) t then i + 1 else i
    item? p.values i

/-- The list with its last item replaced by the one before. -/
def repeatLast {α : Type} (xs : List α) : Outcome (List α) :=
  match xs.reverse with
  | _ :: x :: rest => .ok (x :: x :: rest).reverse
  | _ => .error outOfRange

/-- The breakpoints from position `i` up to a time that is not after the one at `j`. -/
def upTo (stop last : N) (i j : Nat) : Outcome (List N × List N) := do
  if same stop last then return (between p.times i (j + 1), between p.values i (j + 1))
  else
    let v ← item? p.values j
    return (between p.times i j ++ [stop], between p.values i j ++ [v])

/-- The breakpoints between two times, with the ends added where they are none themselves. -/
def cut (start stop : N) (i j : Nat) : Outcome (List N × List N) := do
  let first ← item? p.times i
  let last ← item? p.times j
  let (times, values) ← p.upTo stop last i j
  if same start first then return (times, values)
  else
    let before ← item? p.values ((i : Int) - 1)
    return (start :: times, before :: values)

def slice (start stop : N) : Outcome (PiecewiseConstant N) := do
  let start := decimal start
  let stop := decimal stop
  if same start stop then return empty
  let i ← bisectLeft p.times start
  let j ← bisectLeft p.times stop
  let (times, values) ← p.cut start stop i j
  let values ← repeatLast values
  stored (← times.mapM (sub · start)) values

def append (p q : PiecewiseConstant N) : Outcome (PiecewiseConstant N) := do
  let shifted ← (q.times.drop 1).mapM fun t => do add t (← lastItem? p.times)
  stored (p.times ++ shifted) (p.values.dropLast ++ q.values)

end PiecewiseConstant

/-! ### Linear pieces -/

abbrev PiecewiseLinear (N : Type) := Series N

namespace PiecewiseLinear

variable (p : PiecewiseLinear N)

def eval (t : N) : Outcome N := do
  if ← ge t (← lastItem? p.times) then lastItem? p.values
  else if ← le t (← firstItem? p.times) then firstItem? p.values
  else
    let i := (← bisectRight p.times t : Nat) - 1
    let v₁ ← item? p.values (i + 1 : Nat)
    let v₀ ← item? p.values i
    let t₁ ← item? p.times (i + 1 : Nat)
    let t₀ ← item? p.times i
    let slope ← div (← sub v₁ v₀) (← sub t₁ t₀)
    add (← mul slope (← sub t t₀)) v₀

/-- The breakpoints between two times, with the ends added where they are none themselves; `v₀`
and `v₁` are the values at the ends. -/
def cut (start stop v₀ v₁ : N) (i j : Nat) : Outcome (List N × List N) := do
  let first ← item? p.times i
  if same start first then
    if same stop first then
      return (between p.times i (j + 1), between p.values i (j + 1))
    else return (between p.times i j ++ [stop], between p.values i j ++ [v₁])
  else
    let last ← item? p.times j
    if same stop last then
      return (start :: between p.times i (j + 1), v₀ :: between p.values i (j + 1))
    else return (start :: between p.times i j ++ [stop], v₀ :: between p.values i j ++ [v₁])

def slice (start stop : N) : Outcome (PiecewiseLinear N) := do
  let start := decimal start
  let stop := decimal stop
  if same start stop then return empty
  let i ← bisectLeft p.times start
  let j ← bisectLeft p.times stop
  let v₀ ← p.eval start
  let v₁ ← p.eval stop
  let (times, values) ← p.cut start stop v₀ v₁ i j
  stored (← times.mapM (sub · start)) values

/-- A position out of range inside a check that is reported. -/
def reportedRange : Fault := .reported .outOfRange "list index out of range"

variable (p q : PiecewiseLinear N)

def seam : Outcome (N × N) :=
  match p.values.getLast?, q.values.head? with
  | some a, some b => .ok (a, b)
  | _, _ => .error reportedRange

/-- One series after the other; the second must begin where the first ends. -/
def append : Outcome (PiecewiseLinear N) := do
  let (a, b) ← seam p q
  if !same a b then throw (.plain .brokenPromise)
  let shifted ← (q.times.drop 1).mapM fun t => do add t (← lastItem? p.times)
  stored (p.times ++ shifted) (p.values ++ q.values.drop 1)

end PiecewiseLinear

end AtomArray
