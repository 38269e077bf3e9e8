import AtomArray.Register.Basic

/-!
Tilings: copies of a register side by side, shifted by its extent in one direction plus a spacing
between the copies.
-/

namespace AtomArray

/-- A register to be repeated over the available area. -/
structure Tiling (N : Type) where
  register : Register N
  spacing : Scalar N
  locations : List (Scalar N × Scalar N)
  filling : List Bool
  shiftX : Scalar N
  shiftY : Scalar N

/-- What a circuit acts on: a register, or copies of one. -/
inductive Arrangement (N : Type) where
  | plain (register : Register N)
  | tiled (tiling : Tiling N)

variable {N : Type} [Arith N]

/-- The smallest or largest of coordinates, each compared with the result so far. -/
def runningExtremum (op : Scalar N → Scalar N → Outcome (Scalar N)) :
    Scalar N → List (Scalar N) → Outcome (Scalar N)
  | acc, [] => .ok acc
  | acc, e :: es => do runningExtremum op (← op e acc) es

def extentPlus (spacing first : Scalar N) (rest : List (Scalar N)) : Outcome (Scalar N) := do
  let least ← runningExtremum Scalar.lesser first rest
  let most ← runningExtremum Scalar.greater first rest
  (← most.minus least).plus spacing

namespace Tiling

def ofRegister (r : Register N) (spacing : Scalar N) : Outcome (Tiling N) := do
  if (← r.atomCount) ≤ 0 then throw .nothingToTile
  let sites ← r.sites
  match sites with
  | [] => throw (.plain (.other "StopIteration"))
  | s :: ss =>
    let shiftX ← extentPlus spacing s.x (ss.map (·.x))
    let shiftY ← extentPlus spacing s.y (ss.map (·.y))
    return ⟨r, spacing, sites.map fun s => (s.x, s.y), sites.map (·.filled), shiftX, shiftY⟩

def shifts (t : Tiling N) : List (Scalar N × Scalar N) :=
  [(t.shiftX, .const 0), (.const 0, t.shiftY)]

def same (a b : Tiling N) : Bool :=
  a.locations.length == b.locations.length &&
    ((a.locations.zip b.locations).all fun (p, q) => p.1.same q.1 && p.2.same q.2) &&
    a.filling == b.filling && a.shiftX.same b.shiftX && a.shiftY.same b.shiftY

def names (t : Tiling N) : Outcome (List String) := do
  return (← t.register.names) ++ t.spacing.names

def assign (env : Env N) (t : Tiling N) : Outcome (Tiling N) := do
  let r ← t.register.assign env
  ofRegister r (← t.spacing.assign env)

def hasTermSet (t : Tiling N) : Bool :=
  t.register.hasTermSet || t.spacing.hasTermSet || t.shiftX.hasTermSet || t.shiftY.hasTermSet

end Tiling

namespace Arrangement

def same : Arrangement N → Arrangement N → Bool
  | plain a, plain b => a.same b
  | tiled a, tiled b => a.same b
  | _, _ => false

def names : Arrangement N → Outcome (List String)
  | plain r => r.names
  | tiled t => t.names

def assign (env : Env N) : Arrangement N → Outcome (Arrangement N)
  | plain r => do return plain (← r.assign env)
  | tiled t => do return tiled (← t.assign env)

def hasTermSet : Arrangement N → Bool
  | plain r => r.hasTermSet
  | tiled t => t.hasTermSet

def className : Arrangement N → String
  | plain r => r.className
  | tiled _ => "ParallelRegister"

end Arrangement

end AtomArray
