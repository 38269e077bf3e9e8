import AtomArray.Register.Tiling
import AtomArray.Hardware.Spec

/-!
Laying copies of a register over the area of a device.

The search starts with the unshifted copy. A copy that lies within the area is placed, and its four
neighbours are looked at later, the last one first, until nothing is left to look at or one more
copy would exceed the number of sites.
-/

namespace AtomArray

open Arith

/-- What a search has done: the copies that were placed, and all that were looked at, each in
order. -/
structure Placement where
  placed : List ClusterIndex
  examined : List ClusterIndex

def neighbours (c : ClusterIndex) : List ClusterIndex :=
  [(c.1 + 1, c.2), (c.1, c.2 + 1), (c.1 - 1, c.2), (c.1, c.2 - 1)]

/-- Puts the copies that were not seen yet on the stack. -/
def pushNew : List ClusterIndex → List ClusterIndex → List ClusterIndex →
    List ClusterIndex × List ClusterIndex
  | seen, stack, [] => (seen, stack)
  | seen, stack, c :: cs =>
    if c ∈ seen then pushNew seen stack cs else pushNew (c :: seen) (c :: stack) cs

/-- The search for copies of `size` sites within a device of `sitesMax` sites; `fits` says whether
a copy lies within the area. The top of the stack is looked at first. -/
def placeCopies (fits : ClusterIndex → Outcome Bool) (size : Nat) (sitesMax : Int)
    (p : Placement) (seen stack : List ClusterIndex) : Outcome Placement :=
  match stack with
  | [] => .ok p
  | c :: rest =>
    if size = 0 ∨ sitesMax < (size * (p.placed.length + 1) : Nat) then .ok p
    else do
      if ← fits c then
        let (seen, stack) := pushNew seen rest (neighbours c)
        placeCopies fits size sitesMax ⟨p.placed ++ [c], p.examined ++ [c]⟩ seen stack
      else placeCopies fits size sitesMax ⟨p.placed, p.examined ++ [c]⟩ seen rest
termination_by ((sitesMax - (size * p.placed.length : Nat)).toNat, stack.length)
decreasing_by
  · apply Prod.Lex.left
    rename_i h
    rw [List.length_append, List.length_singleton, Nat.mul_succ]
    rw [Nat.mul_succ] at h
    omega
  · apply Prod.Lex.right
    simp

variable {N : Type} [Arith N]

abbrev Point (N : Type) := N × N

namespace Tiling

/-- The copy shifted `c.1` times by the first vector and `c.2` times by the second. -/
def shifted (sites : List (Point N)) (u v : Point N) (c : ClusterIndex) :
    Outcome (List (Point N)) := do
  let i : N := ofInt c.1
  let j : N := ofInt c.2
  let dx ← add (← mul u.1 i) (← mul v.1 j)
  let dy ← add (← mul u.2 i) (← mul v.2 j)
  sites.mapM fun (x, y) => do return (← add x dx, ← add y dy)

def anyBeyond (beyond : N → Outcome Bool) (xs : List N) : Outcome Bool := do
  return (← xs.mapM beyond).any id

def within (width height : N) (sites : List (Point N)) : Outcome Bool := do
  if ← anyBeyond (fun x => lt x zero) (sites.flatMap fun p => [p.1, p.2]) then
    return false
  if ← anyBeyond (fun x => lt width x) (sites.map (·.1)) then return false
  return !(← anyBeyond (fun y => lt height y) (sites.map (·.2)))

/-- The sites moved so that the least coordinate in each direction is zero. -/
def toOrigin (sites : List (Point N)) : Outcome (List (Point N)) := do
  match sites with
  | [] => throw .value
  | s :: rest =>
    let x₀ ← minimum s.1 (rest.map (·.1))
    let y₀ ← minimum s.2 (rest.map (·.2))
    sites.mapM fun (x, y) => do return (← sub x x₀, ← sub y y₀)

def inMicrometres (x : N) : Outcome N :=
  div x (measured (ofDecimal (.finite false 1 (-6))))

/-- The entries of one placed copy of `size` sites; `first` is the number of its first site. -/
def copyEntries (size first : Nat) (c : ClusterIndex) : List ClusterSite :=
  (List.range size).map fun k => ⟨c, (first + k : Nat), k⟩

def entries (size first : Nat) : List ClusterIndex → List ClusterSite
  | [] => []
  | c :: cs => copyEntries size first c ++ entries size (first + size) cs

def evalPoint (env : Env N) (p : Scalar N × Scalar N) : Outcome (Point N) := do
  return (← p.1.eval env, ← p.2.eval env)

def place (env : Env N) (c : Capabilities N) (t : Tiling N) : Outcome Placement := do
  let height ← inMicrometres c.lattice.height
  let width ← inMicrometres c.lattice.width
  let sites ← toOrigin (← t.locations.mapM (evalPoint env))
  match ← t.shifts.mapM (evalPoint env) with
  | [u, v] =>
    let fits (c : ClusterIndex) : Outcome Bool := do
      within width height (← shifted sites u v c)
    placeCopies fits sites.length c.lattice.sitesMax ⟨[], []⟩ [(0, 0)] [(0, 0)]
  | _ => throw .value

def layOut (env : Env N) (c : Capabilities N) (t : Tiling N) : Outcome Decoder := do
  let p ← t.place env c
  Decoder.ofMapping (entries t.locations.length 0 p.placed)

end Tiling

end AtomArray
