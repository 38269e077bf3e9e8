import AtomArray.Emulator.Hamiltonian
import AtomArray.Emulator.Solver

/-!
The evolution of a state under a Hamiltonian, in the plain or in the interaction picture, and
measurements of it by numbers between zero and one.
-/

namespace AtomArray

open AtomArray.Complex

def CompiledWaveform.strength (w : CompiledWaveform Quantity) (t : Float) : Outcome Float := do
  return Arith.approx (← w.source.measure w.env (.binary t))

def Coupler.toComplex : Coupler Float → Coupler Complex
  | .ones m => .ones m
  | .rows m =>
    .rows ⟨m.data.map ofReal, m.columns, m.starts, m.height, m.width⟩

section Couple

variable {α : Type} [Zero α] [Add α] [Mul α]

def Coupler.addProduct (c : Coupler α) (scale : α) (x out : Array α) : Outcome (Array α) :=
  match c with
  | .ones m => m.addProduct scale x out
  | .rows m => m.addProduct scale x out

def Coupler.addTransposed (c : Coupler α) (scale : α) (x out : Array α) : Outcome (Array α) :=
  match c with
  | .ones m => m.transpose.addProduct scale x out
  | .rows m => m.transpose.addProduct scale x out

/-- What a term of strength `scale` adds to `out`. A term with a phase acts together with its
conjugate transpose. -/
def Coupler.drive (c : Coupler α) (conj : α → α) (phased : Bool) (scale : α) (x out : Array α) :
    Outcome (Array α) := do
  let out ← c.addProduct scale x out
  if phased then c.addTransposed (conj scale) x out else return out

end Couple

namespace DetuningOperator

/-- A diagonal at a strength; without a strength it is taken as it is. -/
def scaled (diagonal : Array Float) (strength : Option Float) : Array Float :=
  match strength with
  | some a => diagonal.map (· * a)
  | none => diagonal

end DetuningOperator

namespace Hamiltonian

def toComplex (h : Hamiltonian Quantity Float) : List (RabiOperator Quantity Complex) :=
  h.rabi.map fun r => ⟨r.coupler.toComplex, r.amplitude, r.phase⟩

variable (h : Hamiltonian Quantity Float)

/-- The sum of the detuning diagonals at a time and a diagonal to start from. -/
def diagonalAt (t : Float) (start : Array Float) : Outcome (Array Float) :=
  h.detuning.foldlM (fun acc d => do
    let a ← d.amplitude.strength t
    return Array.zipWith (· + ·) acc (DetuningOperator.scaled d.diagonal (some a))) start

def addDrives (drives : List (RabiOperator Quantity Complex)) (t : Float)
    (x out : Array Complex) : Outcome (Array Complex) :=
  drives.foldlM (fun out r => do
    let a := (← r.amplitude.strength t) / 2.0
    match r.phase with
    | none => r.coupler.drive Complex.conj false (ofReal a) x out
    | some p =>
      let angle ← p.strength t
      r.coupler.drive Complex.conj true (Complex.scale a (cis angle)) x out) out

/-- Multiplication by minus the imaginary unit. -/
def turned (x : Array Complex) : Array Complex := x.map fun a => ⟨a.im, -a.re⟩

/-- The factors of the interaction picture at a time. -/
def frame (t : Float) : Array Complex :=
  h.interaction.map fun e => cis (-(e * t))

/-- The right-hand side of the equation of motion. In the interaction picture the interaction
energies are taken out of the diagonal and into the frame. -/
def slope (drives : List (RabiOperator Quantity Complex))
    (interactionPicture : Bool) (t : Float) (x : Array Complex) : Outcome (Array Complex) := do
  let times (d : Array Float) (v : Array Complex) : Array Complex :=
    Array.zipWith Complex.scale d v
  if interactionPicture then
    let diagonal ← h.diagonalAt t (h.interaction.map fun _ => 0.0)
    let u := h.frame t
    let x := Array.zipWith (· * ·) u x
    let out ← addDrives drives t x (times diagonal x)
    return turned (Array.zipWith (fun a b => a.conj * b) u out)
  else
    let diagonal ← h.diagonalAt t h.interaction
    return turned (← addDrives drives t x (times diagonal x))

structure Method where
  solver : String := "dop853"
  steps : Nat := 2147483647
  interactionPicture : Bool := false

/-- The state at a time, from the state at an earlier one. The named methods refuse to take an
empty step, or, with a memory of earlier steps, to go back. -/
def advance (drives : List (RabiOperator Quantity Complex))
    (m : Method) (start stop : Float) (x : Array Complex) : Outcome (Array Complex) := do
  if m.solver = "lsoda" then
    if stop == start then return x
    if stop < start then solverStatus m.solver (-3)
  else if stop == start then solverStatus m.solver (-3)
  match ← Ode.integrate (h.slope drives m.interactionPicture) m.steps start stop x with
  | some y => return y
  | none =>
    solverStatus m.solver (if m.solver = "lsoda" then -1 else -2)
    return x

/-- The states at the listed times, as they are reached one after the other. -/
def states (h : Hamiltonian Quantity Float) (drives : List (RabiOperator Quantity Complex))
    (m : Method) (first : Array Complex) :
    Float → Array Complex → List Float → Outcome (List (Array Complex))
  | _, _, [] => .ok []
  | now, x, t :: rest => do
    if t == 0.0 then
      return first :: (← states h drives m first now x rest)
    let y ← h.advance drives m now t x
    let shown :=
      if m.interactionPicture then Array.zipWith (· * ·) (h.frame t) y else y
    return shown :: (← states h drives m first t y rest)

def evolve (m : Method) (x : Array Complex)
    (times : List Float) : Outcome (List (Array Complex)) := do
  if !solverNames.contains m.solver then .error (.unsupportedSolver m.solver)
  let duration := Arith.approx h.duration
  if times.any fun t => t ≥ duration || t < 0.0 then .error .timesOutside
  h.states h.toComplex m x 0.0 x (times ++ [duration])

end Hamiltonian

/-! ### Measurement -/

def runningSums (total : Float) : List Float → List Float
  | [] => []
  | x :: xs => (total + x) :: runningSums (total + x) xs

/-- The place that a number between zero and one falls into: as many places are passed as have
their share of the total at or below it. -/
def drawPlace (weights : List Float) (u : Float) : Nat :=
  let sums := runningSums 0.0 weights
  let total := sums.getLastD 0.0
  sums.countP fun s => s / total ≤ u

namespace Space

def levelsOf (s : Space) (c : Nat) : List Nat :=
  (List.range s.atoms).map fun i => levelOf s.kind.levels i c

/-- A measured level: both ground levels count as zero and the excited one as one. -/
def projected : AtomKind → Nat → Nat
  | .twoLevel, l => l
  | .threeLevel, l => if l = 1 then 0 else if l = 2 then 1 else l

/-- The levels measured in a state, one draw for each number. -/
def sample (s : Space) (x : List Complex) (draws : List Float) (project : Bool) :
    Outcome (List (List Nat)) :=
  let weights := x.map normSq
  draws.mapM fun u =>
    match s.configurations[drawPlace weights u]? with
    | some c =>
      .ok ((s.levelsOf c).map fun l => if project then projected s.kind l else l)
    | none => .error outside

end Space

end AtomArray
