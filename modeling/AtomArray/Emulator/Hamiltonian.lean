import AtomArray.Emulator.Space
import AtomArray.Emulator.Sparse

/-!
The Hamiltonian of a program: a diagonal of interaction energies, a diagonal for each detuning term
and an operator for each term that drives a transition.

A `CompileCache` keeps what one program needs for the next: a space by its register, and an operator
by its register, its kind and its targets. Registers count as the same if they hold the same atoms
in whatever order.
-/

namespace AtomArray

/-- How the entries of a Hamiltonian are computed. -/
structure Entries (N α : Type) where
  weight : N → α
  /-- The interaction energy of two excited atoms, unless it is too weak to count. -/
  interaction? : N × N → N × N → Option α

namespace Entries

/-- The strength of the interaction of two excited atoms, at a distance of one. -/
def strength : Float := 2.0 * 3.141592653589793 * 862690.0

/-- Energies up to this one do not count. -/
def weakest : Float := 2.220446049250313e-16

/-- Entries in binary numbers; the interaction falls with the sixth power of the distance. -/
def binary {N : Type} [Arith N] : Entries N Float where
  weight := Arith.approx
  interaction? p q :=
    let dx := Arith.approx p.1 - Arith.approx q.1
    let dy := Arith.approx p.2 - Arith.approx q.2
    let distance := (dx * dx + dy * dy).sqrt
    let energy := strength / distance.pow 6.0
    if energy ≤ weakest then none else some energy

end Entries

/-- The operator of a term that drives a transition. A single target needs no weights. -/
inductive Coupler (α : Type) where
  | ones (m : IndexMap)
  | rows (m : RowMatrix α)

structure DetuningOperator (N α : Type) where
  diagonal : Array α
  amplitude : CompiledWaveform N

structure RabiOperator (N α : Type) where
  coupler : Coupler α
  amplitude : CompiledWaveform N
  phase : Option (CompiledWaveform N)

structure Hamiltonian (N α : Type) where
  duration : N
  space : Space
  interaction : Array α
  detuning : List (DetuningOperator N α)
  rabi : List (RabiOperator N α)

/-! ### Entries -/

section Build

variable {N α : Type} [Zero α] [Add α] [Sub α] {β : Type}

/-- The pairs of a list, the earlier one first. -/
def pairsOf : List β → List (β × β)
  | [] => []
  | a :: rest => rest.map (a, ·) ++ pairsOf rest

variable (e : Entries N α)

def interactionDiagonal (sites : List (N × N)) (s : Space) : Array α :=
  let pairs := (pairsOf sites.zipIdx).filterMap fun ((p, i), (q, j)) =>
    (e.interaction? p q).map fun energy => (i, j, energy)
  let excited (c i : Nat) : Bool := levelOf s.kind.levels i c == s.kind.excited
  (s.configurations.map fun c => pairs.foldl (fun acc (i, j, energy) =>
    if excited c i && excited c j then acc + energy else acc) 0).toArray

def Coupling.levels (k : AtomKind) : Coupling → Nat × Nat
  | .rydberg =>
    match k with
    | .twoLevel => (0, 1)
    | .threeLevel => (1, 2)
  | .hyperfine => (0, 1)

/-- The shift of each configuration: less the weights of the atoms at a level. -/
def detuningDiagonal (s : Space) (level : Nat) (targets : Targets N) : Array α :=
  (s.configurations.map fun c => targets.foldl (fun acc (i, w) =>
    if levelOf s.kind.levels i c == level then acc - e.weight w else acc) 0).toArray

def Space.movesOf (s : Space) (kind : RabiKind) (low high i : Nat) : Moves :=
  match kind with
  | .symmetric => s.swapAt i high low
  | .asymmetric => s.transitionAt i high low

def Moves.weighted (m : Moves) (n : Nat) (w : β) : List (Nat × Nat × β) :=
  ((m.rows.entries n).zip m.columns).map fun (r, c) => (r, c, w)

/-- The sum of the moves of the targets, each with its weight. -/
def weightedMoves (n : Nat) (moves : Nat → Moves) (targets : Targets N) : RowMatrix α :=
  RowMatrix.ofEntries n n (targets.flatMap fun (i, w) => (moves i).weighted n (e.weight w))

def Selection.places : Selection → Places
  | .all => .slice .all
  | .list is => .list (is.map Int.ofNat)

def coupler (s : Space) (kind : RabiKind) (low high : Nat) (targets : Targets N) : Coupler α :=
  match targets with
  | [(i, _)] =>
    let m := s.movesOf kind low high i
    .ones ⟨s.size, m.rows.places, .list (m.columns.map Int.ofNat)⟩
  | _ => .rows (weightedMoves e s.size (s.movesOf kind low high) targets)

end Build

/-! ### Keeping what was built -/

/-- What earlier programs needed. -/
structure CompileCache (N α : Type) where
  spaces : List (AtomRegister N × Space × Array α) := []
  diagonals : List (AtomRegister N × Targets N × Array α) := []
  couplers : List (AtomRegister N × RabiKind × Targets N × Coupler α) := []

section Cache

variable {N α : Type} [Arith N]

/-- Are two registers taken for the same? Without a blockade they also have as many sites. -/
def AtomRegister.matches (a b : AtomRegister N) : Bool :=
  a.same b && (!Arith.same a.radius Arith.zero || a.sites.length == b.sites.length)

/-- Do two lists of targets give the same atoms the same weights? -/
def Targets.same (a b : Targets N) : Bool :=
  a.length == b.length
    && a.all fun (i, w) => (b.lookup i).any fun v => Arith.same w v

namespace CompileCache

def operatorCount (cache : CompileCache N α) : Nat :=
  cache.diagonals.length + cache.couplers.length

variable [Zero α] [Add α] [Sub α]

def space (e : Entries N α) (cache : CompileCache N α) (r : AtomRegister N) :
    Outcome ((Space × Array α) × CompileCache N α) := do
  match cache.spaces.find? fun (known, _) => known.matches r with
  | some (_, found) => return (found, cache)
  | none =>
    let s ← r.space
    let built := (s, interactionDiagonal e r.sites s)
    return (built, { cache with spaces := cache.spaces ++ [(r, built)] })

def diagonal (e : Entries N α) (r : AtomRegister N) (s : Space) (level : Nat)
    (cache : CompileCache N α) (targets : Targets N) : Array α × CompileCache N α :=
  match cache.diagonals.find? fun (known, ts, _) => known.matches r && Targets.same ts targets with
  | some (_, _, found) => (found, cache)
  | none =>
    let built := detuningDiagonal e s level targets
    (built, { cache with diagonals := cache.diagonals ++ [(r, targets, built)] })

def couplerOf (e : Entries N α) (r : AtomRegister N) (s : Space) (low high : Nat)
    (cache : CompileCache N α) (kind : RabiKind) (targets : Targets N) :
    Coupler α × CompileCache N α :=
  match cache.couplers.find? fun (known, k, ts, _) =>
      known.matches r && k == kind && Targets.same ts targets with
  | some (_, _, _, found) => (found, cache)
  | none =>
    let built := coupler e s kind low high targets
    (built, { cache with couplers := cache.couplers ++ [(r, kind, targets, built)] })

end CompileCache

variable [Zero α] [Add α] [Sub α] (e : Entries N α)

def Hamiltonian.addTerms (r : AtomRegister N)
    (state : Hamiltonian N α × CompileCache N α) (entry : Coupling × DriveTerms N) :
    Hamiltonian N α × CompileCache N α :=
  let (coupling, terms) := entry
  let s := state.1.space
  let (low, high) := coupling.levels s.kind
  let state := terms.detuning.foldl (fun (h, cache) t =>
    let (d, cache) := CompileCache.diagonal e r s high cache t.targets
    ({ h with detuning := h.detuning ++ [⟨d, t.amplitude⟩] }, cache)) state
  terms.rabi.foldl (fun (h, cache) t =>
    let (c, cache) := CompileCache.couplerOf e r s low high cache t.kind t.targets
    ({ h with rabi := h.rabi ++ [⟨c, t.amplitude, t.phase⟩] }, cache)) state

/-- The Hamiltonian of a program, and what is kept for the next one. -/
def EmulatorProgram.hamiltonian (cache : CompileCache N α)
    (p : EmulatorProgram N) : Outcome (Hamiltonian N α × CompileCache N α) := do
  let ((s, energies), cache) ← cache.space e p.register
  return p.pulses.foldl (Hamiltonian.addTerms e p.register)
    (⟨p.duration, s, energies, [], []⟩, cache)

end Cache

end AtomArray
