import AtomArray.Circuit

/-!
Programs to emulate: the filled sites of a register, and the terms of the Hamiltonian, each with its
weights on the atoms and a waveform for its strength.
-/

namespace AtomArray

/-- How many levels of an atom are modelled: ground and Rydberg, or a second ground level between
the two as well. -/
inductive AtomKind where
  | twoLevel
  | threeLevel
  deriving DecidableEq

def AtomKind.name : AtomKind → String
  | twoLevel => "TwoLevelAtomType"
  | threeLevel => "ThreeLevelAtomType"

def AtomKind.levels : AtomKind → Nat
  | twoLevel => 2
  | threeLevel => 3

/-- The atoms of a program. Two atoms closer than the radius are never both excited. -/
structure AtomRegister (N : Type) where
  kind : AtomKind
  sites : List (N × N)
  radius : N

structure CompiledWaveform (N : Type) where
  env : Env N
  source : Waveform N

/-- Atoms with a weight each. -/
abbrev Targets (N : Type) := List (Nat × N)

/-- A term that shifts levels. -/
structure DetuningTerm (N : Type) where
  targets : Targets N
  amplitude : CompiledWaveform N

/-- Whether a transition is driven without or with a phase. -/
inductive RabiKind where
  | asymmetric
  | symmetric
  deriving DecidableEq

def RabiKind.name : RabiKind → String
  | asymmetric => "RabiAsymmetric"
  | symmetric => "RabiSymmetric"

/-- A term that drives a transition. -/
structure RabiTerm (N : Type) where
  kind : RabiKind
  targets : Targets N
  amplitude : CompiledWaveform N
  phase : Option (CompiledWaveform N)

/-- The terms of one transition. -/
structure DriveTerms (N : Type) where
  detuning : List (DetuningTerm N)
  rabi : List (RabiTerm N)

structure EmulatorProgram (N : Type) where
  register : AtomRegister N
  duration : N
  pulses : List (Coupling × DriveTerms N)

end AtomArray
