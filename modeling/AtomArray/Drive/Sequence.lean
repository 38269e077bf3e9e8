import AtomArray.Drive.Field

/-!
Bundles: parts by their keys, at the same time, which are named, joined and cut. A pulse is a bundle
of the fields that act on one transition, a sequence one of the pulses of all transitions.
-/

namespace AtomArray

inductive Bundle (κ α N : Type) where
  | members (parts : List (κ × α))
  | named (body : Bundle κ α N) (name : String)
  | append (pieces : List (Bundle κ α N))
  | slice (body : Bundle κ α N) (interval : Interval N)

section Members

variable {κ α : Type} [DecidableEq κ]

def setMember (key : κ) (a : α) : List (κ × α) → List (κ × α)
  | [] => [(key, a)]
  | (k, b) :: rest => if k = key then (k, a) :: rest else (k, b) :: setMember key a rest

def membersOf (ps : List (κ × α)) : List (κ × α) :=
  ps.foldl (fun acc p => setMember p.1 p.2 acc) []

def sameMembers (eq : α → α → Bool) (a b : List (κ × α)) : Bool :=
  a.length == b.length && a.all fun (k, x) =>
    match (b.find? fun p => p.1 = k) with
    | some (_, y) => eq x y
    | none => false

end Members

namespace Bundle

variable {κ α N β : Type}

/-- What is made of each kind of bundle, from what is made of the bundles in it. -/
structure Algebra (κ α N β : Type) where
  members : List (κ × α) → β
  named : β → String → β := fun b _ => b
  append : List β → β
  slice : β → Interval N → β := fun b _ => b

mutual

def fold (a : Algebra κ α N β) : Bundle κ α N → β
  | members ms => a.members ms
  | named b n => a.named (fold a b) n
  | append bs => a.append (foldAll a bs)
  | slice b i => a.slice (fold a b) i

def foldAll (a : Algebra κ α N β) : List (Bundle κ α N) → List β
  | [] => []
  | b :: bs => fold a b :: foldAll a bs

end

/-- Lists what the parts have, and what the cuts have before what is cut. -/
def gather (of : α → List β) (cut : Interval N → List β) : Algebra κ α N (List β) where
  members ms := ms.flatMap fun m => of m.2
  append := List.flatten
  slice xs i := cut i ++ xs

/-- Looks for something in the parts or in the cuts. -/
def search (of : κ × α → Bool) (cut : Interval N → Bool) : Algebra κ α N Bool where
  members ms := ms.any of
  append bs := bs.any id
  slice b i := b || cut i

/-- Goes through the parts, each time with what the part before made of an environment. -/
def scan (of : Env N → α → Outcome (Env N)) : Algebra κ α N (Env N → Outcome (Env N)) where
  members ms env := ms.foldlM (fun env m => of env m.2) env
  append fs env := fs.foldlM (fun env f => f env) env

/-- Binds the parameters of the parts. There is no substitution in the bounds of a cut, which are
refused. -/
def bind (of : α → Outcome α) (refused : Fault) : Algebra κ α N (Outcome (Bundle κ α N)) where
  members ms := do return members (← ms.mapM fun m => do return (m.1, ← of m.2))
  named b n := do return named (← b) n
  append bs := do return append (← bs.mapM id)
  slice b _ := do
    let _ ← b
    throw refused

variable [DecidableEq κ] [Arith N]

mutual

def same (eq : α → α → Bool) : Bundle κ α N → Bundle κ α N → Bool
  | members a, members b => sameMembers eq a b
  | named a m, named b n => same eq a b && m == n
  | append as, append bs => sameAll eq as bs
  | slice a i, slice b j => same eq a b && i.same j
  | _, _ => false

def sameAll (eq : α → α → Bool) : List (Bundle κ α N) → List (Bundle κ α N) → Bool
  | [], [] => true
  | a :: as, b :: bs => same eq a b && sameAll eq as bs
  | _, _ => false

end

end Bundle

/-! ### Pulses -/

/-- The quantity that a field drives. -/
inductive FieldName where
  | detuning
  | amplitude
  | phase
  deriving DecidableEq

namespace FieldName

def label : FieldName → String
  | detuning => "Detuning"
  | amplitude => "RabiFrequencyAmplitude"
  | phase => "RabiFrequencyPhase"

def key : FieldName → String
  | detuning => "detuning"
  | amplitude => "rabi_frequency_amplitude"
  | phase => "rabi_frequency_phase"

end FieldName

abbrev Pulse (N : Type) := Bundle FieldName (Field N) N

namespace Pulse

open AtomArray.Bundle

variable {N : Type} [Arith N]

@[match_pattern]
abbrev fields (members : List (FieldName × Field N)) : Pulse N := .members members

@[match_pattern]
abbrev named (name : String) (body : Pulse N) : Pulse N := Bundle.named body name

def same (a b : Pulse N) : Bool := Bundle.same Field.same a b

def pieces : Pulse N → List (Pulse N)
  | append ps => ps
  | p => [p]

mutual

/-- The canonical form: joined pulses that are joins themselves are taken apart. -/
def canon : Pulse N → Pulse N
  | append ps => append (canonPieces ps)
  | p => p

def canonPieces : List (Pulse N) → List (Pulse N)
  | [] => []
  | append qs :: ps => canonAll qs ++ canonPieces ps
  | p :: ps => p :: canonPieces ps

def canonAll : List (Pulse N) → List (Pulse N)
  | [] => []
  | p :: ps => canon p :: canonAll ps

end

def join (a b : Pulse N) : Pulse N := canon (append [a, b])

def scalarNames : Pulse N → List String := fold (gather Field.scalarNames Interval.names)

def vectorNames : Pulse N → List (Option String) := fold (gather Field.vectorNames fun _ => [])

def hasTermSet : Pulse N → Bool := fold (search (fun f => f.2.hasTermSet) Interval.hasTermSet)

def scanRecords (env : Env N) (p : Pulse N) : Outcome (Env N) := p.fold (scan Field.scanRecords) env

def assign (env : Env N) : Pulse N → Outcome (Pulse N) := fold (bind (Field.assign env) .type)

def tree : Pulse N → Tree := fold {
  members := fun fs => .named "Pulse" (fs.map fun (n, f) => (n.label, f.tree))
  named := fun p n => .named "NamedPulse" [("Name", .text n), ("Pulse", p)]
  append := .branch "Append"
  slice := fun p i => .named "Slice" [("Pulse", p), ("Interval", i.tree)] }

/-- The saved form of a pulse; named and cut pulses have none. -/
def saved : Pulse N → Outcome Json := fold {
  members := fun fs => do
    let ms ← fs.mapM fun (n, f) => do return (n.key, ← f.saved)
    return .obj [("pulse", .obj [("fields", .obj ms)])]
  named := fun _ _ => .error .part
  append := fun ps => do return .obj [("append_pulse", .obj [("pulses", .arr (← ps.mapM id))])]
  slice := fun _ _ => .error .part }

end Pulse

/-! ### Sequences -/

/-- The transition that a pulse drives. -/
inductive Coupling where
  | rydberg
  | hyperfine
  deriving DecidableEq

namespace Coupling

def label : Coupling → String
  | rydberg => "RydbergLevelCoupling"
  | hyperfine => "HyperfineLevelCoupling"

def key : Coupling → String
  | rydberg => "rydberg"
  | hyperfine => "hyperfine"

end Coupling

abbrev Sequence (N : Type) := Bundle Coupling (Pulse N) N

namespace Sequence

open AtomArray.Bundle

variable {N : Type} [Arith N]

@[match_pattern]
abbrev pulses (members : List (Coupling × Pulse N)) : Sequence N := .members members

@[match_pattern]
abbrev named (body : Sequence N) (name : String) : Sequence N := Bundle.named body name

def same (a b : Sequence N) : Bool := Bundle.same Pulse.same a b

def join (a b : Sequence N) : Sequence N := append [a, b]

def scalarNames : Sequence N → List String := fold (gather Pulse.scalarNames Interval.names)

def vectorNames : Sequence N → List (Option String) := fold (gather Pulse.vectorNames fun _ => [])

def hasTermSet : Sequence N → Bool := fold (search (fun p => p.2.hasTermSet) Interval.hasTermSet)

def drivesHyperfine : Sequence N → Bool := fold (search (·.1 = .hyperfine) fun _ => false)

def scanRecords (env : Env N) (s : Sequence N) : Outcome (Env N) :=
  s.fold (scan Pulse.scanRecords) env

def assign (env : Env N) : Sequence N → Outcome (Sequence N) :=
  fold (bind (Pulse.assign env) (.notHandled "interval" Scalar.assignHandler))

def tree : Sequence N → Tree := fold {
  members := fun ps => .named "Sequence" (ps.map fun (c, p) => (c.label, p.tree))
  named := fun s n => .named "NamedSequence" [("sequence", s), ("name", .text n)]
  append := .branch "Append"
  slice := fun s i => .named "Slice" [("sequence", s), ("interval", i.tree)] }

/-- The saved form of a sequence; a named sequence has none. -/
def saved : Sequence N → Outcome Json := fold {
  members := fun ps => do
    let ms ← ps.mapM fun (c, p) => do return (c.key, ← p.saved)
    return .obj [("sequence", .obj [("pulses", .obj ms)])]
  named := fun _ _ => .error .part
  append := fun ss => do
    return .obj [("append_sequence", .obj [("sequences", .arr (← ss.mapM id))])]
  slice := fun s i => do
    return .obj [("slice_sequence", .obj [("sequence", ← s), ("interval", i.saved)])] }

end Sequence

end AtomArray
