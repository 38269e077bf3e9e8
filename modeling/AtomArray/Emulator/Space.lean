import AtomArray.Emulator.Program

/-!
The configurations of a set of atoms.

A configuration is a number whose digits, in the base of the number of levels, are the levels of the
atoms. A space lists configurations in increasing order. It is full if no two atoms are near each
other; otherwise `Space.grow` adds one atom after the other, and never excites two near ones. An
atom with no near atom before it is not added and stays in its ground level.
-/

namespace AtomArray

/-- The level of atom `i` in a configuration. -/
def levelOf (levels i c : Nat) : Nat := c / Nat.pow levels i % levels

/-- The digits of a number, least first; zero has one digit. -/
def digitsOf (levels c : Nat) : List Nat :=
  if c < levels ∨ levels < 2 then [c % levels] else c % levels :: digitsOf levels (c / levels)
termination_by c
decreasing_by exact Nat.div_lt_self (by omega) (by omega)

namespace AtomKind

/-- The letters of the levels, lowest first. -/
def letters : AtomKind → List Char
  | twoLevel => ['g', 'r']
  | threeLevel => ['g', 'h', 'r']

variable (k : AtomKind)

def excited : Nat := k.levels - 1

def level? (i : Int) : Outcome Nat :=
  if 0 ≤ i ∧ i < k.levels then .ok i.toNat else .error .value

/-- The written form of a configuration: a letter for each atom, the first atom first. -/
def fock (c atoms : Int) : String :=
  let digits := if c < 0 then [(c % k.levels).toNat] else digitsOf k.levels c.toNat
  let shown := digits.map fun d => k.letters.getD d 'g'
  let padding := List.replicate (atoms - shown.length).toNat 'g'
  "|" ++ String.ofList (shown ++ padding) ++ ">"

def ofLetters (k : AtomKind) : List Char → Outcome Nat
  | [] => .ok 0
  | c :: cs =>
    match k.letters.idxOf? c with
    | some d => do return d + k.levels * (← ofLetters k cs)
    | none => .error (.plain .missingKey)

/-- The configuration with a written form; its bars and brackets say nothing. -/
def ofFock (s : String) : Outcome Nat :=
  k.ofLetters (s.toList.filter fun c => c ≠ '|' && c ≠ '>')

end AtomKind

/-- A choice of entries: all of them, or those listed. -/
inductive Selection where
  | all
  | list (entries : List Nat)
  deriving DecidableEq

def Selection.entries (n : Nat) : Selection → List Nat
  | all => List.range n
  | list is => is

/-- The rows and columns of the ones of a 0/1 matrix. -/
structure Moves where
  rows : Selection
  columns : List Nat
  deriving DecidableEq

/-- The configurations that are told apart. -/
structure Space where
  kind : AtomKind
  atoms : Nat
  full : Bool
  configurations : List Nat
  deriving DecidableEq

namespace Space

/-! ### Growing a space -/

/-- The configurations that give atom `i` one of the lowest `choices` levels. -/
def placeAtom (levels i choices c : Nat) : List Nat :=
  (List.range choices).map fun s => c + s * Nat.pow levels i

def isBlocked (levels : Nat) (near : List Nat) (c : Nat) : Bool :=
  near.any fun j => levelOf levels j c == levels - 1

/-- Adds atom `i`, which is near the listed earlier atoms. -/
def grow (levels : Nat) (cs : List Nat) (i : Nat) (near : List Nat) : List Nat :=
  if near.isEmpty then cs
  else
    (cs.filter (isBlocked levels near)).flatMap (placeAtom levels i (levels - 1))
      ++ (cs.filter fun c => !isBlocked levels near c).flatMap (placeAtom levels i levels)

/-- The earlier atoms near each atom but the first. -/
def neighbours (n : Nat) (near : Nat → Nat → Bool) : List (Nat × List Nat) :=
  (List.range (n - 1)).map fun i => (i + 1, (List.range (i + 1)).filter (near (i + 1)))

/-- The space of `n` atoms under a relation of nearness. -/
def ofNear (kind : AtomKind) (n : Nat) (near : Nat → Nat → Bool) : Space :=
  let found := neighbours n near
  if found.all fun (_, js) => js.isEmpty then
    ⟨kind, n, true, List.range (Nat.pow kind.levels n)⟩
  else
    let grown := found.foldl (fun cs (i, js) => grow kind.levels cs i js) (List.range kind.levels)
    ⟨kind, n, false, grown.mergeSort fun a b => decide (a ≤ b)⟩

/-! ### Looking into a space -/

variable (s : Space)

def size : Nat := s.configurations.length

/-- In which configurations is an atom at a level? -/
def isAt (i level : Nat) : List Bool :=
  s.configurations.map fun c => levelOf s.kind.levels i c == level

/-- In which configurations is an atom excited? -/
def isExcited (i : Nat) : List Bool := s.isAt i s.kind.excited

def position? (c : Nat) : Option Nat := s.configurations.idxOf? c

/-- The place of a written configuration. In a full space every number is its own place. -/
def indexOf (fock : String) : Outcome Nat := do
  let c ← s.kind.ofFock fock
  if s.full then return c
  match s.position? c with
  | some p => return p
  | none => .error .stateOutsideSpace

def fockAt (index : Int) : Outcome String :=
  if index < 0 then .error (.indexOutOfSpace index)
  else match s.configurations[index.toNat]? with
    | some c => .ok (s.kind.fock c s.atoms)
    | none => .error (.indexOutOfSpace index)

def zeroState : List Float :=
  (List.range s.size).map fun i => if i = 0 then 1.0 else 0.0

/-! ### Moving one atom -/

/-- Columns as places in the space; what leaves the space is dropped with its row. -/
def locate (rows : Selection) (columns : List Nat) : Moves :=
  if s.full then ⟨rows, columns⟩
  else
    let found := columns.map s.position?
    if found.all Option.isSome then ⟨rows, found.filterMap id⟩
    else
      let kept := ((rows.entries s.size).zip found).filterMap fun (r, p) => p.map (r, ·)
      ⟨.list (kept.map Prod.fst), kept.map Prod.snd⟩

def matching (test : Nat → Bool) : List (Nat × Nat) :=
  (s.configurations.zipIdx.filter fun (c, _) => test c).map fun (c, p) => (p, c)

/-- A configuration with atom `i` moved between two levels, whichever of them it is at. -/
def exchanged (levels i a b c : Nat) : Nat :=
  let low := min a b
  let high := max a b
  if levelOf levels i c = low then c + (high - low) * Nat.pow levels i
  else c - (high - low) * Nat.pow levels i

/-- The entries that exchange two levels of an atom. With two levels every configuration has
one. -/
def swapAt (i a b : Nat) : Moves :=
  match s.kind with
  | .twoLevel => s.locate .all (s.configurations.map (· ^^^ Nat.pow 2 i))
  | .threeLevel =>
    let found := s.matching fun c => levelOf 3 i c == a || levelOf 3 i c == b
    s.locate (.list (found.map Prod.fst)) (found.map fun (_, c) => exchanged 3 i a b c)

/-- The entries that take an atom from one level to another. With two levels it leaves for the
other one. -/
def transitionAt (i source target : Nat) : Moves :=
  let found := s.matching fun c => levelOf s.kind.levels i c == source
  let moved (c : Nat) : Nat :=
    match s.kind with
    | .twoLevel => c ^^^ Nat.pow 2 i
    | .threeLevel => c + target * Nat.pow 3 i - source * Nat.pow 3 i
  s.locate (.list (found.map Prod.fst)) (found.map fun (_, c) => moved c)

/-! ### Text -/

/-- How many configurations are written out at most. -/
def shownConfigurations : Nat := 30

/-- One line: the place, right aligned, and the configuration. -/
def line (width : Nat) (place c : Nat) : String :=
  let number := toString place
  Text.times (width - number.length) " " ++ number ++ ". " ++ s.kind.fock c s.atoms ++ "\n"

/-- The written form of a space; the middle of a long one is left out. -/
def text : String :=
  let n := s.size
  let width := (toString ((n : Int) - 1)).length
  let half := shownConfigurations / 2
  let shown (from_ : Nat) (cs : List Nat) : String :=
    String.join ((cs.zipIdx from_).map fun (c, p) => s.line width p c)
  if n < shownConfigurations then shown 0 s.configurations
  else
    shown 0 (s.configurations.take half) ++ Text.times width "  " ++ "...\n"
      ++ shown (n - half) (s.configurations.drop (n - half))

end Space

/-! ### The space of a register -/

namespace AtomRegister

variable {N : Type} [Arith N]

/-- Are two sites at most the blockade radius apart? -/
def areNear (radius : N) (p q : N × N) : Outcome Bool := do
  Arith.within (← Arith.sub p.1 q.1) (← Arith.sub p.2 q.2) radius

/-- The pairs of near atoms, the later atom first. -/
def nearPairs (r : AtomRegister N) : Outcome (List (Nat × Nat)) := do
  let indexed := r.sites.zipIdx
  let rows ← indexed.mapM fun (p, i) => do
    let flags ← (indexed.take i).mapM fun (q, j) => do
      return if ← areNear r.radius p q then [(i, j)] else []
    return flags.flatten
  return rows.flatten

def space (r : AtomRegister N) : Outcome Space := do
  let pairs ← r.nearPairs
  return Space.ofNear r.kind r.sites.length fun i j => pairs.contains (i, j)

/-- Do two registers have the same atoms, in whatever order? -/
def same (a b : AtomRegister N) : Bool :=
  let sameSite (p q : N × N) := Arith.same p.1 q.1 && Arith.same p.2 q.2
  a.kind == b.kind && Arith.same a.radius b.radius
    && a.sites.all (fun p => b.sites.any (sameSite p))
    && b.sites.all (fun p => a.sites.any (sameSite p))

end AtomRegister

end AtomArray
