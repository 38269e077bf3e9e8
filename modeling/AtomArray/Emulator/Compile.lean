import AtomArray.Emulator.Program

/-!
Compiling circuits for emulation.

Only filled sites are emulated (`Fleet`). A field with at most as many drives as there are atoms
gives one term for every drive; one with more gives a term for every atom, whose waveform is the
weighted sum of all drives on it.
-/

namespace AtomArray

open Arith

variable {N : Type} [Arith N]

/-- The atoms of a register: the numbers of the filled sites in order, and how many atoms and
sites the register counts. -/
structure Fleet where
  filled : List Nat
  atomCount : Int
  siteCount : Int

/-- What fields are compiled with: the values of parameters, recorded ones included (`env`), those
that waveforms are to be evaluated with (`given`), and the atoms. -/
structure EmulatorScope (N : Type) where
  env : Env N
  given : Env N
  fleet : Fleet

namespace EmulatorScope

variable (s : EmulatorScope N)

def atoms : List Nat := List.range s.fleet.atomCount.toNat

def compiled (w : Waveform N) : CompiledWaveform N := ⟨s.given, w⟩

/-! ### Weights -/

/-- The weight written with one decimal that uniform drives have. -/
def unit : N := ofDecimal (.finite false 10 (-1))

def isZero : Param N → Bool
  | .number v => isDecimal 0 v
  | .whole i => decide (i = 0)
  | .flag b => !b
  | _ => false

def vectorItem (i : Nat) : Param N → Outcome (Param N)
  | .list xs => item? xs i
  | .array xs => item? xs i
  | .text s => (item? s.toList i).map fun c => .text (String.singleton c)
  | .record _ => .error (.plain .missingKey)
  | _ => .error .type

/-- Is an atom left out because its weight is zero? -/
def weightOf (p : Param N) : Outcome (Option N) :=
  if isZero p then .ok none else p.number?.map some

def places : List (Nat × Nat) :=
  (List.range s.fleet.filled.length).zip s.fleet.filled

def weighted (weight : Nat → Outcome (Option N)) : Outcome (Targets N) := do
  let found ← s.places.mapM fun (atom, site) => do return (atom, ← weight site)
  return found.filterMap fun (atom, w) => w.map (atom, ·)

def targets : Modulation N → Outcome (Targets N)
  | .uniform => .ok (s.atoms.map (·, unit))
  | .vector name => do
    match s.env.lookup name with
    | none => throw (.plain .missingKey)
    | some p => s.weighted fun site => do weightOf (← vectorItem site p)
  | .boundVector _ values =>
    s.weighted fun site => do weightOf (.number (← item? values site))
  | .scaled scales => do
    match scales.find? fun p => decide (s.fleet.siteCount ≤ p.1 ∨ p.1 < 0) with
    | some p => throw (.locationOutOfBounds p.1 s.fleet.siteCount.toNat)
    | none =>
      s.weighted fun site =>
        match scales.lookup (site : Int) with
        | none => .ok none
        | some e => (e.eval s.env).map some

/-! ### Durations -/

/-- The later of a duration and the end of a waveform, as binary numbers. -/
def extend (duration : N) (w : Waveform N) : Outcome N := do
  let d := measured (← w.length s.env)
  return if ← lt d duration then duration else d

/-! ### Sums of drives -/

structure AimedDrive (N : Type) where
  waveform : Waveform N
  targets : Targets N

def aimed (f : Field N) : Outcome (List (AimedDrive N)) :=
  f.drives.mapM fun (m, w) => do return ⟨w, ← s.targets m⟩

variable (ds : List (AimedDrive N))

def isDriven (atom : Nat) : Bool :=
  ds.any fun d => (d.targets.lookup atom).isSome

/-- A constant without value and duration. -/
def nothing : Waveform N :=
  .constant (.const (.finite false 0 (-1))) (.const (.finite false 0 (-1)))

/-- The weighted sum of all drives on an atom. -/
def total (atom : Nat) : Outcome (Waveform N) :=
  ds.foldlM (fun acc d =>
    match d.targets.lookup atom with
    | some weight => acc.plus (.scale (.lit weight) d.waveform)
    | none => .ok acc) nothing

/-! ### Terms -/

variable {τ : Type}

/-- What is made of one drive after the other, each with its targets. -/
def byDrive (s : EmulatorScope N) (make : Targets N → Waveform N → Option τ) :
    N → List (Drive N) → Outcome (N × List τ)
  | t, [] => .ok (t, [])
  | t, (m, w) :: rest => do
    let t ← s.extend t w
    let targets ← s.targets m
    let (t, terms) ← byDrive s make t rest
    return (t, (make targets w).toList ++ terms)

/-- What is made of one atom after the other, of those that are driven. -/
def byAtom (ds : List (AimedDrive N)) (make : N → Nat → Outcome (N × τ)) :
    N → List Nat → Outcome (N × List τ)
  | t, [] => .ok (t, [])
  | t, atom :: rest => do
    if isDriven ds atom then
      let (t, term) ← make t atom
      let (t, terms) ← byAtom ds make t rest
      return (t, term :: terms)
    else byAtom ds make t rest

/-! ### Detuning -/

def detuningByDrive : N → List (Drive N) → Outcome (N × List (DetuningTerm N)) :=
  s.byDrive fun targets w => some ⟨targets, s.compiled w⟩

def detuningByAtom : N → List Nat → Outcome (N × List (DetuningTerm N)) :=
  byAtom ds fun t atom => do
    let w ← total ds atom
    return (← s.extend t w, ⟨[(atom, unit)], s.compiled w⟩)

/-- Has a field at most as many drives as there are atoms? -/
def isSmall (f : Field N) : Bool :=
  decide ((f.drives.length : Int) ≤ s.fleet.atomCount)

def detuning (t : N) : Option (Field N) → Outcome (N × List (DetuningTerm N))
  | none => .ok (t, [])
  | some f =>
    if s.isSmall f then s.detuningByDrive t f.drives
    else do s.detuningByAtom (← s.aimed f) t s.atoms

/-! ### Rabi frequency -/

/-- The waveform of a drive; on a single atom the weight becomes a part of it. -/
def absorbed (targets : Targets N) (w : Waveform N) : Waveform N :=
  match targets with
  | [(_, weight)] => if isDecimal 1 weight then w else .scale (.lit weight) w
  | _ => w

/-- One term for every drive that acts on an atom. -/
def rabiByDrive (kind : RabiKind) (phase : Option (CompiledWaveform N)) :
    N → List (Drive N) → Outcome (N × List (RabiTerm N)) :=
  s.byDrive fun targets w =>
    if targets.isEmpty then none
    else some ⟨kind, targets, s.compiled (absorbed targets w), phase⟩

/-- One term without a phase for every atom that is driven. -/
def rabiByAtom : N → List Nat → Outcome (N × List (RabiTerm N)) :=
  byAtom ds fun t atom => do
    let w ← total ds atom
    return (← s.extend t w, ⟨.symmetric, [(atom, unit)], s.compiled w, none⟩)

/-- One term with a phase for every atom that is driven. -/
def rabiPhaseByAtom (phases : List (AimedDrive N)) :
    N → List Nat → Outcome (N × List (RabiTerm N)) :=
  byAtom ds fun t atom => do
    let phase ← total phases atom
    let w ← total ds atom
    let t ← s.extend t w
    return (← s.extend t phase,
      ⟨.asymmetric, [(atom, one)], s.compiled w, some (s.compiled phase)⟩)

/-- The waveform of a phase that is the same for all atoms. -/
def solePhase? (f : Field N) : Option (Waveform N) :=
  match f.drives with
  | [(.uniform, w)] => some w
  | _ => none

def rabi (t : N) (amplitude phase : Option (Field N)) : Outcome (N × List (RabiTerm N)) :=
  match amplitude, phase with
  | none, _ => .ok (t, [])
  | some a, none =>
    if s.isSmall a then s.rabiByDrive .symmetric none t a.drives
    else do s.rabiByAtom (← s.aimed a) t s.atoms
  | some a, some p =>
    match (if s.isSmall a then solePhase? p else none) with
    | some w => do
      s.rabiByDrive .asymmetric (some (s.compiled w)) (← s.extend t w) a.drives
    | none => do
      let phases ← s.aimed p
      s.rabiPhaseByAtom (← s.aimed a) phases t s.atoms

/-! ### Pulses and sequences -/

def field? (fs : List (FieldName × Field N)) (n : FieldName) : Option (Field N) :=
  (fs.find? fun f => f.1 = n).map (·.2)

def pulse (s : EmulatorScope N) (t : N) : Pulse N → Outcome (N × DriveTerms N)
  | .fields fs => do
    let (t, detuning) ← s.detuning t (field? fs .detuning)
    let (t, rabi) ← s.rabi t (field? fs .amplitude) (field? fs .phase)
    return (t, ⟨detuning, rabi⟩)
  | .named _ p => pulse s t p
  | .append _ => .error (.emulatorLacks "Append pulses")
  | .slice .. => .error (.emulatorLacks "Slice pulses")

def pulses (s : EmulatorScope N) :
    N → List (Coupling × Pulse N) → Outcome (N × List (Coupling × DriveTerms N))
  | t, [] => .ok (t, [])
  | t, (c, p) :: rest => do
    let (t, terms) ← s.pulse t p
    let (t, more) ← pulses s t rest
    return (t, (c, terms) :: more)

def sequence (t : N) : Sequence N → Outcome (N × List (Coupling × DriveTerms N))
  | .pulses ps => s.pulses t ps
  | .named .. => .error .part
  | .append _ => .error (.emulatorLacks "Append sequences")
  | .slice .. => .error (.emulatorLacks "Slice sequences")

end EmulatorScope

namespace EmulatorProgram

def filledSites (sites : List (Site N)) : List Nat :=
  ((List.range sites.length).zip sites).filterMap fun (i, s) => if s.filled then some i else none

def ofCircuit (given : Env N) (radius : N) (threeLevel : Bool) (c : Circuit N) :
    Outcome (EmulatorProgram N) := do
  let env ← c.sequence.scanRecords given
  let kind := if c.sequence.drivesHyperfine || threeLevel then AtomKind.threeLevel else .twoLevel
  match c.register with
  | .tiled _ => throw (.plain .tooDeep)
  | .plain r =>
    let atomCount ← r.atomCount
    let siteCount ← r.siteCount
    let sites ← r.sites
    let points ← (sites.filter (·.filled)).mapM fun s => do
      return (← s.x.eval env, ← s.y.eval env)
    let scope : EmulatorScope N := ⟨env, given, ⟨filledSites sites, atomCount, siteCount⟩⟩
    let (duration, pulses) ← scope.sequence (measured zero) c.sequence
    return ⟨⟨kind, points, radius⟩, duration, pulses⟩

end EmulatorProgram

end AtomArray
