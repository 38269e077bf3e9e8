import AtomArray.Wire.Circuit
import AtomArray.Hardware.Compile
import AtomArray.Hardware.Record
import AtomArray.Emulator.Compile
import AtomArray.Emulator.Evolve

/-!
Programs for devices and emulators in requests and answers: specifications, decoders, spaces of
configurations and Hamiltonians.
-/

namespace AtomArray.Wire

open Json Capabilities

abbrev TaskSpec := AtomArray.TaskSpec Quantity

def recordForm : Json → Json :=
  replaced fun
    | .decimal d => some (decimal d)
    | .binary x => some (binary x)
    | _ => none

def clusterForm (c : ClusterIndex) : Json := .arr [.int c.1, .int c.2]

def decoderForm (d : Decoder) : Json :=
  .obj [("mapping", each d.mapping fun s =>
      .arr [clusterForm s.cluster, .int s.globalIndex, .int s.localIndex]),
    ("locations_per_cluster", .int d.locationsPerCluster),
    ("number_of_cluster", .int d.clusterCount)]

def seriesRecords (times values : List Quantity) : List Json :=
  [recordForm (quantityRecords times), recordForm (quantityRecords values)]

def linearForm (p : PiecewiseLinear Quantity) : Json := .arr (seriesRecords p.times p.values)

def pointsForm (ps : List (Quantity × Quantity)) : Json :=
  each ps fun (x, y) => .arr [quantity x, quantity y]

variable (s : TaskSpec)

def specForm : Json := recordForm s.record

def programForm (p : HardwareProgram Quantity) : Answer := do
  let spec := outcome (p.spec.map specForm)
  return .obj [("nshots", .int p.shots), ("decoder", .ofOption decoderForm p.decoder),
    ("sites", pointsForm p.sites), ("filling", each p.filling .bool),
    ("detuning", linearForm p.detuning), ("amplitude", linearForm p.amplitude),
    ("phase", .arr (seriesRecords p.phase.times p.phase.values)),
    ("coefficients", .ofOption (fun cs => recordForm (quantityRecords cs)) p.coefficients),
    ("local", .ofOption linearForm p.localDetuning), ("task", spec)]

/-- Sets a member under a path of keys; all but the last must exist. -/
def setPath (v : Json) : List String → Json → Answer
  | [], _ => .ok v
  | [k], .obj ms => .ok (.obj (insert k v ms))
  | k :: ks, .obj ms => do
    match ms.lookup k with
    | some j => return .obj (insert k (← setPath v ks j) ms)
    | none => throw (.plain .missingKey)
  | _, _ => .error .type

def overCapabilities (changes : Json) : Outcome (Capabilities Quantity) := do
  let base := recordWith "global_" (standard : Capabilities Quantity)
  ofRecord (← changes.members.foldlM (fun j (k, v) => setPath v (k.splitOn ".") j) base)

/-- The capabilities that a question names: none, the standard ones, or some that differ. -/
def readCapabilities : Json → Outcome (Option (Capabilities Quantity))
  | .null => .ok none
  | .obj ms => (overCapabilities (.obj ms)).map some
  | _ => .ok (some standard)

def compileHardware (c : Circuit Quantity) (env : Env) (shots limits : Json) :
    Outcome (HardwareProgram Quantity) := do
  let limits ← readCapabilities limits
  let n := asWhole shots
  let p ← HardwareProgram.ofCircuit env limits ((n.toOption).getD 0) c
  return { p with shots := ← n }

/-- A field with the pattern it acts by; times and values are paired. -/
def patternField (pattern : Json) (times values : List Quantity) : Json :=
  let n := min times.length values.length
  .arr (pattern :: seriesRecords (times.take n) (values.take n))

def filledSitesForm : Members :=
  let pairs := s.sites.zip s.filling
  [("sites", pointsForm (pairs.map (·.1))),
    ("filling", each pairs fun p => .int (if p.2 = 1 then 1 else 0))]

def cloudForm : Json :=
  let uniform (t : TimeSeries Quantity) : Json := patternField (.str "uniform") t.times t.values
  .obj ([("shots", int s.shots)] ++ filledSitesForm s ++
    [("amplitude", uniform s.amplitude), ("phase", uniform s.phase),
      ("detuning", uniform s.detuning),
      ("local", each (s.localDetuning.toList) fun l =>
        patternField (recordForm (quantityRecords l.coefficients)) l.times l.values)])

def readClusterSite : Json → Outcome ClusterSite
  | .arr [c, g, l] => do
    let c ← asPair asWhole c
    let g ← asWhole g
    return ⟨c, g, ← asWhole l⟩
  | _ => .error .refused

def readDecoder (mapping opts : Json) : Outcome Decoder := do
  let sites ← mapping.items.mapM readClusterSite
  Decoder.ofMapping sites (← asOptional asWhole opts["number_of_cluster"])

def compiledForm (w : CompiledWaveform Quantity) : Json :=
  .arr [envForm w.env, waveformForm w.source]

def targetsForm (ts : Targets Quantity) : Json :=
  each ts fun (atom, w) => .arr [.ofNat atom, .str (Arith.text w)]

def termsForm (t : DriveTerms Quantity) : Json :=
  .obj [("detuning", each t.detuning fun d =>
      .arr [targetsForm d.targets, compiledForm d.amplitude]),
    ("rabi", each t.rabi fun r =>
      node r.kind.name [targetsForm r.targets, compiledForm r.amplitude,
        .ofOption compiledForm r.phase])]

variable (p : EmulatorProgram Quantity)

def emulatorForm : Json :=
  .obj [("atom_type", .str p.register.kind.name),
    ("sites", each p.register.sites fun (x, y) => .arr [quantity x, quantity y]),
    ("blockade_radius", quantity p.register.radius), ("duration", quantity p.duration),
    ("pulses", .obj (p.pulses.map fun (c, t) => (c.key, termsForm t)))]

def readRadius : Json → Outcome Quantity
  | .null => .ok (.decimal (.finite false 0 (-1)))
  | .int i => .ok (.decimal (.ofInt i))
  | .binary x => .ok (.decimal (Binary.textDecimal x))
  | .str s => do return .decimal (← readDecimal s)
  | _ => .error (.plain .undefinedOperation)

def compileEmulator (c : Circuit Quantity) (env : Env) (radius threeLevel : Json) :
    Outcome (EmulatorProgram Quantity) := do
  EmulatorProgram.ofCircuit env (← readRadius radius) (threeLevel.bool?.getD false) c

/-! ### Spaces -/

def readKind (j : Json) : AtomKind :=
  if j.str? = some "three" then .threeLevel else .twoLevel

def readSites (j : Json) : Outcome (List (Quantity × Quantity)) :=
  let number (c : Json) : Outcome Quantity := (readDecimal (c.str?.getD "")).map .decimal
  j.items.mapM (readPair number number)

def spaceForm (s : Space) : Json :=
  .obj [("type", .str (if s.full then "full_space" else "sub_space")),
    ("configurations", each s.configurations .ofNat)]

def movesForm (m : Moves) : Json :=
  let rows :=
    match m.rows with
    | .all => .str "all"
    | .list is => each is .ofNat
  .arr [rows, each m.columns .ofNat]

/-- The narrowest types that hold the places and the configurations of a space. -/
def widths (s : Space) : List Json :=
  [.str (if s.size < 2147483647 then "int32" else "int64"),
    .str (if Nat.pow s.kind.levels s.atoms ≤ 4294967296 then "uint32" else "uint64")]

def readReal : Json → Float
  | .int i => Float.ofInt i
  | .binary x => x
  | _ => 0.0

def readComplex : Json → Complex
  | .arr [re, im] => ⟨readReal re, readReal im⟩
  | j => .ofReal (readReal j)

def readAtom (j : Json) : Outcome Nat :=
  match j.int? with
  | some i => if i < 0 then .error .value else .ok i.toNat
  | none => .error badRequest

def flagsForm (bs : List Bool) : Json := each bs .bool

def bitText (levels : List Nat) : String := String.join (levels.map toString)

def spaceQuestion (r : AtomRegister Quantity) (s : Space) (q : Question) : Answer :=
  let level (i : Nat) : Outcome Nat := s.kind.level? ((q.arg i).int?.getD 0)
  let stateAt : Answer := do
    let l ← level 1
    return flagsForm (s.isAt (← readAtom (q.arg 0)) l)
  let moves (f : Nat → Nat → Nat → Moves) : Answer := do
    let a ← level 1
    let b ← level 2
    return movesForm (f (← readAtom (q.arg 0)) a b)
  match q.name with
  | "space" => .ok (spaceForm s)
  | "size" => .ok (.arr ([.ofNat s.size, .ofNat s.atoms] ++ widths s))
  | "str" => .ok (.str s.text)
  | "fock" => do return .str (← s.fockAt ((q.arg 0).int?.getD 0))
  | "index" => do return .ofNat (← s.indexOf ((q.arg 0).str?.getD ""))
  | "rydberg_at" => do return flagsForm (s.isExcited (← readAtom (q.arg 0)))
  | "state_at" => stateAt
  | "state_at_raw" =>
    match s.kind with
    | .twoLevel => stateAt
    | .threeLevel => .error .levelNameMissing
  | "swap" => moves s.swapAt
  | "transition" => moves s.transitionAt
  | "zero" => .ok (each s.zeroState binary)
  | "sample" => do
    let project := (q.arg 2).bool?.getD true
    let draws := (q.arg 1).items.map readReal
    let found ← s.sample ((q.arg 0).items.map readComplex) draws project
    return each found fun ls => .str (bitText ls)
  | "len_eq" => do
    let sites ← readSites (q.arg 0)
    return .arr [.ofNat r.sites.length, .bool (r.same { r with sites := sites })]
  | _ => .error badRequest

/-! ### Hamiltonians and evolutions -/

def placesForm : Places → Json
  | .slice _ => .str "all"
  | .list is => each is .int
  | .mask bs => each bs .bool

def entriesForm (es : List (Nat × Nat × Float)) : Json :=
  let before (a b : Nat × Nat × Float) : Bool :=
    a.1 < b.1 || (a.1 == b.1 && (a.2.1 < b.2.1 || (a.2.1 == b.2.1 && a.2.2 ≤ b.2.2)))
  each (es.mergeSort before) fun (i, j, v) => .arr [.ofNat i, .ofNat j, binary v]

def couplerForm : Coupler Float → Json
  | .ones m => node "IndexMapping" [placesForm m.rows, placesForm m.columns]
  | .rows m => node "SparseMatrixCSR" [entriesForm m.entries]

variable (h : Hamiltonian Quantity Float)

def hamiltonianForm : Json :=
  .obj [("space", spaceForm h.space), ("rydberg", each h.interaction.toList sci),
    ("detuning", each h.detuning fun d => each d.diagonal.toList binary),
    ("rabi", each h.rabi fun r => .arr [couplerForm r.coupler, .bool r.phase.isSome])]

def soleHamiltonian : Outcome (Hamiltonian Quantity Float) := do
  return (← p.hamiltonian Entries.binary {}).1

def readState (n : Nat) (opts : Json) : Outcome (Array Complex) :=
  match opts.get? "state" with
  | some (.arr xs) =>
    .ok ((xs.take n).map readComplex ++ List.replicate (n - xs.length) 0).toArray
  | _ =>
    let b := opts["basis"].int?.getD 0
    match wrapped? n b with
    | .ok i => .ok ((List.range n).map fun j => if j = i then Complex.ofReal 1.0 else 0).toArray
    | .error f => .error f

def slopeAnswer (opts : Json) : Answer := do
  let x ← readState h.space.size opts
  let y ← h.slope h.toComplex (opts["interaction"].bool?.getD false)
    (readReal opts["time"]) x
  if opts["real"].bool?.getD false then
    return .arr (y.toList.flatMap fun a => [fix 5 a.re, fix 5 a.im])
  return each y.toList fun a => .arr [fix 5 a.re, fix 5 a.im]

def readMethod (opts : Json) : Hamiltonian.Method where
  solver := opts["solver"].str?.getD "dop853"
  interactionPicture := opts["interaction"].bool?.getD false

def evolveAnswer (opts : Json) : Answer := do
  let x ← readState h.space.size opts
  let times := opts["times"].items
  if !times.all (· matches .binary _) then throw .argument
  let states ← h.evolve (readMethod opts) x (times.map readReal)
  return each states fun s => each s.toList fun a => fix 4 a.normSq

end AtomArray.Wire
