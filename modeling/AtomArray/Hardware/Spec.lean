import AtomArray.Waveform.Basic

/-!
What a device can do, and what is sent to it.

`Capabilities.standard` are the limits of the device that programs are compiled for when no others
are given. A decoder says which site belongs to which copy (a cluster) of a tiled register. Task
specifications are in units of metres, seconds and radians per second; `TaskSpec.discretize` moves
every number to the grid of the device.
-/

namespace AtomArray

structure GlobalLimits (N : Type) where
  rabiMin : N
  rabiMax : N
  rabiResolution : N
  rabiSlewMax : N
  detuningMin : N
  detuningMax : N
  detuningResolution : N
  detuningSlewMax : N
  phaseMin : N
  phaseMax : N
  phaseResolution : N
  timeMin : N
  timeMax : N
  timeResolution : N
  timeDeltaMin : N

structure LocalLimits (N : Type) where
  detuningMin : N
  detuningMax : N
  detuningSlewMax : N
  coefficientMin : N
  coefficientMax : N
  detunedSitesMax : Int
  spacingMin : N
  timeResolution : N
  timeDeltaMin : N

structure LatticeLimits (N : Type) where
  qubitsMax : Int
  width : N
  height : N
  spacingRadialMin : N
  spacingVerticalMin : N
  positionResolution : N
  sitesMax : Int

structure Capabilities (N : Type) where
  version : String
  shotsMin : Int
  shotsMax : Int
  lattice : LatticeLimits N
  c6 : N
  global : GlobalLimits N
  local_ : LocalLimits N

namespace Capabilities

variable {N : Type} [Arith N]

/-- The number of a written constant, as a device reports it. -/
def reported (c : Nat) (e : Int) : N := Arith.measured (Arith.ofDecimal (.finite false c e))

def reportedNeg (c : Nat) (e : Int) : N := Arith.measured (Arith.ofDecimal (.finite true c e))

/-- The limits that hold when no others are given. -/
def standard : Capabilities N where
  version := "0.6"
  shotsMin := 1
  shotsMax := 1000
  lattice := {
    qubitsMax := 256
    width := reported 75 (-6)
    height := reported 76 (-6)
    spacingRadialMin := reported 4 (-6)
    spacingVerticalMin := reported 4 (-6)
    positionResolution := reported 1 (-7)
    sitesMax := 256 }
  c6 := reported 542 (-26)
  global := {
    rabiMin := reported 0 0
    rabiMax := reported 158 5
    rabiResolution := reported 400 0
    rabiSlewMax := reported 25 13
    detuningMin := reportedNeg 125 6
    detuningMax := reported 125 6
    detuningResolution := reported 2 (-1)
    detuningSlewMax := reported 25 14
    phaseMin := reportedNeg 99 0
    phaseMax := reported 99 0
    phaseResolution := reported 5 (-7)
    timeMin := reported 0 0
    timeMax := reported 4 (-6)
    timeResolution := reported 1 (-9)
    timeDeltaMin := reported 5 (-8) }
  local_ := {
    detuningMin := reported 0 0
    detuningMax := reported 125 6
    detuningSlewMax := reported 12566 11
    coefficientMin := reported 0 0
    coefficientMax := reported 1 0
    detunedSitesMax := 200
    spacingMin := reported 5 (-6)
    timeResolution := reported 1 (-9)
    timeDeltaMin := reported 5 (-8) }

end Capabilities

/-! ### Decoders -/

/-- A cluster, by how often it is shifted in each direction. -/
abbrev ClusterIndex := Int × Int

structure ClusterSite where
  cluster : ClusterIndex
  /-- The number of the site on the device. -/
  globalIndex : Int
  /-- The number of the site within its cluster. -/
  localIndex : Int
  deriving DecidableEq

structure Decoder where
  mapping : List ClusterSite
  locationsPerCluster : Int
  clusterCount : Int
  deriving DecidableEq

/-- The members in the order of their first occurrence. -/
def distinct {α : Type} [DecidableEq α] (xs : List α) : List α :=
  xs.foldl (fun acc x => if x ∈ acc then acc else acc ++ [x]) []

namespace Decoder

/-- The decoder of a mapping. No site may occur twice. The number of clusters is counted unless it
is given, and the record of the locations per cluster holds it as well. -/
def ofMapping (mapping : List ClusterSite) (clusterCount : Option Int := none) :
    Outcome Decoder := do
  let sites := mapping.map (·.globalIndex)
  if (distinct sites).length ≠ sites.length then throw .refused
  let n := clusterCount.getD (distinct (mapping.map (·.cluster))).length
  return ⟨mapping, n, n⟩

variable (d : Decoder)

def localIndex? (globalIndex : Int) : Option Int :=
  (d.mapping.reverse.find? (·.globalIndex = globalIndex)).map (·.localIndex)

/-- The clusters in the order of their first site. -/
def clusterIndices : List ClusterIndex := distinct (d.mapping.map (·.cluster))

/-- The sites of a cluster, in the order of their numbers within it. -/
def sitesOf (c : ClusterIndex) : List Int :=
  ((d.mapping.filter (·.cluster = c)).map (·.globalIndex)).mergeSort fun a b =>
    decide ((d.localIndex? a).getD 0 ≤ (d.localIndex? b).getD 0)

def clusters : List (ClusterIndex × List Int) :=
  d.clusterIndices.map fun c => (c, d.sitesOf c)

end Decoder

/-! ### Task specifications -/

/-- Times with the value at each. -/
structure TimeSeries (N : Type) where
  times : List N
  values : List N
  deriving Inhabited

/-- A series of one drive with a coefficient for every site. -/
structure LocalSeries (N : Type) where
  times : List N
  values : List N
  coefficients : List N

structure TaskSpec (N : Type) where
  shots : Int
  sites : List (N × N)
  filling : List Int
  amplitude : TimeSeries N
  phase : TimeSeries N
  detuning : TimeSeries N
  localDetuning : Option (LocalSeries N)
  deriving Inhabited

variable {N : Type} [Arith N]

/-- The multiple of a resolution nearest to a number, a tie to the even multiple. -/
def discretizeTo (resolution x : N) : Outcome N := do
  let n ← Arith.round (← Arith.div x resolution)
  Arith.mul (Arith.ofInt n) resolution

def discretizeList (resolution : N) (xs : List N) : Outcome (List N) :=
  xs.mapM (discretizeTo (Arith.decimal (Arith.measured resolution)))

namespace TimeSeries

def same (a b : TimeSeries N) : Bool :=
  sameList Arith.same a.times b.times && sameList Arith.same a.values b.values

def discretize (s : TimeSeries N) (time value : N) : Outcome (TimeSeries N) := do
  let ts ← discretizeList time s.times
  return ⟨ts, ← discretizeList value s.values⟩

end TimeSeries

namespace LocalSeries

def same (a b : LocalSeries N) : Bool :=
  sameList Arith.same a.times b.times && sameList Arith.same a.values b.values &&
    sameList Arith.same a.coefficients b.coefficients

/-- Only the times of a local series are moved. -/
def discretize (s : LocalSeries N) (time : N) : Outcome (LocalSeries N) := do
  return { s with times := ← discretizeList time s.times }

end LocalSeries

namespace TaskSpec

def same (a b : TaskSpec N) : Bool :=
  a.shots == b.shots &&
    sameList (fun p q => Arith.same p.1 q.1 && Arith.same p.2 q.2) a.sites b.sites &&
    a.filling == b.filling && a.amplitude.same b.amplitude && a.phase.same b.phase &&
    a.detuning.same b.detuning &&
    match a.localDetuning, b.localDetuning with
    | none, none => true
    | some x, some y => x.same y
    | _, _ => false

def discretizeLocal (c : Capabilities N) (s : TaskSpec N) : Outcome (Option (LocalSeries N)) :=
  match s.localDetuning with
  | none => .ok none
  | some l => do return some (← l.discretize c.local_.timeResolution)

def discretize (c : Capabilities N) (s : TaskSpec N) : Outcome (TaskSpec N) := do
  let g := c.global
  let sites ← s.sites.mapM fun (x, y) => do
    match ← discretizeList c.lattice.positionResolution [x, y] with
    | [x, y] => return (x, y)
    | _ => throw .refused
  let amplitude ← s.amplitude.discretize g.timeResolution g.rabiResolution
  let phase ← s.phase.discretize g.timeResolution g.phaseResolution
  let localDetuning ← s.discretizeLocal c
  let detuning ← s.detuning.discretize g.timeResolution g.detuningResolution
  return ⟨s.shots, sites, s.filling, amplitude, phase, detuning, localDetuning⟩

/-- What is left of a specification after it was discretized: the local series of it is moved to
the grid in place, as far as that was reached. -/
def afterDiscretize (c : Capabilities N) (s : TaskSpec N) : TaskSpec N :=
  let g := c.global
  let reached : Outcome (Option (LocalSeries N)) := do
    let _ ← s.sites.mapM fun (x, y) => discretizeList c.lattice.positionResolution [x, y]
    let _ ← s.amplitude.discretize g.timeResolution g.rabiResolution
    let _ ← s.phase.discretize g.timeResolution g.phaseResolution
    s.discretizeLocal c
  match reached with
  | .ok l => { s with localDetuning := l }
  | .error _ => s

end TaskSpec

end AtomArray
