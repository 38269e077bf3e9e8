import AtomArray.Hardware.Spec
import AtomArray.Json.Record

/-!
Task specifications, capabilities and decoders as JSON records.
-/

namespace AtomArray

open Json

def Quantity.record : Quantity → Json
  | .decimal d => .decimal d
  | .binary x => .binary x

def quantityRecords (xs : List Quantity) : Json := .arr (xs.map Quantity.record)

variable (j : Json)

def Json.asQuantity : Outcome Quantity := (asDecimal j).map .decimal

def Json.asMeasured : Outcome Quantity := (asBinary j).map .binary

namespace TimeSeries

def record (s : TimeSeries Quantity) : Json :=
  .obj [("times", quantityRecords s.times), ("values", quantityRecords s.values)]

def ofRecord : Outcome (TimeSeries Quantity) := do
  let ts ← j.field "times" (asList asQuantity)
  return ⟨ts, ← j.field "values" (asList asQuantity)⟩

def ofGlobal : Outcome (TimeSeries Quantity) := j.fieldOr "global" "global_" ofRecord

end TimeSeries

namespace LocalSeries

def record (s : LocalSeries Quantity) : Json :=
  .obj [("times", quantityRecords s.times), ("values", quantityRecords s.values),
    ("lattice_site_coefficients", quantityRecords s.coefficients)]

def ofRecord (j : Json) : Outcome (LocalSeries Quantity) := do
  let s ← TimeSeries.ofRecord j
  return ⟨s.times, s.values,
    ← j.field "lattice_site_coefficients" (asList asQuantity)⟩

end LocalSeries

namespace TaskSpec

def record (s : TaskSpec Quantity) : Json :=
  let global (t : TimeSeries Quantity) : Json := .obj [("global", t.record)]
  .obj [("nshots", .int s.shots),
    ("lattice", .obj [
      ("sites", .arr (s.sites.map fun (x, y) => .arr [x.record, y.record])),
      ("filling", .arr (s.filling.map .int))]),
    ("effective_hamiltonian", .obj [("rydberg", .obj [
      ("rabi_frequency_amplitude", global s.amplitude),
      ("rabi_frequency_phase", global s.phase),
      ("detuning", .obj [("global", s.detuning.record),
        ("local", ofOption LocalSeries.record s.localDetuning)])])])]

def ofRecord (j : Json) : Outcome (TaskSpec Quantity) := do
  let shots ← j.field "nshots" asWhole
  let lattice ← j.field "lattice" .ok
  let sites ← lattice.field "sites" (asList (asPair asQuantity))
  let filling ← lattice.field "filling" (asList asWhole)
  let rydberg ← j.field "effective_hamiltonian" (field "rydberg" .ok)
  let amplitude ← rydberg.field "rabi_frequency_amplitude" TimeSeries.ofGlobal
  let phase ← rydberg.field "rabi_frequency_phase" TimeSeries.ofGlobal
  let detuning ← rydberg.field "detuning" TimeSeries.ofGlobal
  let localDetuning ← rydberg.field "detuning" (optionalField "local" LocalSeries.ofRecord)
  return ⟨shots, sites, filling, amplitude, phase, detuning, localDetuning⟩

end TaskSpec

namespace Capabilities

def globalRecord (g : GlobalLimits Quantity) : Json :=
  .obj [("rabi_frequency_min", g.rabiMin.record), ("rabi_frequency_max", g.rabiMax.record),
    ("rabi_frequency_resolution", g.rabiResolution.record),
    ("rabi_frequency_slew_rate_max", g.rabiSlewMax.record),
    ("detuning_min", g.detuningMin.record), ("detuning_max", g.detuningMax.record),
    ("detuning_resolution", g.detuningResolution.record),
    ("detuning_slew_rate_max", g.detuningSlewMax.record),
    ("phase_min", g.phaseMin.record), ("phase_max", g.phaseMax.record),
    ("phase_resolution", g.phaseResolution.record),
    ("time_min", g.timeMin.record), ("time_max", g.timeMax.record),
    ("time_resolution", g.timeResolution.record), ("time_delta_min", g.timeDeltaMin.record)]

def localRecord (l : LocalLimits Quantity) : Json :=
  .obj [("detuning_min", l.detuningMin.record), ("detuning_max", l.detuningMax.record),
    ("detuning_slew_rate_max", l.detuningSlewMax.record),
    ("site_coefficient_min", l.coefficientMin.record),
    ("site_coefficient_max", l.coefficientMax.record),
    ("number_local_detuning_sites", .int l.detunedSitesMax),
    ("spacing_radial_min", l.spacingMin.record),
    ("time_resolution", l.timeResolution.record), ("time_delta_min", l.timeDeltaMin.record)]

/-- The record of capabilities; `globalKey` is the key of what drives all atoms. -/
def recordWith (globalKey : String) (c : Capabilities Quantity) : Json :=
  .obj [("version", .str c.version), ("capabilities", .obj [
    ("task", .obj [("number_shots_min", .int c.shotsMin), ("number_shots_max", .int c.shotsMax)]),
    ("lattice", .obj [("number_qubits_max", .int c.lattice.qubitsMax),
      ("area", .obj [("width", c.lattice.width.record), ("height", c.lattice.height.record)]),
      ("geometry", .obj [("spacing_radial_min", c.lattice.spacingRadialMin.record),
        ("spacing_vertical_min", c.lattice.spacingVerticalMin.record),
        ("position_resolution", c.lattice.positionResolution.record),
        ("number_sites_max", .int c.lattice.sitesMax)])]),
    ("rydberg", .obj [("c6_coefficient", c.c6.record), (globalKey, globalRecord c.global),
      ("local", localRecord c.local_)])])]

def record (c : Capabilities Quantity) : Json := recordWith "global" c

def globalOfRecord : Outcome (GlobalLimits Quantity) := do
  let read (key : String) : Outcome Quantity := j.field key asMeasured
  return {
    rabiMin := ← read "rabi_frequency_min"
    rabiMax := ← read "rabi_frequency_max"
    rabiResolution := ← read "rabi_frequency_resolution"
    rabiSlewMax := ← read "rabi_frequency_slew_rate_max"
    detuningMin := ← read "detuning_min"
    detuningMax := ← read "detuning_max"
    detuningResolution := ← read "detuning_resolution"
    detuningSlewMax := ← read "detuning_slew_rate_max"
    phaseMin := ← read "phase_min"
    phaseMax := ← read "phase_max"
    phaseResolution := ← read "phase_resolution"
    timeMin := ← read "time_min"
    timeMax := ← read "time_max"
    timeResolution := ← read "time_resolution"
    timeDeltaMin := ← read "time_delta_min" }

def localOfRecord : Outcome (LocalLimits Quantity) := do
  let read (key : String) : Outcome Quantity := j.field key asMeasured
  return {
    detuningMin := ← read "detuning_min"
    detuningMax := ← read "detuning_max"
    detuningSlewMax := ← read "detuning_slew_rate_max"
    coefficientMin := ← read "site_coefficient_min"
    coefficientMax := ← read "site_coefficient_max"
    detunedSitesMax := ← j.field "number_local_detuning_sites" asWhole
    spacingMin := ← read "spacing_radial_min"
    timeResolution := ← read "time_resolution"
    timeDeltaMin := ← read "time_delta_min" }

def latticeOfRecord : Outcome (LatticeLimits Quantity) := do
  let area ← j.field "area" .ok
  let geometry ← j.field "geometry" .ok
  return {
    qubitsMax := ← j.field "number_qubits_max" asWhole
    width := ← area.field "width" asMeasured
    height := ← area.field "height" asMeasured
    spacingRadialMin := ← geometry.field "spacing_radial_min" asMeasured
    spacingVerticalMin := ← geometry.field "spacing_vertical_min" asMeasured
    positionResolution := ← geometry.field "position_resolution" asMeasured
    sitesMax := ← geometry.field "number_sites_max" asWhole }

def ofRecord : Outcome (Capabilities Quantity) := do
  let version ← j.field "version" asText
  let device ← j.field "capabilities" .ok
  let task ← device.field "task" .ok
  let rydberg ← device.field "rydberg" .ok
  return {
    version := version
    shotsMin := ← task.field "number_shots_min" asWhole
    shotsMax := ← task.field "number_shots_max" asWhole
    lattice := ← device.field "lattice" latticeOfRecord
    c6 := ← rydberg.field "c6_coefficient" asMeasured
    global := ← rydberg.fieldOr "global" "global_" globalOfRecord
    local_ := ← rydberg.field "local" localOfRecord }

end Capabilities

namespace Decoder

def siteRecord (s : ClusterSite) : Json :=
  .obj [("cluster_index", .arr [.int s.cluster.1, .int s.cluster.2]),
    ("global_location_index", .int s.globalIndex), ("cluster_location_index", .int s.localIndex)]

def record (d : Decoder) : Json :=
  .obj [("mapping", .arr (d.mapping.map siteRecord)),
    ("locations_per_cluster", .int d.locationsPerCluster),
    ("number_of_cluster", .int d.clusterCount)]

def siteOfRecord : Outcome ClusterSite := do
  let cluster ← j.field "cluster_index" (asPair asWhole)
  let globalIndex ← j.field "global_location_index" asWhole
  return ⟨cluster, globalIndex, ← j.field "cluster_location_index" asWhole⟩

end Decoder

end AtomArray
