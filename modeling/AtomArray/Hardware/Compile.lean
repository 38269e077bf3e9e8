import AtomArray.Circuit
import AtomArray.Hardware.Program
import AtomArray.Hardware.Tiling

/-!
Compiling circuits for a device.

Only the Rydberg transition is driven, all atoms alike; the detuning may have one further drive with
a coefficient for every site. A `HardwareDraft` is what has been found out about a program so far;
the pieces of a joined sequence are compiled one after the other on one draft of their own.
-/

namespace AtomArray

open PiecewiseLinear Arith

variable {N : Type} [Arith N]

structure HardwareDraft (N : Type) where
  decoder : Option Decoder := none
  sites : List (N × N) := []
  filling : List Bool := []
  /-- How many sites the register has, once it is known. -/
  siteCount : Option Nat := none
  detuning : Option (PiecewiseLinear N) := none
  amplitude : Option (PiecewiseLinear N) := none
  phase : Option (PiecewiseConstant N) := none
  coefficients : Option (List (Param N)) := none
  localDetuning : Option (PiecewiseLinear N) := none

variable (env : Env N)

namespace HardwareDraft

variable (d : HardwareDraft N)

/-- The number of sites; it is unknown as long as no register was compiled. -/
def knownSites : Outcome Nat :=
  match d.siteCount with
  | some n => .ok n
  | none => .error .part

/-! ### Registers -/

def addRegister (d : HardwareDraft N) (r : Register N) : Outcome (HardwareDraft N) := do
  let sites ← r.sites
  let points ← sites.mapM fun s => do return (← s.x.eval env, ← s.y.eval env)
  return { d with
    sites := points
    filling := sites.map (·.filled)
    siteCount := some sites.length }

/-- The sites of a tiling; the copies are laid out over the area of the device. -/
def addTiling (limits : Option (Capabilities N)) (d : HardwareDraft N)
    (t : Tiling N) : Outcome (HardwareDraft N) := do
  match limits with
  | none => throw .tilingNeedsCapabilities
  | some c =>
    let decoder ← t.layOut env c
    return { d with decoder := some decoder, siteCount := some t.locations.length }

/-! ### Coefficients -/

/-- The coefficients of all sites of the device, given those of the register. -/
def spread (d : HardwareDraft N) (cs : List (Param N)) : Outcome (HardwareDraft N) := do
  match d.decoder with
  | none => return { d with coefficients := some cs }
  | some decoder =>
    let spread ← decoder.mapping.mapM fun s => item? cs s.localIndex
    return { d with coefficients := some spread }

/-- The scale of a location that is not mentioned. -/
def unscaled : Scalar N := .const (.finite false 0 (-1))

def vectorItems : Param N → Outcome (List (Param N))
  | .list xs => .ok xs
  | .array xs => .ok xs
  | .text s => .ok (s.toList.map fun c => .text (String.singleton c))
  | .record ms => .ok (ms.map fun m => .text m.1)
  | _ => .error .type

def addModulation (d : HardwareDraft N) : Modulation N → Outcome (HardwareDraft N)
  | .uniform => do
    let n ← d.knownSites
    d.spread (List.replicate n (.number (ofDecimal (.finite false 10 (-1)))))
  | .scaled scales => do
    let n ← d.knownSites
    match scales.find? fun s => decide ((n : Int) ≤ s.1) with
    | some s => throw (.locationBeyondRegister s.1)
    | none =>
      let cs ← (List.range n).mapM fun (i : Nat) =>
        (((scales.lookup (i : Int)).getD unscaled).eval env).map Param.number
      d.spread cs
  | .vector name => do
    match env.lookup name with
    | none => throw (.plain .missingKey)
    | some p =>
      let cs ← vectorItems p
      let n ← d.knownSites
      if cs.length ≠ n then throw (.coefficientCount name n)
      d.spread cs
  | .boundVector name values => do
    let n ← d.knownSites
    if values.length ≠ n then throw (.coefficientCount (name.getD "None") n)
    d.spread (values.map Param.number)

/-! ### Fields -/

variable (duration : N)

def zeroLinear : PiecewiseLinear N :=
  ⟨[zero, duration], [zero, zero]⟩

def zeroConstant : PiecewiseConstant N :=
  ⟨[zero, duration], [zero, zero]⟩

/-- The waveform of a field that drives all atoms alike and has no other drive. -/
def soleUniform? (f : Field N) : Option (Waveform N) :=
  match f.drives with
  | [(.uniform, w)] => some w
  | _ => none

/-- The detuning: one drive of all atoms, one drive by coefficients, or both. -/
def addDetuning (d : HardwareDraft N) (f : Field N) : Outcome (HardwareDraft N) := do
  match f.drives with
  | [(.uniform, w)] => return { d with detuning := some (← ofWaveform env w) }
  | [(m, w)] =>
    let own ← ofWaveform env w
    let stop ← lastItem? own.times
    addModulation env { d with localDetuning := some own, detuning := some (zeroLinear stop) } m
  | [(.uniform, w), (m, v)] =>
    let all ← ofWaveform env w
    let own ← ofWaveform env v
    addModulation env { d with detuning := some all, localDetuning := some own } m
  | [(m, v), (.uniform, w)] =>
    let own ← ofWaveform env v
    let all ← ofWaveform env w
    addModulation env { d with detuning := some all, localDetuning := some own } m
  | _ => throw .manyLocalDetunings

def addAmplitude (d : HardwareDraft N) (f : Field N) : Outcome (HardwareDraft N) := do
  match soleUniform? f with
  | some w => return { d with amplitude := some (← ofWaveform env w) }
  | none => throw .localAmplitude

def addPhase (d : HardwareDraft N) (f : Field N) : Outcome (HardwareDraft N) := do
  match soleUniform? f with
  | some w => return { d with phase := some (← PiecewiseConstant.ofWaveform env w) }
  | none => throw .localPhase

def addField (d : HardwareDraft N) : FieldName × Field N → Outcome (HardwareDraft N)
  | (.detuning, f) => addDetuning env d f
  | (.amplitude, f) => addAmplitude env d f
  | (.phase, f) => addPhase env d f

/-! ### Completing a draft -/

def laterEnd (t : N) : Option (List N) → Outcome N
  | none => .ok t
  | some times => do
    let stop ← lastItem? times
    return if ← lt t stop then stop else t

/-- The draft with the drives that are missing set to zero for the longest duration; a program
without duration is left as it is. -/
def completed : Outcome (HardwareDraft N) := do
  let t ← laterEnd zero (d.amplitude.map (·.times))
  let t ← laterEnd t (d.phase.map (·.times))
  let t ← laterEnd t (d.detuning.map (·.times))
  let t ← laterEnd t (d.localDetuning.map (·.times))
  if ← lt zero t then
    return { d with
      amplitude := some (d.amplitude.getD (zeroLinear t))
      phase := some (d.phase.getD (zeroConstant t))
      detuning := some (d.detuning.getD (zeroLinear t)) }
  else return d

/-- Is nothing driven at all? -/
def isIdle : Bool :=
  d.detuning.isNone && d.amplitude.isNone && d.phase.isNone && d.localDetuning.isNone

variable (shots : Int)

/-- The program of a completed draft; a drive that is still missing is refused. -/
def toProgram (d : HardwareDraft N) : Outcome (HardwareProgram N) := do
  if d.isIdle then throw .nothingDriven
  match d.detuning, d.amplitude, d.phase with
  | some detuning, some amplitude, some phase =>
    let sites ← d.sites.mapM fun (x, y) => do return (← Arith.stored x, ← Arith.stored y)
    let coefficients ← match d.coefficients with
      | none => pure none
      | some cs => (cs.mapM Param.stored?).map some
    return ⟨shots, d.decoder, sites, d.filling, detuning, amplitude, phase, coefficients,
      d.localDetuning⟩
  | _, _, _ => throw .refused

/-- Completes a draft: the draft as it is afterwards, and its program. -/
def emit (d : HardwareDraft N) : Outcome (HardwareDraft N × HardwareProgram N) := do
  let d ← d.completed
  return (d, ← d.toProgram shots)

/-- Takes over what a program says; the decoder and the number of sites stay. -/
def adopt (p : HardwareProgram N) : HardwareDraft N :=
  { d with
    sites := p.sites
    filling := p.filling
    detuning := some p.detuning
    amplitude := some p.amplitude
    phase := some p.phase
    coefficients := p.coefficients.map (·.map Param.number)
    localDetuning := p.localDetuning }

/-- The value of a bound, which a cut of a program must have. -/
def boundTime : Option (Scalar N) → Outcome N
  | some e => e.eval env
  | none => .error .type

/-! ### Pulses and sequences -/

/-- Adds a pulse. Joined pulses are not compiled. -/
def addPulse (env : Env N) (shots : Int) (d : HardwareDraft N) : Pulse N → Outcome (HardwareDraft N)
  | .fields fs => fs.foldlM (addField env) d
  | .named _ p => addPulse env shots d p
  | .append _ => .error (.plain .notImplemented)
  | .slice p i => do
    let start ← boundTime env i.start
    let stop ← boundTime env i.stop
    let (_, program) ← (← addPulse env shots {} p).emit shots
    return d.adopt (← program.slice start stop)

/-- Adds the pulses of a plain sequence, of which only that of the Rydberg transition can be
driven. -/
def addPulses (shots : Int) (d : HardwareDraft N) (ps : List (Coupling × Pulse N)) :
    Outcome (HardwareDraft N) := do
  if ps.any fun p => p.1 = .hyperfine then throw .hyperfineUnsupported
  match ps.find? fun p => p.1 = .rydberg with
  | some (_, p) => addPulse env shots d p
  | none => return d

mutual

def addSequence (env : Env N) (shots : Int) (d : HardwareDraft N) :
    Sequence N → Outcome (HardwareDraft N)
  | .pulses ps => addPulses env shots d ps
  | .named s _ => addSequence env shots d s
  | .append [] => .error outOfRange
  | .append (s :: ss) => do
    let (own, program) ← (← addSequence env shots {} s).emit shots
    return d.adopt (← appendAll env shots own program ss)
  | .slice s i => do
    let start ← boundTime env i.start
    let stop ← boundTime env i.stop
    let (_, program) ← (← addSequence env shots {} s).emit shots
    return d.adopt (← program.slice start stop)

/-- A program followed by those of further sequences, which are compiled on one draft. -/
def appendAll (env : Env N) (shots : Int) (own : HardwareDraft N) (program : HardwareProgram N) :
    List (Sequence N) → Outcome (HardwareProgram N)
  | [] => .ok program
  | s :: ss => do
    let (own, next) ← (← addSequence env shots own s).emit shots
    appendAll env shots own (← program.append next) ss

end

end HardwareDraft

namespace HardwareProgram

/-- The program of a circuit with all parameters supplied; a tiling needs the limits of the device
that it is laid out on. -/
def ofCircuit (limits : Option (Capabilities N)) (shots : Int) (c : Circuit N) :
    Outcome (HardwareProgram N) := do
  let d ← match c.register with
    | .plain r => HardwareDraft.addRegister env {} r
    | .tiled t => HardwareDraft.addTiling env limits {} t
  return (← (← d.addSequence env shots c.sequence).emit shots).2

end HardwareProgram

end AtomArray
