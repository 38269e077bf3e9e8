import AtomArray.Piecewise.Compile
import AtomArray.Hardware.Spec

/-!
Compiled programs for a device: a piecewise series for every drive of the whole register, and
optionally one for single sites. Programs over the same sites are cut and joined in time.
-/

namespace AtomArray

open Arith

structure HardwareProgram (N : Type) where
  shots : Int
  decoder : Option Decoder
  sites : List (N × N)
  filling : List Bool
  detuning : PiecewiseLinear N
  amplitude : PiecewiseLinear N
  phase : PiecewiseConstant N
  coefficients : Option (List N)
  localDetuning : Option (PiecewiseLinear N)

variable {N : Type} [Arith N]

/-- The series that a program has, or the fault of using a missing one. -/
def presentSeries : Option (PiecewiseLinear N) → Outcome (PiecewiseLinear N)
  | some p => .ok p
  | none => .error .part

def unequalPrograms : Fault := .plain .brokenPromise

namespace HardwareProgram

def slice (p : HardwareProgram N) (start stop : N) : Outcome (HardwareProgram N) := do
  let detuning ← p.detuning.slice start stop
  let amplitude ← p.amplitude.slice start stop
  let phase ← p.phase.slice start stop
  let localDetuning ← (← presentSeries p.localDetuning).slice start stop
  return { p with
    detuning := detuning
    amplitude := amplitude
    phase := phase
    localDetuning := some localDetuning }

def sameCoefficients : Option (List N) → Option (List N) → Bool
  | none, none => true
  | some xs, some ys => sameList same xs ys
  | _, _ => false

def sameSites (p q : HardwareProgram N) : Bool :=
  p.shots == q.shots && p.decoder == q.decoder &&
    sameList (fun a b => same a.1 b.1 && same a.2 b.2) p.sites q.sites &&
    p.filling == q.filling && sameCoefficients p.coefficients q.coefficients

def append (p q : HardwareProgram N) : Outcome (HardwareProgram N) := do
  if !p.sameSites q then throw unequalPrograms
  let detuning ← p.detuning.append q.detuning
  let amplitude ← p.amplitude.append q.amplitude
  let phase ← p.phase.append q.phase
  let own ← presentSeries p.localDetuning
  let localDetuning ← own.append (← presentSeries q.localDetuning)
  return { p with
    detuning := detuning
    amplitude := amplitude
    phase := phase
    localDetuning := some localDetuning }

/-! ### Units -/

/-- Micrometres in metres, and microseconds in seconds. -/
def fromMicro (x : N) : Outcome N := mul (ofDecimal (.finite false 1 (-6))) x

/-- Radians per microsecond in radians per second. -/
def toMega (x : N) : Outcome N := mul (ofDecimal (.finite false 1 6)) x

def positionUnits (p : N × N) : Outcome (N × N) := do
  let micro : N := ofDecimal (.finite false 1 (-6))
  return (← mul p.1 micro, ← mul p.2 micro)

def energySeries (times values : List N) : Outcome (TimeSeries N) := do
  let ts ← times.mapM fromMicro
  return ⟨ts, ← values.mapM toMega⟩

def spec (p : HardwareProgram N) : Outcome (TaskSpec N) := do
  let sites ← p.sites.mapM positionUnits
  let amplitude ← energySeries p.amplitude.times p.amplitude.values
  let phase : TimeSeries N := ⟨← p.phase.times.mapM fromMicro, p.phase.values⟩
  let detuning ← energySeries p.detuning.times p.detuning.values
  let localDetuning ← match p.coefficients with
    | none => pure none
    | some cs => do
      let l ← presentSeries p.localDetuning
      let s ← energySeries l.times l.values
      pure (some ⟨s.times, s.values, cs⟩)
  return ⟨p.shots, sites, p.filling.map fun b => if b then 1 else 0, amplitude, phase, detuning,
    localDetuning⟩

end HardwareProgram

end AtomArray
