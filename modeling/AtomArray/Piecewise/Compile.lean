import AtomArray.Piecewise.Series
import AtomArray.Waveform.Eval

/-!
Waveforms as piecewise series.

A builder collects the breakpoints of a waveform (`Series`). Basic waveforms extend what has been
collected, combinations act on all of it, and cuts and joins collect their parts afresh. A builder
that stops with a fault keeps what it had collected.
-/

namespace AtomArray

variable {N : Type} [Arith N]

/-- An action of the builder. -/
abbrev Collect (N α : Type) := EStateM Fault (Series N) α

/-- A fault or value inside the builder. -/
def Collect.lift {α : Type} : Outcome α → Collect N α
  | .ok a => pure a
  | .error f => throw f

def Collect.fresh (c : Collect N Unit) : Outcome (Series N) :=
  match c.run {} with
  | .ok _ s => .ok s
  | .error f _ => .error f

def cutBounds (env : Env N) (whole : N) (i : Interval N) : Outcome (N × N) := do
  let start := (← Scalar.evalBound env i.start).getD Arith.zero
  let stop := (← Scalar.evalBound env i.stop).getD whole
  if ← Arith.lt start Arith.zero then throw (.cutStartNegative (Arith.text start))
  if ← Arith.lt whole stop then throw (.cutStopBeyond (Arith.text stop) (Arith.text whole))
  if ← Arith.lt stop start then throw (.cutReversed (Arith.text stop) (Arith.text start))
  return (start, stop)

/-- The values of a polynomial at both ends, if it is a line. -/
def lineEnds (env : Env N) (kind : SeriesKind) (coeffs : List (Scalar N)) (duration : N) :
    Outcome (N × N) :=
  match coeffs with
  | [] => .ok (Arith.zero, Arith.zero)
  | [c] => do
    let v ← c.eval env
    return (v, v)
  | [c, slope] => do
    let v ← c.eval env
    return (v, ← Arith.add v (← Arith.mul (← slope.eval env) duration))
  | cs => .error (.polynomialOrder kind (cs.length - 1))

/-- A series of its own from what is collected. -/
def ofCollected (c : Collect N Unit) : Outcome (Series N) := do
  let s ← c.fresh
  Series.stored s.times s.values

/-- What a kind of series does in its own way. -/
structure SeriesRules (N : Type) where
  kind : SeriesKind
  /-- How samples that make such a series are interpolated. -/
  interpolation : Interpolation
  /-- Adds a piece between two values over a duration; the fault is that of a slope. -/
  extend : Option Fault → N → N → N → Collect N Unit
  slice : Series N → N → N → Outcome (Series N)
  join : Series N → Series N → Outcome (Series N)
  sample : List N → List N → Collect N Unit

namespace SeriesRules

open Collect

variable (k : SeriesRules N) (env : Env N)

mutual

def collect : Waveform N → Collect N Unit
  | .linear a b d => do
    let d ← lift (d.eval env)
    let a ← lift (a.eval env)
    let b ← lift (b.eval env)
    k.extend (some .slopedLinear) a b d
  | .constant v d => do
    let d ← lift (d.eval env)
    let v ← lift (v.eval env)
    k.extend none v v d
  | .poly cs d => do
    let d ← lift (d.eval env)
    let (a, b) ← lift (lineEnds env k.kind cs d)
    k.extend (if 1 < cs.length then some .slopedPolynomial else none) a b d
  | .neg w => do
    collect w
    let s ← get
    set { s with values := ← lift (s.values.mapM Arith.neg) }
  | .scale f w => do
    collect w
    let f ← lift (f.eval env)
    let s ← get
    set { s with values := ← lift (s.values.mapM (Arith.mul f)) }
  | .slice w i => do
    let (start, stop) ← lift (do cutBounds env (← w.length env) i)
    set (← lift (do k.slice (← ofCollected (collect w)) start stop))
  | .append [] => throw outOfRange
  | .append (w :: ws) => do set (← lift (do joinAll (← ofCollected (collect w)) ws))
  | .sample w i dt => do
    if i ≠ k.interpolation then throw (.sampleInterpolation k.kind i.name)
    let (times, values) ← lift (w.samples env dt)
    k.sample times values
  | .record w _ => collect w
  | .profile .. | .smooth .. | .add .. | .aligned .. => throw (.plain .notImplemented)

/-- Joins a series with those of further waveforms; one without duration is passed over. -/
def joinAll (p : Series N) : List (Waveform N) → Outcome (Series N)
  | [] => .ok p
  | w :: ws => do
    let q ← ofCollected (collect w)
    if Arith.isDecimal 0 (← lastItem? q.times) then joinAll p ws
    else joinAll (← k.join p q) ws

end

def ofWaveform (w : Waveform N) : Outcome (Series N) := ofCollected (k.collect env w)

end SeriesRules

namespace PiecewiseLinear

def checkContinuity (a b : N) : Outcome Unit := do
  if !Arith.same a b then
    throw (.jump (Arith.text (← Arith.abs (← Arith.sub a b))))

def extend (start stop duration : N) : Collect N Unit := do
  let s ← get
  match s.times.getLast? with
  | none => set (⟨[Arith.zero, duration], [start, stop]⟩ : Series N)
  | some t => do
    let before ← Collect.lift (lastItem? s.values)
    Collect.lift (checkContinuity before start)
    let t ← Collect.lift (Arith.add duration t)
    set (⟨s.times ++ [t], s.values ++ [stop]⟩ : Series N)

def join (p q : PiecewiseLinear N) : Outcome (PiecewiseLinear N) := do
  checkContinuity (← lastItem? p.values) (← firstItem? q.values)
  p.append q

def rules : SeriesRules N :=
  ⟨.linear, .linear, fun _ => extend, slice, join, fun times values => set (Series.mk times values)⟩

def ofWaveform (env : Env N) (w : Waveform N) : Outcome (PiecewiseLinear N) :=
  rules.ofWaveform env w

end PiecewiseLinear

namespace PiecewiseConstant

def extend (sloped : Option Fault) (start stop duration : N) : Collect N Unit := do
  if let some fault := sloped then
    if !Arith.same start stop then throw fault
  let s ← get
  match s.times.getLast? with
  | none => set (⟨[Arith.zero, duration], [start, start]⟩ : Series N)
  | some t => do
    let t ← Collect.lift (Arith.add duration t)
    set { s with times := s.times ++ [t] }
    if s.values.isEmpty then throw outOfRange
    set (⟨s.times ++ [t], s.values.dropLast ++ [start, start]⟩ : Series N)

def sample (times values : List N) : Collect N Unit := do
  modify fun s => { s with times := times }
  let values ← Collect.lift (repeatLast values)
  modify fun s => { s with values := values }

def rules : SeriesRules N := ⟨.constant, .constant, extend, slice, append, sample⟩

def ofWaveform (env : Env N) (w : Waveform N) : Outcome (PiecewiseConstant N) :=
  rules.ofWaveform env w

end PiecewiseConstant

end AtomArray
