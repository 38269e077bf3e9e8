import AtomArray.Waveform.Basic
import AtomArray.Number.Bisect

/-!
The value of a waveform at a time, zero outside its duration. A sum and a recorded waveform are
evaluated by measuring: the time is read as a decimal and the value becomes a binary number.
-/

namespace AtomArray

open Arith

variable {N : Type} [Arith N]

/-- The sampling times from `clock` on, a step `dt` apart, up to `last`. -/
def gridTimes (dt last : N) : Nat → N → Outcome (List N)
  | 0, _ => .ok []
  | fuel + 1, clock => do
    if ← le clock last then
      return clock :: (← gridTimes dt last fuel (← Arith.add clock dt))
    else return []

/-- The value between the last sample before a time and the first one not before it. -/
def interpolate (i : Interpolation) (times values : List N) (t : N) : Outcome N := do
  let k ← bisectLeft times t
  match times[k]?, values[k]? with
  | some t₁, some v₁ =>
    if k = 0 then return v₁
    match times[k - 1]?, values[k - 1]? with
    | some t₀, some v₀ =>
      match i with
      | .constant => return v₀
      | .linear =>
        let slope ← div (← sub v₁ v₀) (← sub t₁ t₀)
        Arith.add (← mul slope (← sub t t₀)) v₀
    | _, _ => throw outOfRange
  | _, _ => return zero

/-- A polynomial with the given coefficients, from the constant term up. -/
def polyValue (env : Env N) (t : N) : N → N → List (Scalar N) → Outcome N
  | acc, _, [] => .ok acc
  | acc, power, c :: cs => do
    let acc ← Arith.add acc (← mul (← c.eval env) power)
    polyValue env t acc (← mul power t) cs

def measuredAt (f : N → Outcome N) (t : N) : Outcome N := do
  return measured (← f (decimal t))

def profileArguments (env : Env N) : List (Scalar N) → Outcome (List (String × N))
  | [] => .ok []
  | p :: ps => do
    let v := measured (← p.eval env)
    return p.names.map (·, v) ++ (← profileArguments env ps)

namespace Waveform

mutual

def eval (env : Env N) : Waveform N → N → Outcome N
  | linear start stop d, t => do
    let a ← start.eval env
    let b ← stop.eval env
    let d ← d.eval env
    if ← gt t d then return zero
    Arith.add (← mul (← div (← sub b a) d) t) a
  | constant value d, t => do
    let v ← value.eval env
    if ← gt t (← d.eval env) then return zero
    return v
  | poly coeffs d, t => do
    if ← gt t (← d.eval env) then return zero
    polyValue env t zero one coeffs
  | profile fn d params defaults, t => do
    let env := Env.extend (defaults.map fun (n, v) => (n, Param.number v)) env
    if ← gt t (← d.eval env) then return zero
    let args ← profileArguments env params
    return decimal (← fn.apply (measured t) args)
  | smooth radius kernel w, t => do
    let clock := measured t
    let r := measured (← radius.eval env)
    let d := measured (← w.length env)
    let first ← measuredAt (eval env w) zero
    let last ← measuredAt (eval env w) d
    smoothed kernel fun s => do
      let at_ ← Arith.add (← mul r s) clock
      if ← lt at_ (measured zero) then return first
      if ← lt d at_ then return last
      measuredAt (eval env w) at_
  | slice w i, t => do
    if ← gt t (← (slice w i).length env) then return zero
    let start ← Scalar.evalBound env i.start
    eval env w (← Arith.add t (start.getD zero))
  | append ws, t => evalPieces env ws zero t
  | neg w, t => do Arith.neg (← eval env w t)
  | scale s w, t => do
    let f ← s.eval env
    mul f (← eval env w t)
  | add a b, t => do
    let l ← measuredAt (eval env a) t
    Arith.add l (← measuredAt (eval env b) t)
  | record w _, t => measuredAt (eval env w) t
  | sample w i dt, t => do
    let d ← w.length env
    let dt ← dt.eval env
    let times ← gridTimes dt (← sub d dt) (stepBound d dt) foldedZero
    let times := times ++ [d]
    let values ← times.mapM (eval env w)
    interpolate i times values t
  | aligned .., _ => .error (.plain .notImplemented)

/-- The value of joined waveforms of which the first begins at `start`. -/
def evalPieces (env : Env N) : List (Waveform N) → N → N → Outcome N
  | [], _, _ => .ok zero
  | w :: ws, start, t => do
    let stop ← Arith.add start (← w.length env)
    if ← le t stop then eval env w (← sub t start)
    else evalPieces env ws stop t

end

/-- The value at a time given as a binary number. -/
def measure (env : Env N) (w : Waveform N) (t : N) : Outcome N := measuredAt (w.eval env) t

def samples (env : Env N) (w : Waveform N) (dt : Scalar N) : Outcome (List N × List N) := do
  let d ← w.length env
  let dt ← dt.eval env
  let times ← gridTimes dt (← sub d dt) (stepBound d dt) foldedZero
  let times := times ++ [d]
  return (times, ← times.mapM (w.eval env))

end Waveform

end AtomArray
