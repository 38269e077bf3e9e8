import AtomArray.Fault

/-!
Numerical solution of `y' = f t y` for complex vectors, by the embedded pair of orders five and four
with an adapted step.
-/

namespace AtomArray

structure Complex where
  re : Float
  im : Float

namespace Complex

def ofReal (x : Float) : Complex := ⟨x, 0.0⟩

instance : Zero Complex := ⟨⟨0.0, 0.0⟩⟩
instance : Add Complex := ⟨fun a b => ⟨a.re + b.re, a.im + b.im⟩⟩
instance : Mul Complex :=
  ⟨fun a b => ⟨a.re * b.re - a.im * b.im, a.re * b.im + a.im * b.re⟩⟩

def conj (a : Complex) : Complex := ⟨a.re, -a.im⟩

def scale (x : Float) (a : Complex) : Complex := ⟨x * a.re, x * a.im⟩

def normSq (a : Complex) : Float := a.re * a.re + a.im * a.im

/-- The number of absolute value one with a given angle. -/
def cis (angle : Float) : Complex := ⟨angle.cos, angle.sin⟩

end Complex

def solverNames : List String := ["lsoda", "dop853", "dopri5"]

def dopStatus (code : Int) : Outcome Unit :=
  let failed (text : String) : Outcome Unit := .error (.solverFailed ("DOP853/DOPRI5: " ++ text))
  if code = 1 ∨ code = 2 then .ok ()
  else if code = -1 then failed "Input is not consistent."
  else if code = -2 then failed "Larger nsteps is needed."
  else if code = -3 then failed "Step size becomes too small."
  else if code = -4 then failed "Problem is probably stiff (interrupted)."
  else failed s!"unhandled status code {code}"

def lsodaStatus (code : Int) : Outcome Unit :=
  let failed (text : String) : Outcome Unit := .error (.solverFailed ("LSODA: " ++ text))
  if code = 2 then .ok ()
  else if code = -1 then failed "Excess work done on this call (perhaps wrong Dfun type)."
  else if code = -2 then failed "Excess accuracy requested (tolerances too small)."
  else if code = -3 then failed "Illegal input detected (internal error)."
  else if code = -4 then failed "Repeated error test failures (internal error)."
  else if code = -5 then
    failed "Repeated convergence failures (perhaps bad Jacobian or tolerances)."
  else if code = -6 then failed "Error weight became zero during problem."
  else if code = -7 then
    failed "Internal workspace insufficient to finish (internal error)."
  else failed s!"unhandled status code {code}"

/-- What a status code of a method means: success, or why it failed. -/
def solverStatus (solver : String) (code : Int) : Outcome Unit :=
  if solver = "lsoda" then lsodaStatus code
  else if solver = "dop853" ∨ solver = "dopri5" then dopStatus code
  else .ok ()

namespace Ode

abbrev Vector := Array Complex

/-- `y` plus a combination of slopes. -/
def combine (y : Vector) (terms : List (Float × Vector)) : Vector :=
  terms.foldl (fun acc (c, k) => Array.zipWith (fun a b => a + Complex.scale c b) acc k) y

/-- The largest absolute value of a combination of slopes. -/
def largest (terms : List (Float × Vector)) (n : Nat) : Float :=
  (combine (Array.replicate n 0) terms).foldl (fun m a => max m a.normSq.sqrt) 0.0

/-- A trial step: the end value, the slope there and the estimated error. -/
structure Trial where
  value : Vector
  slope : Vector
  error : Float

variable (f : Float → Vector → Outcome Vector)

/-- One step of the pair, from the slope `k₁` at the start. -/
def trial (t h : Float) (y k₁ : Vector) : Outcome Trial := do
  let k₂ ← f (t + h / 5.0) (combine y [(h / 5.0, k₁)])
  let k₃ ← f (t + h * 3.0 / 10.0) (combine y [(h * 3.0 / 40.0, k₁), (h * 9.0 / 40.0, k₂)])
  let k₄ ← f (t + h * 4.0 / 5.0) (combine y
    [(h * 44.0 / 45.0, k₁), (-h * 56.0 / 15.0, k₂), (h * 32.0 / 9.0, k₃)])
  let k₅ ← f (t + h * 8.0 / 9.0) (combine y
    [(h * 19372.0 / 6561.0, k₁), (-h * 25360.0 / 2187.0, k₂), (h * 64448.0 / 6561.0, k₃),
      (-h * 212.0 / 729.0, k₄)])
  let k₆ ← f (t + h) (combine y
    [(h * 9017.0 / 3168.0, k₁), (-h * 355.0 / 33.0, k₂), (h * 46732.0 / 5247.0, k₃),
      (h * 49.0 / 176.0, k₄), (-h * 5103.0 / 18656.0, k₅)])
  let value := combine y
    [(h * 35.0 / 384.0, k₁), (h * 500.0 / 1113.0, k₃), (h * 125.0 / 192.0, k₄),
      (-h * 2187.0 / 6784.0, k₅), (h * 11.0 / 84.0, k₆)]
  let k₇ ← f (t + h) value
  let error := largest
    [(h * 71.0 / 57600.0, k₁), (-h * 71.0 / 16695.0, k₃), (h * 71.0 / 1920.0, k₄),
      (-h * 17253.0 / 339200.0, k₅), (h * 22.0 / 525.0, k₆), (-h / 40.0, k₇)] y.size
  return ⟨value, k₇, error⟩

def tolerance : Float := 1e-10

/-- The factor by which the step changes after an error. -/
def stepFactor (error : Float) : Float :=
  if error == 0.0 then 5.0
  else max 0.2 (min 5.0 (0.9 * (tolerance / error).pow 0.2))

/-- Steps from `t` to `stop`, at most `steps` of them. The answer is none if they do not
suffice. -/
def run (stop least : Float) : Nat → Float → Float → Vector → Vector → Outcome (Option Vector)
  | 0, _, _, _, _ => .ok none
  | steps + 1, t, h, y, slope => do
    let last := (stop - t).abs ≤ h.abs * 1.0000001
    let h := if last then stop - t else h
    let s ← trial f t h y slope
    let next := h * stepFactor s.error
    if s.error ≤ tolerance || h.abs ≤ least || s.error.isNaN then
      if last then return some s.value
      else run stop least steps (t + h) next s.value s.slope
    else run stop least steps t next y slope

def integrate (steps : Nat) (start stop : Float) (y : Vector) : Outcome (Option Vector) := do
  let width := stop - start
  let slope ← f start y
  run f stop (width.abs * 1e-12) steps start (width * 1e-3) y slope

end Ode

end AtomArray
