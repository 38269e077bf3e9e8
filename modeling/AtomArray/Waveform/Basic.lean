import AtomArray.Scalar.Eval

/-!
Waveforms: functions of time with a duration. Lines, constants, polynomials and profiles are cut,
joined, negated, scaled, added, sampled, smoothed and aligned; recording gives a name to the final
value.

A parameter of a profile may have a default, which only counts if it is passed by name; a profile
that takes any number of parameters cannot define a waveform.
-/

namespace AtomArray

open Arith

inductive Profile where
  /-- The square of the time. -/
  | square
  /-- `a * t + b`. -/
  | affine
  /-- `c * t - d` with named parameters. -/
  | named
  /-- `x + y * t + z` with defaults for two of the parameters. -/
  | defaulted
  /-- A named parameter whose default is no number. -/
  | textDefault
  /-- Any number of parameters. -/
  | anyArguments
  /-- Any named parameters. -/
  | anyKeywords
  /-- A constant whole number. -/
  | three
  /-- One before the time 0.5, and minus one from there on. -/
  | step
  /-- `a * t`, where the default of `a` does not count. -/
  | positional
  /-- A function without arguments. -/
  | noArgument
  /-- A function whose value is no number. -/
  | textValue
  deriving DecidableEq

/-- The default of a named parameter. -/
inductive Default where
  | number (d : Decimal)
  | unsuitable

structure Signature where
  /-- Arguments after the first. -/
  positional : List String := []
  /-- Parameters passed by name, in order. -/
  keywords : List String := []
  /-- Defaults of parameters passed by name. -/
  defaults : List (String × Default) := []
  openArguments : Bool := false
  openKeywords : Bool := false

namespace Profile

def all : List Profile :=
  [square, affine, named, defaulted, textDefault, anyArguments, anyKeywords, three, step,
   positional, noArgument, textValue]

def name : Profile → String
  | square => "sq"
  | affine => "lin"
  | named => "kw"
  | defaulted => "kwdef"
  | textDefault => "badkw"
  | anyArguments => "varargs"
  | anyKeywords => "varkw"
  | three => "three"
  | step => "step"
  | positional => "posdef"
  | noArgument => "noarg"
  | textValue => "retstr"

def shownName (p : Profile) : String := "_" ++ p.name

def ofName? (s : String) : Option Profile := all.find? fun p => p.name == s

def signature : Profile → Signature
  | square | three | step | noArgument | textValue => {}
  | affine => { positional := ["a", "b"] }
  | named => { keywords := ["c", "d"], defaults := [("c", .number (.finite false 15 (-1)))] }
  | defaulted =>
    { positional := ["x"], keywords := ["y", "z"],
      defaults := [("y", .number 2), ("z", .number (.finite false 25 (-2)))] }
  | textDefault => { keywords := ["s"], defaults := [("s", .unsuitable)] }
  | anyArguments => { openArguments := true }
  | anyKeywords => { openKeywords := true }
  | positional => { positional := ["a"] }

variable {N : Type} [Arith N]

def argument (args : List (String × N)) (name : String) : Outcome N :=
  match args.lookup name with
  | some v => .ok v
  | none => .error .type

def apply (p : Profile) (t : N) (args : List (String × N)) : Outcome N :=
  match p with
  | square => mul t t
  | affine => do add (← mul (← argument args "a") t) (← argument args "b")
  | named => do sub (← mul (← argument args "c") t) (← argument args "d")
  | defaulted => do
    let y ← argument args "y"
    add (← add (← argument args "x") (← mul y t)) (← argument args "z")
  | three => .ok (ofDecimal 3)
  | step => do
    let half := measured (ofDecimal (.finite false 5 (-1)))
    if ← lt t half then return ofDecimal 1 else return ofDecimal (.ofInt (-1))
  | positional => do mul (← argument args "a") t
  | textValue => .error (.plain .undefinedOperation)
  | textDefault | anyArguments | anyKeywords | noArgument => .error .type

end Profile

/-- How sampled values are joined. -/
inductive Interpolation where
  | linear
  | constant
  deriving DecidableEq

def Interpolation.name : Interpolation → String
  | linear => "linear"
  | constant => "constant"

def Interpolation.ofName? : String → Option Interpolation
  | "linear" => some linear
  | "constant" => some constant
  | _ => none

/-- The end that a waveform is aligned to. -/
inductive Alignment where
  | left
  | right
  deriving DecidableEq

def Alignment.name : Alignment → String
  | left => "left_aligned"
  | right => "right_aligned"

def Alignment.ofName? : String → Option Alignment
  | "left_aligned" => some left
  | "right_aligned" => some right
  | _ => none

/-- The value that an aligned waveform is extended with. -/
inductive AlignedValue (N : Type) where
  | scalar (e : Scalar N)
  | left
  | right

inductive Waveform (N : Type) where
  | linear (start stop duration : Scalar N)
  | constant (value duration : Scalar N)
  | poly (coeffs : List (Scalar N)) (duration : Scalar N)
  | profile (fn : Profile) (duration : Scalar N) (params : List (Scalar N))
      (defaults : List (String × N))
  | smooth (radius : Scalar N) (kernel : Kernel) (body : Waveform N)
  | slice (body : Waveform N) (interval : Interval N)
  | append (pieces : List (Waveform N))
  | neg (body : Waveform N)
  | scale (factor : Scalar N) (body : Waveform N)
  | add (left right : Waveform N)
  | record (body : Waveform N) (name : String)
  | sample (body : Waveform N) (interpolation : Interpolation) (dt : Scalar N)
  | aligned (body : Waveform N) (alignment : Alignment) (value : AlignedValue N)

variable {N : Type} [Arith N]

def sameList {α : Type} (f : α → α → Bool) : List α → List α → Bool
  | [], [] => true
  | x :: xs, y :: ys => f x y && sameList f xs ys
  | _, _ => false

def AlignedValue.same : AlignedValue N → AlignedValue N → Bool
  | scalar a, scalar b => a.same b
  | left, left => true
  | right, right => true
  | _, _ => false

namespace Waveform

mutual

def same : Waveform N → Waveform N → Bool
  | linear a b c, linear d e f => a.same d && b.same e && c.same f
  | constant a b, constant c d => a.same c && b.same d
  | poly cs d, poly cs' d' => sameList Scalar.same cs cs' && d.same d'
  | profile f d ps ds, profile f' d' ps' ds' =>
    f == f' && d.same d' && sameList Scalar.same ps ps' &&
      sameList (fun a b => a.1 == b.1 && Arith.same a.2 b.2) ds ds'
  | smooth r k w, smooth r' k' w' => r.same r' && k == k' && same w w'
  | slice w i, slice w' i' => same w w' && i.same i'
  | append ws, append ws' => sameAll ws ws'
  | neg w, neg w' => same w w'
  | scale s w, scale s' w' => s.same s' && same w w'
  | add a b, add c d => same a c && same b d
  | record w n, record w' n' => same w w' && n == n'
  | sample w i dt, sample w' i' dt' => same w w' && i == i' && dt.same dt'
  | aligned w a v, aligned w' a' v' => same w w' && a == a' && v.same v'
  | _, _ => false

def sameAll : List (Waveform N) → List (Waveform N) → Bool
  | [], [] => true
  | w :: ws, w' :: ws' => same w w' && sameAll ws ws'
  | _, _ => false

end

mutual

/-- The duration of a waveform. A cut without bounds has none. -/
def duration : Waveform N → Outcome (Scalar N)
  | linear _ _ d => .ok d
  | constant _ d => .ok d
  | poly _ d => .ok d
  | profile _ d _ _ => .ok d
  | smooth _ _ w => duration w
  | slice w i => do
    if i.start.isNone && i.stop.isNone then throw .waveformSliceWithoutBounds
    return .slice (← duration w) i.start i.stop
  | append ws => durationAfter Scalar.zeroLit ws
  | neg w => duration w
  | scale _ w => duration w
  | add a b => do (← duration a).greater (← duration b)
  | record w _ => duration w
  | sample w _ _ => duration w
  | aligned w _ _ => duration w

def durationAfter (d : Scalar N) : List (Waveform N) → Outcome (Scalar N)
  | [] => .ok d
  | w :: ws => do durationAfter (← d.plus (← duration w)) ws

end

def length (env : Env N) (w : Waveform N) : Outcome N := do (← w.duration).eval env

/-! ### Construction -/

mutual

/-- The canonical form. Joined waveforms that are joins themselves are taken apart. The sum of a
waveform with itself is its double, and a summand without duration is dropped. -/
def canon : Waveform N → Outcome (Waveform N)
  | append ws => do return append (← canonPieces ws)
  | add a b => do
    let l ← canon a
    let r ← canon b
    if l.same r then return scale (.const 2) l
    if (← l.duration).same (.const 0) then return r
    if (← r.duration).same (.const 0) then return l
    return add a b
  | w => .ok w

/-- The canonical pieces of a join; a piece that is a join itself is replaced by its pieces. -/
def canonPieces : List (Waveform N) → Outcome (List (Waveform N))
  | [] => .ok []
  | append vs :: ws => do return (← canonAll vs) ++ (← canonPieces ws)
  | w :: ws => do return (← canon w) :: (← canonPieces ws)

def canonAll : List (Waveform N) → Outcome (List (Waveform N))
  | [] => .ok []
  | w :: ws => do return (← canon w) :: (← canonAll ws)

end

def join (a b : Waveform N) : Outcome (Waveform N) := canon (append [a, b])

def plus (a b : Waveform N) : Outcome (Waveform N) := canon (add a b)

def ofProfile (p : Profile) (duration : Scalar N) : Outcome (Waveform N) := do
  let sig := p.signature
  if sig.openArguments then throw .openArguments
  if sig.openKeywords then throw .openKeywords
  let defaults ← sig.defaults.mapM fun (n, d) =>
    match d with
    | .number d => .ok (n, (Arith.ofDecimal d : N))
    | .unsuitable => .error (.unsuitableDefault n)
  let names := defaults.map (·.1) ++ sig.positional ++ sig.keywords
  return profile p duration (names.map .var) defaults

end Waveform

end AtomArray
