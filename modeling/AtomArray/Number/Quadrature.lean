import AtomArray.Number.Binary
import AtomArray.Fault

/-!
Smoothing kernels, and numerical integration by adaptive bisection with extrapolation.

An interval is estimated by a Gauss-Kronrod rule, and the one with the largest error is bisected.
Whenever only narrow intervals are left, the sums so far are extrapolated by the epsilon algorithm,
and the result with the smallest error wins.
-/

namespace AtomArray

inductive Kernel where
  | gaussian
  | logistic
  | sigmoid
  | triangle
  | uniform
  | parabolic
  | biweight
  | triweight
  | tricube
  | cosine
  deriving DecidableEq

namespace Kernel

def all : List Kernel :=
  [gaussian, logistic, sigmoid, triangle, uniform, parabolic, biweight, triweight, tricube, cosine]

def name : Kernel → String
  | gaussian => "Gaussian"
  | logistic => "Logistic"
  | sigmoid => "Sigmoid"
  | triangle => "Triangle"
  | uniform => "Uniform"
  | parabolic => "Parabolic"
  | biweight => "Biweight"
  | triweight => "Triweight"
  | tricube => "Tricube"
  | cosine => "Cosine"

def ofName? (s : String) : Option Kernel := all.find? fun k => k.name == s

/-- The name under which a kernel is asked for in text: the first kernel is spelled in a way of
its own. -/
def label : Kernel → String
  | gaussian => "Guassian"
  | k => k.name

def ofLabel? (s : String) : Option Kernel := all.find? fun k => k.label == s

/-- Does the kernel vanish outside the interval from -1 to 1? -/
def isFinite : Kernel → Bool
  | gaussian | logistic | sigmoid => false
  | _ => true

/-- The logarithm of the sum of two exponentials. -/
def logSumExp (x y : Float) : Float :=
  if x == y then x + Float.log 2.0
  else
    let d := x - y
    if d > 0 then x + Float.log (1.0 + Float.exp (-d))
    else if d ≤ 0 then y + Float.log (1.0 + Float.exp d)
    else d

def pi : Float := 3.141592653589793

/-- The positive part; not a number stays so. -/
def positive (x : Float) : Float := if x < 0.0 then 0.0 else x

def weight (k : Kernel) (v : Float) : Float :=
  match k with
  | gaussian => Float.exp (-(v * v) / 2.0) / Float.sqrt (2.0 * pi)
  | logistic => Float.exp (-(logSumExp 0.0 v + logSumExp 0.0 (-v)))
  | sigmoid => 2.0 / pi * Float.exp (-(logSumExp (-v) v))
  | triangle => positive (1.0 - v.abs)
  | uniform => if v.abs ≤ 1.0 then 1.0 else 0.0
  | parabolic => 3.0 / 4.0 * positive (1.0 - v * v)
  | biweight =>
    let p := positive (1.0 - v * v)
    15.0 / 16.0 * (p * p)
  | triweight =>
    let p := positive (1.0 - v * v)
    35.0 / 32.0 * (p * p * p)
  | tricube =>
    let p := positive (1.0 - v.abs * v.abs * v.abs)
    70.0 / 81.0 * (p * p * p)
  | cosine => positive (pi / 4.0 * Float.cos (pi / 2.0 * v))

end Kernel

namespace Quadrature

/-- The distance from 1 to the next binary number. -/
def epsilon : Float := 2.220446049250313e-16
/-- The largest binary number, which stands for an error not yet known. -/
def unknown : Float := 1.7976931348623157e308
def tiny : Float := 2.2250738585072014e-308

/-- What a rule says of an interval: the integral, its error, and the integrals of the absolute
value and of the absolute deviation from the mean. -/
structure Estimate where
  value : Float
  error : Float
  absolute : Float
  deviation : Float

abbrev Rule := Float → Float → Outcome Estimate

/-- The error of an estimate from the difference of two rules. -/
def sharpened (difference absolute deviation : Float) : Float :=
  let e :=
    if deviation != 0.0 && difference != 0.0 then
      let ratio := Float.pow (200.0 * difference / deviation) 1.5
      deviation * (if ratio < 1.0 then ratio else 1.0)
    else difference
  if tiny / (50.0 * epsilon) < absolute then max (epsilon * 50.0 * absolute) e else e

/-- The nodes of the 21-point rule that the 10-point rule shares, with the weights of both. -/
def shared21 : List (Float × Float × Float) :=
  [(0.9739065285171717, 0.032558162307964725, 0.06667134430868814),
   (0.8650633666889845, 0.07503967481091996, 0.1494513491505806),
   (0.6794095682990244, 0.10938715880229764, 0.21908636251598204),
   (0.4333953941292472, 0.13470921731147334, 0.26926671930999635),
   (0.14887433898163122, 0.14773910490133849, 0.29552422471475287)]

/-- The other nodes of the 21-point rule. -/
def own21 : List (Float × Float) :=
  [(0.9956571630258081, 0.011694638867371874),
   (0.9301574913557082, 0.054755896574351995),
   (0.7808177265864169, 0.0931254545836976),
   (0.5627571346686047, 0.12349197626206584),
   (0.2943928627014602, 0.14277593857706009)]

def centre21 : Float := 0.1494455540029169

/-- The nodes of the 15-point rule, with its weights and those of the 7-point rule. -/
def nodes15 : List (Float × Float × Float) :=
  [(0.9914553711208126, 0.022935322010529224, 0.0),
   (0.9491079123427585, 0.06309209262997856, 0.1294849661688697),
   (0.8648644233597691, 0.10479001032225019, 0.0),
   (0.7415311855993945, 0.14065325971552592, 0.27970539148927664),
   (0.5860872354676911, 0.1690047266392679, 0.0),
   (0.4058451513773972, 0.19035057806478542, 0.3818300505051189),
   (0.20778495500789848, 0.20443294007529889, 0.0)]

def centre15 : Float × Float :=
  (0.20948214108472782, 0.4179591836734694)

/-- Collects a rule from the value at the centre and the pairs of values around it: the sums of
both rules, and the values with their weights. -/
structure Sums where
  fine : Float
  coarse : Float
  absolute : Float
  seen : List (Float × Float × Float)

def Sums.push (s : Sums) (fine coarse f₁ f₂ : Float) : Sums :=
  { fine := s.fine + fine * (f₁ + f₂), coarse := s.coarse + coarse * (f₁ + f₂),
    absolute := s.absolute + fine * (f₁.abs + f₂.abs), seen := (fine, f₁, f₂) :: s.seen }

/-- The estimate of collected sums over an interval of a given half length. -/
def Sums.finish (s : Sums) (centreWeight centreValue half : Float) : Estimate :=
  let mean := s.fine * 0.5
  let deviation := s.seen.foldr
    (fun (w, f₁, f₂) acc => acc + w * ((f₁ - mean).abs + (f₂ - mean).abs))
    (centreWeight * (centreValue - mean).abs)
  let absolute := s.absolute * half.abs
  let deviation := deviation * half.abs
  let difference := ((s.fine - s.coarse) * half).abs
  ⟨s.fine * half, sharpened difference absolute deviation, absolute, deviation⟩

variable (f : Float → Outcome Float)

def rule21 : Rule := fun a b => do
  let centre := 0.5 * (a + b)
  let half := 0.5 * (b - a)
  let fc ← f centre
  let start : Sums := ⟨centre21 * fc, 0.0, (centre21 * fc).abs, []⟩
  let s ← shared21.foldlM (fun s (x, wk, wg) => do
    let d := half * x
    let f₁ ← f (centre - d)
    let f₂ ← f (centre + d)
    return s.push wk wg f₁ f₂) start
  let s ← own21.foldlM (fun s (x, wk) => do
    let d := half * x
    let f₁ ← f (centre - d)
    let f₂ ← f (centre + d)
    return s.push wk 0.0 f₁ f₂) s
  return s.finish centre21 fc half

/-- The 15-point rule for the whole line, in the variable that maps it to the unit interval. -/
def rule15 : Rule := fun a b => do
  let both (u : Float) : Outcome Float := do
    let x := (1.0 - u) / u
    let f₁ ← f x
    let f₂ ← f (-x)
    return (f₁ + f₂) / u / u
  let centre := 0.5 * (a + b)
  let half := 0.5 * (b - a)
  let fc ← both centre
  let start : Sums := ⟨centre15.1 * fc, centre15.2 * fc, (centre15.1 * fc).abs, []⟩
  let s ← nodes15.foldlM (fun s (x, wk, wg) => do
    let d := half * x
    let f₁ ← both (centre - d)
    let f₂ ← both (centre + d)
    return s.push wk wg f₁ f₂) start
  return s.finish centre15.1 fc half

/-! ### The epsilon algorithm -/

/-- The table of extrapolated sums: its last row, the latest results, and how many there were. -/
structure Table where
  row : Array Float
  recent : List Float
  count : Nat

/-- One diagonal of the table while a new sum is worked in. -/
structure Diagonal where
  row : Array Float
  value : Float
  error : Float
  /-- The length that the row is cut to, once it is cut. -/
  cut : Option Nat
  converged : Bool

def maxRow : Nat := 50

/-- Works the `i`-th element of the diagonal; `k` is its place in the row. -/
def Diagonal.step (d : Diagonal) (i k : Nat) : Diagonal :=
  if d.converged || d.cut.isSome || k < 2 then d
  else
    let e2 := d.row.getD (k + 2) 0.0
    let e1 := d.row.getD (k - 1) 0.0
    let e0 := d.row.getD (k - 2) 0.0
    let err2 := (e2 - e1).abs
    let tol2 := max e2.abs e1.abs * epsilon
    let err3 := (e1 - e0).abs
    let tol3 := max e1.abs e0.abs * epsilon
    if err2 ≤ tol2 && err3 ≤ tol3 then
      { d with value := e2, error := err2 + err3, converged := true }
    else
      let e3 := d.row.getD k 0.0
      let row := d.row.setIfInBounds k e1
      let delta1 := e1 - e3
      let tol1 := max e1.abs e3.abs * epsilon
      if delta1.abs ≤ tol1 || err2 ≤ tol2 || err3 ≤ tol3 then
        { d with row := row, cut := some (2 * i + 1) }
      else
        let ss := 1.0 / delta1 + 1.0 / (e2 - e1) - 1.0 / (e1 - e0)
        if (ss * e1).abs ≤ 1e-4 then { d with row := row, cut := some (2 * i + 1) }
        else
          let res := e1 + 1.0 / ss
          let row := row.setIfInBounds k res
          let error := err2 + (res - e2).abs + err3
          if d.error < error then { d with row := row }
          else { d with row := row, value := res, error := error }

/-- All elements of the diagonal from place `k` of the row on, two places apart. -/
def Diagonal.run (d : Diagonal) : Nat → Nat → Nat → Diagonal
  | 0, _, _ => d
  | n + 1, i, k => (d.step i k).run n (i + 1) (k - 2)

/-- Every other element moves up by two places. -/
def shiftRow (row : Array Float) : Nat → Nat → Array Float
  | 0, _ => row
  | n + 1, i => shiftRow (row.setIfInBounds i (row.getD (i + 2) 0.0)) n (i + 2)

/-- Works a new sum into the table: the new table, the extrapolated value and its error. -/
def Table.extrapolate (t : Table) (sum : Float) : Table × Float × Float :=
  let n := t.row.size + 1
  let count := t.count + 1
  let least (value error : Float) : Float := max error (5.0 * epsilon * value.abs)
  if n < 3 then (⟨t.row.push sum, t.recent, count⟩, sum, least sum unknown)
  else
    let half := (n - 1) / 2
    -- two spare places hold the sum while its own place takes the unknown
    let row := ((t.row.push unknown).push 0.0).push sum
    let d := Diagonal.run ⟨row, sum, unknown, none, false⟩ half 0 (n - 1)
    if d.converged then
      (⟨d.row.take n, t.recent, count⟩, d.value, least d.value d.error)
    else
      let m := d.cut.getD n
      let m := if m = maxRow then 2 * (maxRow / 2) - 1 else m
      let row := shiftRow d.row (half + 1) (if n % 2 = 0 then 1 else 0)
      let row := (row.toList.drop (n - m)).take m |>.toArray
      if count < 4 then (⟨row, t.recent ++ [d.value], count⟩, d.value, least d.value unknown)
      else
        let error := t.recent.foldr (fun r acc => acc + (d.value - r).abs) 0.0
        (⟨row, t.recent.drop 1 ++ [d.value], count⟩, d.value, least d.value error)

/-! ### Adaptive bisection -/

/-- An interval with its estimate. -/
structure Piece where
  lo : Float
  hi : Float
  value : Float
  error : Float

def Piece.width (p : Piece) : Float := (p.hi - p.lo).abs

/-- Puts a piece before the first one whose error is not larger. -/
def insertPiece (p : Piece) : List Piece → List Piece
  | [] => [p]
  | q :: qs => if q.error ≤ p.error then p :: q :: qs else q :: insertPiece p qs

/-- The state of the search. `passed` are the pieces before the one to bisect next, nearest
first. -/
structure Search where
  passed : List Piece
  rest : List Piece
  area : Float
  errorSum : Float
  bound : Float
  table : Table
  value : Float
  error : Float
  extrapolating : Bool
  finished : Bool
  narrow : Float
  wideError : Float
  testError : Float
  correction : Float
  idle : Nat
  roundoff : Nat × Nat × Nat
  flag : Nat
  seriesFlag : Bool
  /-- The pieces alone give the answer. -/
  exact : Bool
  stopped : Bool

/-- Moves pieces with a smaller error than the given one back behind it. -/
def rewind (e : Float) : List Piece → List Piece → List Piece × List Piece
  | [], rest => ([], rest)
  | p :: ps, rest => if e ≤ p.error then (p :: ps, rest) else rewind e ps (p :: rest)

def toWide (narrow : Float) : List Piece → List Piece → Option (List Piece × List Piece)
  | _, [] => none
  | passed, p :: ps =>
    if narrow < p.width then some (passed, p :: ps) else toWide narrow (p :: passed) ps

variable (s : Search)

/-- Extrapolates, and starts again with the piece of the largest error. -/
def Search.extrapolated (absTol relTol : Float) : Search :=
  let (table, value, error) := s.table.extrapolate s.area
  let idle := s.idle + 1
  let flag := if 5 < idle && s.error < 1e-3 * s.errorSum then 5 else s.flag
  let s := { s with table := table, idle := idle, flag := flag }
  let s :=
    if error < s.error then
      { s with idle := 0, error := error, value := value, correction := s.wideError,
               testError := max absTol (relTol * value.abs) }
    else s
  if error ≤ s.error && s.error ≤ s.testError && s.idle = 0 then { s with stopped := true }
  else
    let s := if table.row.size = 1 then { s with finished := true } else s
    if s.flag = 5 then { s with stopped := true }
    else
      { s with passed := [], rest := s.passed.reverse ++ s.rest, extrapolating := false,
               narrow := s.narrow * 0.5, wideError := s.errorSum }

def roundoffAfter (count : Nat) (p : Piece) (l r : Estimate) : Nat × Nat × Nat :=
  let (r₁, r₂, r₃) := s.roundoff
  if l.deviation == l.error || r.deviation == r.error then s.roundoff
  else
    let value := l.value + r.value
    let error := l.error + r.error
    let still := (p.value - value).abs ≤ 1e-5 * value.abs && 0.99 * p.error ≤ error
    (if still && !s.extrapolating then r₁ + 1 else r₁, if still && s.extrapolating then r₂ + 1 else r₂,
      if 10 < count && p.error < error then r₃ + 1 else r₃)

/-- One bisection; `count` is the number of pieces after it. -/
def Search.bisect (rule : Rule) (absTol relTol width : Float) (limit count : Nat) (s : Search) :
    Outcome Search :=
  match s.rest with
  | [] => .ok { s with stopped := true }
  | p :: rest => do
    let mid := 0.5 * (p.lo + p.hi)
    let l ← rule p.lo mid
    let r ← rule mid p.hi
    let error := l.error + r.error
    let errorSum := s.errorSum + error - p.error
    let area := s.area + (l.value + r.value) - p.value
    let roundoff := roundoffAfter s count p l r
    let bound := max absTol (relTol * area.abs)
    let flag := if 10 ≤ roundoff.1 + roundoff.2.1 || 20 ≤ roundoff.2.2 then 2 else s.flag
    let flag := if count = limit then 1 else flag
    let flag :=
      if max p.lo.abs p.hi.abs ≤ (1.0 + 100.0 * epsilon) * (mid.abs + 1000.0 * tiny) then 4
      else flag
    let left : Piece := ⟨p.lo, mid, l.value, l.error⟩
    let right : Piece := ⟨mid, p.hi, r.value, r.error⟩
    let (large, small) := if l.error < r.error then (right, left) else (left, right)
    let (passed, rest) := rewind large.error s.passed rest
    let s := { s with
      passed := passed, rest := insertPiece large (insertPiece small rest), area := area,
      errorSum := errorSum, bound := bound, roundoff := roundoff, flag := flag,
      seriesFlag := s.seriesFlag || 5 ≤ roundoff.2.1 }
    if errorSum ≤ bound then return { s with exact := true, stopped := true }
    if flag ≠ 0 then return { s with stopped := true }
    if count = 2 then
      return { s with narrow := width * 0.375, wideError := errorSum, testError := bound,
                      table := ⟨#[s.table.row.getD 0 0.0, area], [], 0⟩ }
    if s.finished then return s
    let wideError := s.wideError - p.error
    let wideError := if s.narrow < left.width then wideError + error else wideError
    let s := { s with wideError := wideError }
    if !s.extrapolating && (s.rest.head?.any fun q => s.narrow < q.width) then return s
    -- only narrow pieces have large errors: work through the wide ones, then extrapolate
    let s :=
      if s.extrapolating then s
      else
        { s with extrapolating := true,
                 passed := s.rest.head?.toList ++ s.passed, rest := s.rest.drop 1 }
    if s.seriesFlag || s.wideError ≤ s.testError then return s.extrapolated absTol relTol
    match toWide s.narrow s.passed s.rest with
    | some (passed, rest) => return { s with passed := passed, rest := rest }
    | none => return s.extrapolated absTol relTol

/-- Bisects until the search stops or the limit of pieces is reached. -/
def Search.run (rule : Rule) (absTol relTol width : Float) (limit : Nat) :
    Nat → Search → Outcome Search
  | 0, s => .ok s
  | fuel + 1, s => do
    if s.stopped then return s
    (← s.bisect rule absTol relTol width limit (limit - fuel)).run rule absTol relTol width limit
      fuel

def Search.total : Float :=
  (s.passed.reverse ++ s.rest).foldl (fun acc p => acc + p.value) 0.0

/-- The answer of a search: the extrapolated value where it is the better one. -/
def Search.answer : Float :=
  if s.exact || s.error == unknown then s.total
  else if s.flag = 0 && !s.seriesFlag then s.value
  else
    let error := if s.seriesFlag then s.error + s.correction else s.error
    if s.value != 0.0 && s.area != 0.0 then
      if s.errorSum / s.area.abs < error / s.value.abs then s.total else s.value
    else if s.errorSum < error then s.total
    else s.value

def adaptive (rule : Rule) (a b absTol relTol : Float) (limit : Nat) : Outcome Float := do
  let e ← rule a b
  let bound := max absTol (relTol * e.value.abs)
  if e.error ≤ 100.0 * epsilon * e.absolute && bound < e.error then return e.value
  if (e.error ≤ bound && e.error != e.deviation) || e.error == 0.0 then return e.value
  let start : Search :=
    { passed := [], rest := [⟨a, b, e.value, e.error⟩], area := e.value, errorSum := e.error,
      bound := bound, table := ⟨#[e.value], [], 0⟩, value := e.value, error := unknown,
      extrapolating := false, finished := false, narrow := 0.0, wideError := 0.0,
      testError := 0.0, correction := 0.0, idle := 0, roundoff := (0, 0, 0), flag := 0,
      seriesFlag := false, exact := false, stopped := false }
  return (← start.run rule absTol relTol (b - a).abs limit (limit - 1)).answer

/-- The tolerance of integrals, absolute and relative. -/
def tolerance : Float := 0.0001

def weighted (k : Kernel) (f : Float → Outcome Float) : Outcome Float :=
  let g (s : Float) : Outcome Float := do return k.weight s * (← f s)
  if k.isFinite then adaptive (rule21 g) (-1.0) 1.0 tolerance tolerance 50
  else adaptive (rule15 g) 0.0 1.0 tolerance tolerance 50

end Quadrature

end AtomArray
