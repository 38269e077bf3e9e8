import AtomArray.Number.Decimal

/-!
Binary floating-point numbers and their decimal texts.

A finite binary number is `m * 2 ^ q`. `Binary.shortest` finds the fewest decimal digits that read
back as the same number, and of those the nearest. The written forms are `text` (fewest digits,
positional from `1e-4` up to `1e16`), `scientific` and `fixed` (a given number of digits, and no
negative zero).
-/

namespace AtomArray.Binary

open AtomArray.Text Decimal

/-- A finite magnitude `m * 2 ^ q`. -/
structure Parts where
  m : Nat
  q : Int

variable (x : Float)

def parts : Parts :=
  let bits := x.toBits.toNat
  let field : Nat := bits / Nat.pow 2 52 % Nat.pow 2 11
  let frac : Nat := bits % Nat.pow 2 52
  if field = 0 then ⟨frac, -1074⟩ else ⟨Nat.pow 2 52 + frac, (field : Int) - 1075⟩

def isNegative : Bool := Nat.pow 2 63 ≤ x.toBits.toNat

variable (p : Parts)

/-- The magnitude as a quotient of naturals. -/
def Parts.num : Nat := p.m * Nat.pow 2 p.q.toNat
def Parts.den : Nat := Nat.pow 2 (-p.q).toNat

/-- The exponent of the leading decimal digit of a positive quotient. -/
def leadingExponent (num den : Nat) : Int :=
  let k : Int := (digitCount num : Int) - digitCount den
  if num * Nat.pow 10 (-k).toNat < den * Nat.pow 10 k.toNat then k - 1 else k

/-- Quarters of the last binary place, as a quotient in units of `10 ^ k`. -/
def quarterNum (k : Int) : Nat := Nat.pow 2 (p.q - 2).toNat * Nat.pow 10 (-k).toNat
def quarterDen (k : Int) : Nat := Nat.pow 2 (2 - p.q).toNat * Nat.pow 10 k.toNat

/-- Does a multiple of `10 ^ k` lie in the rounding interval of the number? Below a power of two,
the interval is half as long as above it. -/
def roundsTo (k : Int) (d : Nat) : Bool :=
  let below := if p.m = Nat.pow 2 52 ∧ p.q ≠ -1074 then 1 else 2
  let low := (4 * p.m - below) * quarterNum p k
  let high := (4 * p.m + 2) * quarterNum p k
  let x := d * quarterDen p k
  if p.m % 2 = 0 then low ≤ x && x ≤ high else low < x && x < high

/-- A multiple of `10 ^ k` in the rounding interval of the number, the nearest one if there are
two. -/
def candidate? (k : Int) : Option Nat :=
  let mid := 4 * p.m * quarterNum p k
  let den := quarterDen p k
  let d := mid / den
  let rest := mid % den
  let nearUp := den < 2 * rest || (2 * rest = den && d % 2 = 1)
  if nearUp then
    if roundsTo p k (d + 1) then some (d + 1) else if roundsTo p k d then some d else none
  else if roundsTo p k d then some d else if roundsTo p k (d + 1) then some (d + 1) else none

/-- Searches the powers of ten downwards for the first that has a candidate. -/
def searchDigits : Nat → Parts → Int → Nat × Int
  | 0, p, k => ((candidate? p k).getD 1, k)
  | fuel + 1, p, k =>
    match candidate? p k with
    | some d => (d, k)
    | none => searchDigits fuel p (k - 1)

/-- The digits (as a natural) and the power of ten of the shortest decimal of a positive
number. -/
def shortest : Nat × Int :=
  let k := leadingExponent p.num p.den
  let (d, k) := searchDigits 18 p (k + 1)
  stripZeros 20 d k (k + 20)

/-- A digit text with the point after `n` digits. -/
def pointAfter (ds : String) (n : Nat) : String :=
  (ds.take n).toString ++ "." ++ (ds.drop n).toString

def exponentPart (e : Int) : String :=
  let ds := toString e.natAbs
  (if e < 0 then "e-" else "e+") ++ (if ds.length < 2 then "0" ++ ds else ds)

def magnitudeText : String :=
  let (d, k) := shortest p
  let ds := toString d
  let point : Int := ds.length + k
  if -4 < point ∧ point ≤ 16 then
    if point ≤ 0 then "0." ++ times (-point).toNat "0" ++ ds
    else if (ds.length : Int) ≤ point then ds ++ times (point - ds.length).toNat "0" ++ ".0"
    else pointAfter ds point.toNat
  else
    let head := if ds.length = 1 then ds else pointAfter ds 1
    head ++ exponentPart (point - 1)

def text : String :=
  if x.isNaN then "nan"
  else
    let sign := if isNegative x then "-" else ""
    if x.isInf then sign ++ "inf"
    else
      let p := parts x
      sign ++ (if p.m = 0 then "0.0" else magnitudeText p)

/-- The magnitude as a multiple of `10 ^ k`, rounded to the nearest, ties to even. -/
def scaled (k : Int) : Nat :=
  roundQuotient (p.num * Nat.pow 10 (-k).toNat) (p.den * Nat.pow 10 k.toNat)

def withPoint (v n : Nat) : String :=
  let ds := toString v
  let ds := times (n + 1 - ds.length) "0" ++ ds
  if n = 0 then ds else pointAfter ds (ds.length - n)

/-- A fixed number of decimals, without a negative zero. -/
def fixed (n : Nat) (x : Float) : String :=
  if x.isNaN then "nan"
  else if x.isInf then (if isNegative x then "-inf" else "inf")
  else
    let v := scaled (parts x) (-n)
    (if isNegative x ∧ v ≠ 0 then "-" else "") ++ withPoint v n

/-- One digit before the point, `n` after it, and an exponent. -/
def scientific (n : Nat) (x : Float) : String :=
  if x.isNaN then "nan"
  else if x.isInf then (if isNegative x then "-inf" else "inf")
  else
    let p := parts x
    if p.m = 0 then withPoint 0 n ++ "e+00"
    else
      let e := leadingExponent p.num p.den
      let v := scaled p (e - n)
      let (v, e) := if digitCount v = n + 2 then (v / 10, e + 1) else (v, e)
      (if isNegative x then "-" else "") ++ withPoint v n ++ exponentPart e

def exact : Decimal :=
  if x.isNaN then .nan false false 0
  else if x.isInf then .infinite (isNegative x)
  else
    let p := parts x
    let s := isNegative x
    if 0 ≤ p.q then .finite s p.num 0
    else
      let shift := (-p.q).toNat
      let g := Nat.gcd p.m (Nat.pow 2 shift)
      let k := shift - g.log2
      if p.m = 0 then .finite s 0 0 else .finite s (p.m / g * Nat.pow 5 k) (-(k : Int))

/-- The decimal that the number's shortest text writes. -/
def textDecimal : Decimal :=
  if x.isNaN then .nan false false 0
  else if x.isInf then .infinite (isNegative x)
  else
    let p := parts x
    let s := isNegative x
    if p.m = 0 then .finite s 0 (-1)
    else
      let (d, k) := shortest p
      let point : Int := (toString d).length + k
      -- positional notation always has a decimal after the point
      if point ≤ 16 ∧ 0 ≤ k then .finite s (d * Nat.pow 10 (k.toNat + 1)) (-1) else .finite s d k

def ofDecimal : Decimal → Float
  | .nan .. => 0.0 / 0.0
  | .infinite s => if s then -1.0 / 0.0 else 1.0 / 0.0
  | .finite s c e =>
    let lead : Int := digitCount c + e
    let x : Float :=
      if c = 0 ∨ lead < -400 then 0.0
      else if 400 < lead then 1.0 / 0.0
      else if 0 ≤ e then Float.ofScientific (c * Nat.pow 10 e.toNat) false 0
      else Float.ofScientific c true (-e).toNat
    if s then -x else x

/-- The binary number that a text writes in the forms of `text`. -/
def ofText? (t : String) : Option Float := (Decimal.ofText? t).map ofDecimal

end AtomArray.Binary
