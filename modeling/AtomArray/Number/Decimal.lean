import AtomArray.Text.Class

/-!
Decimal floating-point numbers with 28 significant digits.

A finite number is a sign, a natural coefficient and a power of ten, so `1.50` and `1.5` are two
decimals of one value. Operations `round` the exact result to the precision, ties going to the even
digit. Undefined operations, divisions by zero and results beyond the largest exponent are reported
as a `Decimal.Trap`.
-/

namespace AtomArray

/-- A decimal number: finite, infinite, or not a number. -/
inductive Decimal where
  | finite (negative : Bool) (coeff : Nat) (exp : Int)
  | infinite (negative : Bool)
  | nan (negative signaling : Bool) (payload : Nat)
  deriving DecidableEq, Inhabited

namespace Decimal

/-- Why an operation has no result. -/
inductive Trap where
  | undefined
  | divisionByZero
  | overflow
  deriving DecidableEq

/-- Significant digits kept by every operation. -/
def precision : Nat := 28
def maxExponent : Int := 999999
/-- Least exponent of the last digit of any result. -/
def leastExponent : Int := -1000026
/-- Largest exponent of the last digit of a result with all digits in use. -/
def topExponent : Int := maxExponent - precision + 1

/-- How many decimal digits a natural number has; zero has one. The binary length gives the
count up to one, and the powers of ten on both sides decide. -/
def digitCount (n : Nat) : Nat :=
  if n < 10 then 1
  else
    let k := n.log2 * 30103 / 100000
    if n < Nat.pow 10 k then k else if n < Nat.pow 10 (k + 1) then k + 1 else k + 2

/-- The quotient of two naturals to the nearest integer, a tie going to the even one. -/
def roundQuotient (num den : Nat) : Nat :=
  let q := num / den
  let r := num % den
  if den < 2 * r || (2 * r == den && q % 2 == 1) then q + 1 else q

/-- A coefficient without its last `drop` digits, rounded. -/
def dropDigits (c drop : Nat) : Nat :=
  if digitCount c < drop then 0 else roundQuotient c (Nat.pow 10 drop)

def isZero : Decimal → Bool
  | finite _ c _ => c == 0
  | _ => false

def isNaN : Decimal → Bool
  | nan .. => true
  | _ => false

def isFinite : Decimal → Bool
  | finite .. => true
  | _ => false

def signBit : Decimal → Bool
  | finite s _ _ => s
  | infinite s => s
  | nan s _ _ => s

/-- The exact result brought to the precision and the exponent range. -/
def round : Decimal → Except Trap Decimal
  | finite s c e =>
    if c = 0 then .ok (finite s 0 (max leastExponent (min e maxExponent)))
    else
      let low := (digitCount c : Int) + e - precision
      if topExponent < low then .error .overflow
      else
        let low := max low leastExponent
        if low ≤ e then .ok (finite s c e)
        else
          let q := dropDigits c (low - e).toNat
          let (q, x) := if precision < digitCount q then (q / 10, low + 1) else (q, low)
          if topExponent < x then .error .overflow else .ok (finite s q x)
  | infinite s => .ok (infinite s)
  | nan s g p => .ok (nan s g (p % Nat.pow 10 precision))

variable (a b : Decimal)

/-- Not-a-number operands decide the result: a signaling one is a trap, else the first one is
handed on. -/
def nanResult? : Option (Except Trap Decimal) :=
  match a, b with
  | nan _ true _, _ => some (.error .undefined)
  | _, nan _ true _ => some (.error .undefined)
  | nan s g p, _ => some (round (nan s g p))
  | _, nan s g p => some (round (nan s g p))
  | _, _ => none

/-- The sum of two nonzero finite numbers as an exact signed coefficient and exponent. A number
far below the last kept digit of the other one is replaced by the least digit that rounds alike. -/
def addParts (s₁ : Bool) (c₁ : Nat) (e₁ : Int) (s₂ : Bool) (c₂ : Nat) (e₂ : Int) : Int × Int :=
  let (s₁, c₁, e₁, s₂, c₂, e₂) :=
    if e₁ < e₂ then (s₂, c₂, e₂, s₁, c₁, e₁) else (s₁, c₁, e₁, s₂, c₂, e₂)
  let floor := e₁ + min (-1) ((digitCount c₁ : Int) - precision - 2)
  let (c₂, e₂) := if (digitCount c₂ : Int) + e₂ - 1 < floor then (1, floor) else (c₂, e₂)
  let big : Int := (c₁ * Nat.pow 10 (e₁ - e₂).toNat : Nat)
  let small : Int := (c₂ : Nat)
  ((if s₁ then -big else big) + (if s₂ then -small else small), e₂)

/-- A finite number with its exponent lowered to `e`, its value unchanged. -/
def padTo (s : Bool) (c : Nat) (exp e : Int) : Decimal :=
  if e ≤ exp then finite s (c * Nat.pow 10 (exp - e).toNat) e else finite s c exp

def add : Except Trap Decimal :=
  match nanResult? a b with
  | some r => r
  | none =>
    match a, b with
    | infinite s, infinite t => if s = t then .ok (infinite s) else .error .undefined
    | infinite s, _ => .ok (infinite s)
    | _, infinite t => .ok (infinite t)
    | finite s₁ c₁ e₁, finite s₂ c₂ e₂ =>
      if c₁ = 0 ∧ c₂ = 0 then round (finite (s₁ && s₂) 0 (min e₁ e₂))
      else if c₁ = 0 then round (padTo s₂ c₂ e₂ (max (min e₁ e₂) (e₂ - precision - 1)))
      else if c₂ = 0 then round (padTo s₁ c₁ e₁ (max (min e₁ e₂) (e₁ - precision - 1)))
      else
        let (c, e) := addParts s₁ c₁ e₁ s₂ c₂ e₂
        if c = 0 then round (finite false 0 (min e₁ e₂))
        else round (finite (decide (c < 0)) c.natAbs e)
    | a, _ => .ok a

def withSign (s : Bool) : Decimal → Decimal
  | finite _ c e => finite s c e
  | infinite _ => infinite s
  | nan _ g p => nan s g p

/-- The opposite number; the opposite of a zero is the zero without a sign. -/
def neg (a : Decimal) : Except Trap Decimal :=
  match a with
  | nan _ true _ => .error .undefined
  | nan s g p => round (nan s g p)
  | finite s c e => round (finite (if c = 0 then false else !s) c e)
  | infinite s => .ok (infinite (!s))

def abs (a : Decimal) : Except Trap Decimal :=
  match a with
  | nan _ true _ => .error .undefined
  | nan s g p => round (nan s g p)
  | a => round (a.withSign false)

/-- Subtraction: the sum with the operand's sign bit turned. -/
def sub : Except Trap Decimal :=
  match nanResult? a b with
  | some r => r
  | none => add a (b.withSign (!b.signBit))

def mul : Except Trap Decimal :=
  match nanResult? a b with
  | some r => r
  | none =>
    let s := a.signBit != b.signBit
    match a, b with
    | finite _ c₁ e₁, finite _ c₂ e₂ => round (finite s (c₁ * c₂) (e₁ + e₂))
    | finite _ c _, _ => if c = 0 then .error .undefined else .ok (infinite s)
    | _, finite _ c _ => if c = 0 then .error .undefined else .ok (infinite s)
    | _, _ => .ok (infinite s)

/-- Drops trailing zeros of a coefficient while the exponent stays at most `limit`. -/
def stripZeros : Nat → Nat → Int → Int → Nat × Int
  | 0, c, e, _ => (c, e)
  | fuel + 1, c, e, limit =>
    if e < limit ∧ c % 10 = 0 then stripZeros fuel (c / 10) (e + 1) limit else (c, e)

/-- The quotient of two nonzero finite magnitudes, one digit longer than the precision and with
the rest marked in its last digit; an exact quotient comes as close to the exponent difference
as it can. -/
def divParts (c₁ : Nat) (e₁ : Int) (c₂ : Nat) (e₂ : Int) : Nat × Int :=
  let shift : Int := (digitCount c₂ : Int) - digitCount c₁ + precision + 1
  let num := if 0 ≤ shift then c₁ * Nat.pow 10 shift.toNat else c₁
  let den := if 0 ≤ shift then c₂ else c₂ * Nat.pow 10 (-shift).toNat
  let q := num / den
  let e := e₁ - e₂ - shift
  if num % den = 0 then stripZeros (digitCount q) q e (e₁ - e₂)
  else (if q % 5 = 0 then q + 1 else q, e)

def div : Except Trap Decimal :=
  match nanResult? a b with
  | some r => r
  | none =>
    let s := a.signBit != b.signBit
    match a, b with
    | infinite _, infinite _ => .error .undefined
    | infinite _, _ => .ok (infinite s)
    | _, infinite _ => .ok (finite s 0 leastExponent)
    | finite _ c₁ e₁, finite _ c₂ e₂ =>
      if c₂ = 0 then .error (if c₁ = 0 then .undefined else .divisionByZero)
      else if c₁ = 0 then round (finite s 0 (e₁ - e₂))
      else
        let (c, e) := divParts c₁ e₁ c₂ e₂
        round (finite s c e)
    | a, _ => .ok a

/-- Newton's iteration for the integer square root, from above. -/
def sqrtLoop : Nat → Nat → Nat → Nat
  | 0, _, x => x
  | fuel + 1, n, x =>
    let y := (x + n / x) / 2
    if y < x then sqrtLoop fuel n y else x

/-- The largest natural whose square is at most `n`. -/
def natSqrt (n : Nat) : Nat :=
  if n = 0 then 0 else sqrtLoop (n.log2 + 2) n (Nat.pow 2 (n.log2 / 2 + 1))

def sqrt (a : Decimal) : Except Trap Decimal :=
  match a with
  | nan _ true _ => .error .undefined
  | nan s g p => round (nan s g p)
  | infinite s => if s then .error .undefined else .ok a
  | finite s c e =>
    if c = 0 then round (finite s 0 (e.fdiv 2))
    else if s then .error .undefined
    else
      let prec := precision + 1
      let half := e.fdiv 2
      let odd := e.fmod 2 = 1
      let c' := if odd then c * 10 else c
      let l := if odd then digitCount c / 2 + 1 else (digitCount c + 1) / 2
      let shift : Int := (prec : Int) - l
      let up := Nat.pow 100 shift.toNat
      let down := Nat.pow 100 (-shift).toNat
      let scaled := c' * up / down
      let n := natSqrt scaled
      let exact := (c' * up) % down = 0 ∧ n * n = scaled
      if exact then
        round (finite false (n * Nat.pow 10 (-shift).toNat / Nat.pow 10 shift.toNat) half)
      else
        round (finite false (if n % 5 = 0 then n + 1 else n) (half - shift))

def compareMagnitude (c₁ : Nat) (e₁ : Int) (c₂ : Nat) (e₂ : Int) : Ordering :=
  if c₁ = 0 ∨ c₂ = 0 then compare c₁ c₂
  else
    match compare ((digitCount c₁ : Int) + e₁) ((digitCount c₂ : Int) + e₂) with
    | .eq => compare (c₁ * Nat.pow 10 (e₁ - e₂).toNat) (c₂ * Nat.pow 10 (e₂ - e₁).toNat)
    | o => o

/-- Order of two numbers by value; none when one of them is not a number. -/
def compare? : Decimal → Decimal → Option Ordering
  | nan .., _ => none
  | _, nan .. => none
  | infinite s, infinite t => some (if s = t then .eq else if s then .lt else .gt)
  | infinite s, _ => some (if s then .lt else .gt)
  | _, infinite t => some (if t then .gt else .lt)
  | finite s c₁ e₁, finite t c₂ e₂ =>
    some <|
      if c₁ = 0 ∧ c₂ = 0 then .eq
      else if c₁ = 0 then (if t then .gt else .lt)
      else if c₂ = 0 then (if s then .lt else .gt)
      else match s, t with
        | false, true => .gt
        | true, false => .lt
        | false, false => compareMagnitude c₁ e₁ c₂ e₂
        | true, true => compareMagnitude c₂ e₂ c₁ e₁

/-- Equality of value; a number that is not one differs from everything. -/
def sameValue : Bool := compare? a b == some .eq

/-- Strictly below; a trap when one of the two is not a number. -/
def lt : Except Trap Bool :=
  match compare? a b with
  | some o => .ok (o == .lt)
  | none => .error .undefined

/-- Below or equal; a trap when one of the two is not a number. -/
def le : Except Trap Bool :=
  match compare? a b with
  | some o => .ok (o != .gt)
  | none => .error .undefined

def ofInt (i : Int) : Decimal := finite (decide (i < 0)) i.natAbs 0

def zero : Decimal := finite false 0 0
def one : Decimal := finite false 1 0

instance (n : Nat) : OfNat Decimal n := ⟨finite false n 0⟩

/-- The number read as an integer, rounded to the nearest, a tie to the even one. -/
def roundToInt? : Decimal → Option Int
  | finite s c e =>
    let n := if 0 ≤ e then c * Nat.pow 10 e.toNat else dropDigits c (-e).toNat
    some (if s then -(n : Int) else n)
  | _ => none

def truncate? : Decimal → Option Int
  | finite s c e =>
    let n := if 0 ≤ e then c * Nat.pow 10 e.toNat else c / Nat.pow 10 (-e).toNat
    some (if s then -(n : Int) else n)
  | _ => none

/-! ### Text -/

open AtomArray.Text

def exponentText (e : Int) : String :=
  if e < 0 then s!"-{e.natAbs}" else s!"+{e.natAbs}"

def magnitudeText (c : Nat) (e : Int) : String :=
  let ds := toString c
  let len : Int := ds.length
  let left := e + len
  let dot : Int := if e ≤ 0 ∧ -6 < left then left else 1
  let whole :=
    if dot ≤ 0 then "0." ++ times (-dot).toNat "0" ++ ds
    else if len ≤ dot then ds ++ times (dot - len).toNat "0"
    else (ds.take dot.toNat).toString ++ "." ++ (ds.drop dot.toNat).toString
  if left = dot then whole else whole ++ "E" ++ exponentText (left - dot)

def text : Decimal → String
  | finite s c e => (if s then "-" else "") ++ magnitudeText c e
  | infinite s => (if s then "-" else "") ++ "Infinity"
  | nan s g p =>
    (if s then "-" else "") ++ (if g then "sNaN" else "NaN") ++ (if p = 0 then "" else toString p)

def readSign : List Char → Bool × List Char
  | '-' :: cs => (true, cs)
  | '+' :: cs => (false, cs)
  | cs => (false, cs)

def isDigitChar (c : Char) : Bool := (digitValue? c).isSome

/-- The exponent part: nothing, or a mark with a signed run of digits up to the end. -/
def readExponent? : List Char → Option Int
  | [] => some 0
  | c :: cs =>
    if c = 'e' ∨ c = 'E' then
      let (s, ds) := readSign cs
      if ds.isEmpty || !ds.all isDigitChar then none
      else some (if s then -(digitsValue 0 ds : Int) else digitsValue 0 ds)
    else none

/-- Largest exponents that a written number may have. -/
def widestExponent : Int := 999999999999999999

def readFinite? (s : Bool) (cs : List Char) : Option Decimal :=
  let whole := cs.takeWhile isDigitChar
  let rest := cs.dropWhile isDigitChar
  let (frac, rest) :=
    match rest with
    | '.' :: r => (r.takeWhile isDigitChar, r.dropWhile isDigitChar)
    | r => ([], r)
  if whole.isEmpty && frac.isEmpty then none
  else do
    let x ← readExponent? rest
    let c := digitsValue 0 (whole ++ frac)
    let e := x - frac.length
    if widestExponent < e + digitCount c - 1 ∨ e < -2 * widestExponent + 1 then none
    else some (finite s c e)

/-- A written number, after blanks and underscores are dropped. -/
def ofChars? (cs : List Char) : Option Decimal :=
  let (s, cs) := readSign (trim cs |>.filter (· ≠ '_'))
  let word := cs.map Char.toLower
  if word = "inf".toList ∨ word = "infinity".toList then some (infinite s)
  else if "nan".toList.isPrefixOf word then
    let ds := cs.drop 3
    if ds.all isDigitChar then some (nan s false (digitsValue 0 ds)) else none
  else if "snan".toList.isPrefixOf word then
    let ds := cs.drop 4
    if ds.all isDigitChar then some (nan s true (digitsValue 0 ds)) else none
  else readFinite? s cs

def ofText? (t : String) : Option Decimal := ofChars? t.toList

end Decimal

end AtomArray
