import AtomArray.Json.Basic

/-!
Reading JSON.

A reader takes the characters that are left and returns a value with the characters after it.
Nesting is bounded by the length of the text, which is the fuel. The names of the numbers outside
the reals are accepted only by the binary rule.
-/

namespace AtomArray.Json

/-- How a number with a fraction or an exponent is kept. -/
inductive NumberRule where
  | binary
  | decimal
  deriving DecidableEq

def isSpace (c : Char) : Bool := c = ' ' || c = '\t' || c = '\n' || c = '\r'

variable (cs : List Char)

def skipSpace : List Char := cs.dropWhile isSpace

def hexValue? (c : Char) : Option Nat :=
  if c.isDigit then some (c.toNat - 48)
  else if 'a' ≤ c ∧ c ≤ 'f' then some (c.toNat - 87)
  else if 'A' ≤ c ∧ c ≤ 'F' then some (c.toNat - 55)
  else none

def readHex4? : List Char → Option (Nat × List Char)
  | a :: b :: c :: d :: rest => do
    let a ← hexValue? a
    let b ← hexValue? b
    let c ← hexValue? c
    let d ← hexValue? d
    some (((a * 16 + b) * 16 + c) * 16 + d, rest)
  | _ => none

/-- The code point of a UTF-16 escape after its mark; a second half is read with it. -/
def readUnits? : Option (Nat × List Char) := do
  let (hi, rest) ← readHex4? cs
  if 0xd800 ≤ hi ∧ hi < 0xdc00 then
    match rest with
    | '\\' :: 'u' :: more =>
      match readHex4? more with
      | some (lo, rest') =>
        if 0xdc00 ≤ lo ∧ lo < 0xe000 then
          some (0x10000 + (hi - 0xd800) * 0x400 + (lo - 0xdc00), rest')
        else some (0xfffd, rest)
      | none => some (0xfffd, rest)
    | _ => some (0xfffd, rest)
  else some (hi, rest)

def readEscape? : List Char → Option (Char × List Char)
  | '"' :: r => some ('"', r)
  | '\\' :: r => some ('\\', r)
  | '/' :: r => some ('/', r)
  | 'b' :: r => some ('\x08', r)
  | 'f' :: r => some ('\x0c', r)
  | 'n' :: r => some ('\n', r)
  | 'r' :: r => some ('\r', r)
  | 't' :: r => some ('\t', r)
  | 'u' :: r => (readUnits? r).map fun (n, r) => (Char.ofNat n, r)
  | _ => none

/-- The rest of a string after its opening quote; `acc` holds what was read, reversed. -/
def readString? : Nat → List Char → List Char → Option (String × List Char)
  | 0, _, _ => none
  | _ + 1, _, [] => none
  | fuel + 1, acc, c :: cs =>
    if c = '"' then some (String.ofList acc.reverse, cs)
    else if c = '\\' then
      match readEscape? cs with
      | some (c, r) => readString? fuel (c :: acc) r
      | none => none
    else if c.toNat < 0x20 then none
    else readString? fuel (c :: acc) cs

/-- The sign of a number, if there is one, and the rest. -/
def readMinus : List Char → List Char × List Char
  | '-' :: r => (['-'], r)
  | r => ([], r)

/-- A fraction with its point, if there is one, and the rest. -/
def readFraction : List Char → List Char × List Char
  | '.' :: r =>
    let ds := r.takeWhile Char.isDigit
    if ds.isEmpty then ([], '.' :: r) else ('.' :: ds, r.dropWhile Char.isDigit)
  | r => ([], r)

/-- The sign of an exponent, if there is one, and the rest. -/
def readExponentSign : List Char → List Char × List Char
  | '+' :: r => (['+'], r)
  | '-' :: r => (['-'], r)
  | r => ([], r)

/-- An exponent with its mark, if there is one, and the rest. -/
def readExponent : List Char → List Char × List Char
  | m :: r =>
    if m = 'e' ∨ m = 'E' then
      let (s, r') := readExponentSign r
      let ds := r'.takeWhile Char.isDigit
      if ds.isEmpty then ([], m :: r) else (m :: s ++ ds, r'.dropWhile Char.isDigit)
    else ([], m :: r)
  | [] => ([], [])

/-- The characters of a number: sign, integer part without a leading zero, optional fraction,
optional exponent. Returns the whole lexeme and whether it has a fraction or an exponent. -/
def readNumeral? : Option (List Char × Bool × List Char) :=
  let (sign, cs) := readMinus cs
  match cs.takeWhile Char.isDigit with
  | [] => none
  | '0' :: _ :: _ => some (sign ++ ['0'], false, cs.drop 1)
  | whole =>
    let (frac, rest) := readFraction (cs.dropWhile Char.isDigit)
    let (x, rest) := readExponent rest
    some (sign ++ whole ++ frac ++ x, !(frac ++ x).isEmpty, rest)

def wholeValue : List Char → Int
  | '-' :: ds => -(Text.digitsValue 0 ds : Int)
  | ds => Text.digitsValue 0 ds

variable (rule : NumberRule)

def readNumber? (cs : List Char) : Option (Json × List Char) := do
  let (lexeme, fractional, rest) ← readNumeral? cs
  if fractional then
    let d ← Decimal.ofChars? lexeme
    match rule with
    | .binary => some (binary (Binary.ofDecimal d), rest)
    | .decimal => some (decimal d, rest)
  else some (int (wholeValue lexeme), rest)

def readWord? (word : String) (cs : List Char) : Option (List Char) :=
  if word.toList.isPrefixOf cs then some (cs.drop word.length) else none

def readName? (cs : List Char) : Option (Json × List Char) :=
  let named : Members :=
    [("null", null), ("true", bool true), ("false", bool false)] ++
      (if rule = .binary then
        [("NaN", binary (0.0 / 0.0)), ("Infinity", binary (1.0 / 0.0)),
         ("-Infinity", binary (-1.0 / 0.0))]
      else [])
  named.findSome? fun (word, value) => (readWord? word cs).map (value, ·)

mutual

def readValue? (rule : NumberRule) : Nat → List Char → Option (Json × List Char)
  | 0, _ => none
  | fuel + 1, cs =>
    match skipSpace cs with
    | [] => none
    | c :: r =>
      if c = '"' then (readString? (r.length + 1) [] r).map fun (s, r) => (str s, r)
      else if c = '[' then
        match skipSpace r with
        | ']' :: r => some (arr [], r)
        | r => readItems? rule fuel [] r
      else if c = '\x7b' then
        match skipSpace r with
        | '\x7d' :: r => some (obj [], r)
        | r => readMembers? rule fuel [] r
      else (readName? rule (c :: r)).orElse fun _ => readNumber? rule (c :: r)

/-- The items of an array up to its closing bracket; `acc` holds the items read, reversed. -/
def readItems? (rule : NumberRule) : Nat → List Json → List Char → Option (Json × List Char)
  | 0, _, _ => none
  | fuel + 1, acc, cs =>
    match readValue? rule fuel cs with
    | none => none
    | some (v, r) =>
      match skipSpace r with
      | ',' :: r => readItems? rule fuel (v :: acc) r
      | ']' :: r => some (arr (v :: acc).reverse, r)
      | _ => none

/-- The members of an object up to its closing brace; `acc` holds the members read, reversed. -/
def readMembers? (rule : NumberRule) :
    Nat → Members → List Char → Option (Json × List Char)
  | 0, _, _ => none
  | fuel + 1, acc, cs =>
    match skipSpace cs with
    | '"' :: r =>
      match readString? (r.length + 1) [] r with
      | none => none
      | some (k, r) =>
        match skipSpace r with
        | ':' :: r =>
          match readValue? rule fuel r with
          | none => none
          | some (v, r) =>
            match skipSpace r with
            | ',' :: r => readMembers? rule fuel ((k, v) :: acc) r
            | '\x7d' :: r => some (obj (merge [] ((k, v) :: acc).reverse), r)
            | _ => none
        | _ => none
    | _ => none

end

def parse? (t : String) : Option Json :=
  let cs := t.toList
  match readValue? rule (2 * cs.length + 2) cs with
  | some (v, r) => if (skipSpace r).isEmpty then some v else none
  | none => none

end AtomArray.Json
