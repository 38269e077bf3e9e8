/-!
Character classes of number text: decimal digits of every script, which count with their value, and
blanks.
-/

namespace AtomArray.Text

/-- The zero of each script that has decimal digits; the other nine follow it. -/
def digitZeros : List Nat :=
  [0x30, 0x660, 0x6f0, 0x7c0, 0x966, 0x9e6, 0xa66, 0xae6, 0xb66, 0xbe6, 0xc66, 0xce6, 0xd66,
   0xde6, 0xe50, 0xed0, 0xf20, 0x1040, 0x1090, 0x17e0, 0x1810, 0x1946, 0x19d0, 0x1a80, 0x1a90,
   0x1b50, 0x1bb0, 0x1c40, 0x1c50, 0xa620, 0xa8d0, 0xa900, 0xa9d0, 0xa9f0, 0xaa50, 0xabf0,
   0xff10, 0x104a0, 0x10d30, 0x11066, 0x110f0, 0x11136, 0x111d0, 0x112f0, 0x11450, 0x114d0,
   0x11650, 0x116c0, 0x11730, 0x118e0, 0x11950, 0x11c50, 0x11d50, 0x11da0, 0x16a60, 0x16ac0,
   0x16b50, 0x1d7ce, 0x1d7d8, 0x1d7e2, 0x1d7ec, 0x1d7f6, 0x1e140, 0x1e2f0, 0x1e950, 0x1fbf0]

def digitValue? (c : Char) : Option Nat :=
  if c.isDigit then some (c.toNat - 0x30)
  else if c.toNat < 0x660 then none
  else (digitZeros.find? fun z => z ≤ c.toNat && c.toNat < z + 10).map (c.toNat - ·)

/-- Blanks: what may stand around a number and is dropped. -/
def isBlank (c : Char) : Bool :=
  let n := c.toNat
  (9 ≤ n && n ≤ 13) || (28 ≤ n && n ≤ 32) || n == 0x85 || n == 0xa0 || n == 0x1680 ||
    (0x2000 ≤ n && n ≤ 0x200a) || n == 0x2028 || n == 0x2029 || n == 0x202f || n == 0x205f ||
    n == 0x3000

/-- The text without the blanks at its two ends. -/
def trim (cs : List Char) : List Char :=
  ((cs.dropWhile isBlank).reverse.dropWhile isBlank).reverse

/-- The natural number that a run of digits writes, before `acc`. -/
def digitsValue (acc : Nat) : List Char → Nat
  | [] => acc
  | c :: cs => digitsValue (10 * acc + (digitValue? c).getD 0) cs

/-- Digits, with single underscores between them. -/
def isDigitRun : List Char → Bool
  | [] => false
  | [c] => (digitValue? c).isSome
  | c :: '_' :: cs => (digitValue? c).isSome && isDigitRun cs
  | c :: cs => (digitValue? c).isSome && isDigitRun cs

def whole? (t : String) : Option Int :=
  let run (neg : Bool) (cs : List Char) : Option Int :=
    if isDigitRun cs then
      let n := digitsValue 0 (cs.filter (· ≠ '_'))
      some (if neg then -(n : Int) else n)
    else none
  match trim t.toList with
  | '-' :: cs => run true cs
  | '+' :: cs => run false cs
  | cs => run false cs

def times (n : Nat) (s : String) : String := String.join (List.replicate n s)

/-- The pieces of a text with a separator between them. -/
def joined (sep : String) (parts : List String) : String := sep.intercalate parts

end AtomArray.Text
