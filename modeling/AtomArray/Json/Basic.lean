import AtomArray.Number.Binary

/-!
JSON values. Numbers are integers, or numbers with a fraction or exponent, which are kept as binary
numbers or as the decimals they are written as. `Json.insert` replaces a member in place, so that
the last writing of a key wins and the first decides its position.
-/

namespace AtomArray

inductive Json where
  | null
  | bool (b : Bool)
  | int (i : Int)
  | binary (x : Float)
  | decimal (d : Decimal)
  | str (s : String)
  | arr (items : List Json)
  | obj (members : List (String × Json))

abbrev Members := List (String × Json)

namespace Json

variable {α : Type}

/-- Puts a member into an association list: in place if the key occurs, else at the end. -/
def insert (key : String) (value : α) : List (String × α) → List (String × α)
  | [] => [(key, value)]
  | (k, v) :: rest => if k = key then (k, value) :: rest else (k, v) :: insert key value rest

/-- The members of an association list with the last writing of each key. -/
def merge (base extra : List (String × α)) : List (String × α) :=
  extra.foldl (fun m kv => insert kv.1 kv.2 m) base

def get? (j : Json) (key : String) : Option Json :=
  match j with
  | obj members => members.lookup key
  | _ => none

def getD (j : Json) (key : String) : Json := (j.get? key).getD null

def members : Json → Members
  | obj ms => ms
  | _ => []

def items : Json → List Json
  | arr xs => xs
  | _ => []

def str? : Json → Option String
  | str s => some s
  | _ => none

def int? : Json → Option Int
  | int i => some i
  | _ => none

def nat? : Json → Option Nat
  | int i => if i < 0 then none else some i.toNat
  | _ => none

def bool? : Json → Option Bool
  | bool b => some b
  | _ => none

def isNull : Json → Bool
  | null => true
  | _ => false

def ofOption (f : α → Json) : Option α → Json
  | some a => f a
  | none => null

def ofNat (n : Nat) : Json := int n

def hex4 (n : Nat) : String :=
  let ds := Nat.toDigits 16 n
  String.ofList (List.replicate (4 - ds.length) '0' ++ ds)

/-- The escape of a code point outside the plain range, in UTF-16 units. -/
def unitEscape (n : Nat) : String :=
  if n < 0x10000 then "\\u" ++ hex4 n
  else
    let v := n - 0x10000
    "\\u" ++ hex4 (0xd800 + v / 0x400) ++ "\\u" ++ hex4 (0xdc00 + v % 0x400)

def charText (c : Char) : String :=
  if c = '"' then "\\\""
  else if c = '\\' then "\\\\"
  else if c = '\n' then "\\n"
  else if c = '\r' then "\\r"
  else if c = '\t' then "\\t"
  else if c = '\x08' then "\\b"
  else if c = '\x0c' then "\\f"
  else if c.toNat < 0x20 ∨ 0x7e < c.toNat then unitEscape c.toNat
  else c.toString

def quoted (s : String) : String :=
  if s.all fun c => 0x20 ≤ c.toNat && c.toNat < 0x7f && c ≠ '"' && c ≠ '\\' then
    "\"" ++ s ++ "\""
  else "\"" ++ String.join (s.toList.map charText) ++ "\""

/-- A binary number; the values outside the reals have names. -/
def binaryText (x : Float) : String :=
  if x.isNaN then "NaN"
  else if x.isInf then (if Binary.isNegative x then "-Infinity" else "Infinity")
  else Binary.text x

mutual

def text : Json → String
  | null => "null"
  | bool b => if b then "true" else "false"
  | int i => toString i
  | binary x => binaryText x
  | decimal d => d.text
  | str s => quoted s
  | arr xs => "[" ++ Text.joined ", " (texts xs) ++ "]"
  | obj ms => "\x7b" ++ Text.joined ", " (memberTexts ms) ++ "\x7d"

def texts : List Json → List String
  | [] => []
  | x :: xs => text x :: texts xs

def memberTexts : Members → List String
  | [] => []
  | (k, v) :: ms => (quoted k ++ ": " ++ text v) :: memberTexts ms

end

end Json

end AtomArray
