import AtomArray.Described

/-!
Fingerprints: what values are looked up by. Equal values have equal fingerprints. That of a formula
or waveform does not tell the operation, so a sum and a product of the same two terms share one.
Pulses, sequences and registers can change and have none.
-/

namespace AtomArray

namespace Fingerprint

def ofParts (parts : List String) : String := "(" ++ String.intercalate "," parts ++ ")"

def ofSet (parts : List String) : String :=
  let sorted := parts.mergeSort fun a b => decide (a ≤ b)
  "\x7b" ++ String.intercalate "," sorted.eraseDups ++ "\x7d"

/-- A coefficient without the zeros at its end, and the exponent that makes up for them. The first
argument bounds the number of zeros. -/
def stripZeros : Nat → Nat → Int → Nat × Int
  | 0, c, e => (c, e)
  | fuel + 1, c, e => if c ≠ 0 ∧ c % 10 = 0 then stripZeros fuel (c / 10) (e + 1) else (c, e)

/-- The fingerprint of a number: numbers of equal value have the same. -/
def ofDecimal : Decimal → String
  | .finite negative c e =>
    if c = 0 then "0"
    else
      let (c, e) := stripZeros c c e
      (if negative then "-" else "") ++ s!"{c}e{e}"
  | d => d.text

def ofInt (i : Int) : String := ofDecimal (.ofInt i)

end Fingerprint

open Fingerprint (ofParts ofSet)

def Quantity.fingerprint (q : Quantity) : String := Fingerprint.ofDecimal q.exact

namespace Scalar

mutual

def fingerprint : Scalar Quantity → String
  | lit v => ofParts [v.fingerprint]
  | var n => ofParts [Text.quoted n]
  | assigned n v => ofParts [Text.quoted n, v.fingerprint]
  | neg e => ofParts [fingerprint e]
  | add a b => ofParts [fingerprint a, fingerprint b]
  | mul a b => ofParts [fingerprint a, fingerprint b]
  | div a b => ofParts [fingerprint a, fingerprint b]
  | min es => ofParts [ofSet (fingerprints es)]
  | max es => ofParts [ofSet (fingerprints es)]
  | slice e a b => ofParts [fingerprint e, ofParts [boundFingerprint a, boundFingerprint b]]

def fingerprints : List (Scalar Quantity) → List String
  | [] => []
  | e :: es => fingerprint e :: fingerprints es

def boundFingerprint : Option (Scalar Quantity) → String
  | none => "None"
  | some e => fingerprint e

end

end Scalar

def Interval.fingerprint (i : Interval Quantity) : String :=
  ofParts [Scalar.boundFingerprint i.start, Scalar.boundFingerprint i.stop]

namespace Waveform

mutual

def fingerprint : Waveform Quantity → String
  | linear a b d => ofParts [a.fingerprint, b.fingerprint, d.fingerprint]
  | constant v d => ofParts [v.fingerprint, d.fingerprint]
  | poly cs d => ofParts [ofParts (Scalar.fingerprints cs), d.fingerprint]
  | profile f d ps ds =>
    "profile" ++ ofParts [f.name, d.fingerprint, ofParts (Scalar.fingerprints ps),
      ofSet (ds.map fun (k, v) => ofParts [Text.quoted k, v.fingerprint])]
  | smooth r _ w => ofParts [r.fingerprint, ofParts [], fingerprint w]
  | slice w i => ofParts [fingerprint w, i.fingerprint]
  | append ws => ofParts [ofParts (fingerprints ws)]
  | neg w => ofParts [fingerprint w]
  | scale s w => ofParts [s.fingerprint, fingerprint w]
  | add a b => ofParts [fingerprint a, fingerprint b]
  | record w n => ofParts [fingerprint w, (Scalar.var n).fingerprint]
  | sample w i dt => ofParts [fingerprint w, Text.quoted i.name, dt.fingerprint]
  | aligned w a v => ofParts [fingerprint w, Text.quoted a.name,
      match v with
      | .scalar e => e.fingerprint
      | v => describedValue v]

def fingerprints : List (Waveform Quantity) → List String
  | [] => []
  | w :: ws => fingerprint w :: fingerprints ws

end

end Waveform

def locationFingerprint (k : Int) : String := ofParts [Fingerprint.ofInt k]

def Modulation.fingerprint : Modulation Quantity → String
  | .uniform => "uniform"
  | .vector n => "vector" ++ Text.quoted n
  | .boundVector n vs =>
    "bound" ++ (n.map Text.quoted).getD "None" ++ ofParts (vs.map Quantity.fingerprint)
  | .scaled s =>
    "scaled" ++ ofSet (s.map fun (k, e) => ofParts [locationFingerprint k, e.fingerprint])

def Field.fingerprint (f : Field Quantity) : String :=
  "field" ++ ofSet (f.drives.map fun (m, w) => ofParts [m.fingerprint, w.fingerprint])

end AtomArray
