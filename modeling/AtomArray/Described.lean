import AtomArray.Circuit

/-!
Full descriptions: every part of a value under its name, also what trees and texts leave out, such
as the sort of a number. Text stands in single quotes unless it has a single and no double one.
-/

namespace AtomArray

namespace Text

def quoteMark (cs : List Char) : Char :=
  if cs.contains '\'' && !cs.contains '"' then '"' else '\''

def twoHex (n : Nat) : List Char := [Nat.digitChar (n / 16), Nat.digitChar (n % 16)]

def quotedChar (mark c : Char) : List Char :=
  if c = mark ∨ c = '\\' then ['\\', c]
  else if c = '\n' then ['\\', 'n']
  else if c = '\r' then ['\\', 'r']
  else if c = '\t' then ['\\', 't']
  else if c.toNat < 0x20 ∨ (0x7f ≤ c.toNat ∧ c.toNat < 0xa1) ∨ c.toNat = 0xad then
    '\\' :: 'x' :: twoHex c.toNat
  else [c]

def quoted (s : String) : String :=
  let mark := quoteMark s.toList
  String.ofList (mark :: s.toList.flatMap (quotedChar mark) ++ [mark])

end Text

namespace Described

def withParts (name : String) (parts : List (String × String)) : String :=
  name ++ "(" ++ String.intercalate ", " (parts.map fun (k, v) => k ++ "=" ++ v) ++ ")"

def list (items : List String) : String := "[" ++ String.intercalate ", " items ++ "]"

/-- A tuple; a single item is followed by a comma. -/
def tuple : List String → String
  | [a] => "(" ++ a ++ ",)"
  | items => "(" ++ String.intercalate ", " items ++ ")"

def table (entries : List (String × String)) : String :=
  "\x7b" ++ String.intercalate ", " (entries.map fun (k, v) => k ++ ": " ++ v) ++ "\x7d"

def set (items : List String) : String :=
  "frozenset(\x7b" ++ String.intercalate ", " items ++ "\x7d)"

/-- One of several named choices, with the value that it stands for. -/
def choice (name value : String) : String := "<" ++ name ++ ": " ++ value ++ ">"

end Described

open Described (withParts list tuple table set choice)

def Quantity.described : Quantity → String
  | decimal d => "Decimal('" ++ d.text ++ "')"
  | binary x => Binary.text x

namespace Scalar

mutual

def described : Scalar Quantity → String
  | lit v => withParts "Literal" [("value", v.described)]
  | var n => withParts "Variable" [("name", Text.quoted n)]
  | assigned n v => withParts "AssignedVariable" [("name", Text.quoted n), ("value", v.described)]
  | neg e => withParts "Negative" [("expr", described e)]
  | add a b => withParts "Add" [("lhs", described a), ("rhs", described b)]
  | mul a b => withParts "Mul" [("lhs", described a), ("rhs", described b)]
  | div a b => withParts "Div" [("lhs", described a), ("rhs", described b)]
  | min es => withParts "Min" [("exprs", set (describedAll es))]
  | max es => withParts "Max" [("exprs", set (describedAll es))]
  | slice e a b => withParts "Slice" [("expr", described e), ("interval",
      withParts "Interval" [("start", describedBound a), ("stop", describedBound b)])]

def describedAll : List (Scalar Quantity) → List String
  | [] => []
  | e :: es => described e :: describedAll es

def describedBound : Option (Scalar Quantity) → String
  | none => "None"
  | some e => described e

end

end Scalar

def Interval.described (i : Interval Quantity) : String :=
  withParts "Interval" [("start", Scalar.describedBound i.start),
    ("stop", Scalar.describedBound i.stop)]

namespace Waveform

def describedAlignment : Alignment → String
  | .left => choice "Alignment.Left" (Text.quoted Alignment.left.name)
  | .right => choice "Alignment.Right" (Text.quoted Alignment.right.name)

def describedValue : AlignedValue Quantity → String
  | .scalar e => e.described
  | .left => choice "AlignedValue.Left" "'left_value'"
  | .right => choice "AlignedValue.Right" "'right_value'"

def describedInterpolation : Interpolation → String
  | .linear => choice "Interpolation.Linear" "'linear'"
  | .constant => choice "Interpolation.Constant" "'constant'"

mutual

def described : Waveform Quantity → String
  | linear a b d =>
    withParts "Linear" [("start", a.described), ("stop", b.described), ("duration", d.described)]
  | constant v d => withParts "Constant" [("value", v.described), ("duration", d.described)]
  | poly cs d =>
    withParts "Poly" [("coeffs", tuple (Scalar.describedAll cs)), ("duration", d.described)]
  | profile f d ps ds =>
    withParts "PythonFn" [("fn", f.shownName), ("duration", d.described),
      ("parameters", list (Scalar.describedAll ps)),
      ("default_param_values", table (ds.map fun (k, v) => (Text.quoted k, v.described)))]
  | smooth r k w =>
    withParts "Smooth" [("radius", r.described), ("kernel", withParts k.name []),
      ("waveform", described w)]
  | slice w i => withParts "Slice" [("waveform", described w), ("interval", i.described)]
  | append ws => withParts "Append" [("waveforms", tuple (describedAll ws))]
  | neg w => withParts "Negative" [("waveform", described w)]
  | scale s w => withParts "Scale" [("scalar", s.described), ("waveform", described w)]
  | add a b => withParts "Add" [("left", described a), ("right", described b)]
  | record w n =>
    withParts "Record" [("waveform", described w), ("var", (Scalar.var n).described)]
  | sample w i dt =>
    withParts "Sample" [("waveform", described w),
      ("interpolation", describedInterpolation i), ("dt", dt.described)]
  | aligned w a v =>
    withParts "AlignedWaveform" [("waveform", described w),
      ("alignment", describedAlignment a), ("value", describedValue v)]

def describedAll : List (Waveform Quantity) → List String
  | [] => []
  | w :: ws => described w :: describedAll ws

end

end Waveform

def describedLocation (k : Int) : String := withParts "Location" [("value", toString k)]

def Modulation.described : Modulation Quantity → String
  | .uniform => "UniformModulation()"
  | .vector n => withParts "RunTimeVector" [("name", Text.quoted n)]
  | .boundVector n vs =>
    withParts "AssignedRunTimeVector" [("name", (n.map Text.quoted).getD "None"),
      ("value", list (vs.map Quantity.described))]
  | .scaled s =>
    withParts "ScaledLocations" [("value",
      table (s.map fun (k, e) => (describedLocation k, e.described)))]

def describedDrive (d : Modulation Quantity × Waveform Quantity) : String :=
  withParts "Drive" [("modulation", d.1.described), ("waveform", d.2.described)]

def Field.described (f : Field Quantity) : String :=
  withParts "Field" [("drives", table (f.drives.map fun (m, w) => (m.described, w.described)))]

def Pulse.described : Pulse Quantity → String := Bundle.fold {
  members := fun fs =>
    withParts "Pulse" [("fields", table (fs.map fun (n, f) => (n.label ++ "()", f.described)))]
  named := fun p n => withParts "NamedPulse" [("name", Text.quoted n), ("pulse", p)]
  append := fun ps => withParts "Append" [("pulses", list ps)]
  slice := fun p i => withParts "Slice" [("pulse", p), ("interval", i.described)] }

def Sequence.described : Sequence Quantity → String := Bundle.fold {
  members := fun ps =>
    withParts "Sequence" [("pulses", table (ps.map fun (c, p) => (c.label ++ "()", p.described)))]
  named := fun s n => withParts "NamedSequence" [("sequence", s), ("name", Text.quoted n)]
  append := fun ss => withParts "Append" [("sequences", list ss)]
  slice := fun s i => withParts "Slice" [("sequence", s), ("interval", i.described)] }

def Site.described (s : Site Quantity) : String :=
  withParts "LocationInfo" [("position", tuple [s.x.described, s.y.described]),
    ("filling", if s.filled then choice "SiteFilling.filled" "1"
      else choice "SiteFilling.vacant" "0")]

def Register.described : Register Quantity → String
  | .list ss => withParts "ListOfLocations" [("location_list", Described.list (ss.map Site.described))]
  | .lattice l s _ =>
    withParts l.name ([("shape", tuple (l.extent.map toString)), ("lattice_spacing", s.described)]
      ++ match l with
        | .rectangular _ _ r => [("ratio", r.described)]
        | _ => [])

def Arrangement.described : Arrangement Quantity → String
  | .plain r => r.described
  | .tiled t =>
    let pairs (ps : List (Scalar Quantity × Scalar Quantity)) : String :=
      list (ps.map fun (x, y) => list [x.described, y.described])
    withParts "ParallelRegister" [("register_locations", pairs t.locations),
      ("register_filling", list (t.filling.map fun b => if b then "1" else "0")),
      ("shift_vectors", pairs t.shifts)]

def Circuit.described (c : Circuit Quantity) : String :=
  withParts "AnalogCircuit" [("atom_arrangement", c.register.described),
    ("sequence", c.sequence.described)]

end AtomArray
