import AtomArray.Wire.Circuit
import AtomArray.Fingerprint

/-!
The things that a request can show, describe or compare: a value of any sort that circuits are
made of, or a plain value that is none of these.
-/

namespace AtomArray.Wire

open Fingerprint

inductive Subject where
  | scalar (e : Scalar)
  | interval (i : Interval Quantity)
  | waveform (w : Waveform)
  | modulation (m : Modulation Quantity)
  | anyModulation
  | location (k : Int)
  | drive (m : Modulation Quantity) (w : Waveform)
  | field (f : Field)
  | fieldName (n : FieldName)
  | rabi
  | pulse (p : Pulse)
  | coupling (c : Coupling)
  | sequence (s : Sequence Quantity)
  | site (s : Site Quantity)
  | register (a : Arrangement Quantity)
  | circuit (c : Circuit Quantity)
  | plain (j : Json)

/-- The number that a plain value is, truth values counting as zero and one. -/
def plainNumber? : Json → Option Float
  | .bool b => some (if b then 1.0 else 0.0)
  | .int i => some (Float.ofInt i)
  | .binary x => some x
  | _ => none

mutual

/-- Equality of plain values: numbers by value, and members in any order. -/
def plainSame : Json → Json → Bool
  | .null, .null => true
  | .str a, .str b => a == b
  | .int a, .int b => a == b
  | .arr as, .arr bs => plainSameAll as bs
  | .obj as, .obj bs => as.length == bs.length && plainSameMembers as bs
  | a, b =>
    match plainNumber? a, plainNumber? b with
    | some x, some y => x == y
    | _, _ => false

def plainSameAll : List Json → List Json → Bool
  | [], [] => true
  | a :: as, b :: bs => plainSame a b && plainSameAll as bs
  | _, _ => false

def plainSameMembers : Members → Members → Bool
  | [], _ => true
  | (k, a) :: as, bs =>
    (match bs.lookup k with
      | some b => plainSame a b
      | none => false) && plainSameMembers as bs

end

namespace Subject

def hasTermSet : Subject → Bool
  | scalar e => e.hasTermSet
  | interval i => i.hasTermSet
  | waveform w => w.hasTermSet
  | modulation m => m.hasTermSet
  | drive m w => m.hasTermSet || w.hasTermSet
  | field f => f.hasTermSet
  | pulse p => p.hasTermSet
  | sequence s => s.hasTermSet
  | site s => s.x.hasTermSet || s.y.hasTermSet
  | register a => a.hasTermSet
  | circuit c => c.hasTermSet
  | _ => false

def tree : Subject → Tree
  | scalar e => e.tree
  | interval i => i.tree
  | waveform w => w.tree
  | modulation m => m.tree
  | anyModulation => .broken .part
  | location k => .leaf (Modulation.locationText k)
  | drive m w => Field.driveTree (m, w)
  | field f => f.tree
  | fieldName n => .leaf n.label
  | rabi => .named "RabiRouter" [("Amplitude", .leaf FieldName.amplitude.label),
      ("Phase", .leaf FieldName.phase.label)]
  | pulse p => p.tree
  | coupling c => .leaf c.label
  | sequence s => s.tree
  | site s => s.tree
  | register a => a.tree
  | circuit c => c.tree
  | plain _ => .broken .part

def label : Subject → Outcome String
  | waveform (.smooth ..) => .error (.plain .notImplemented)
  | interval _ => .ok "Interval"
  | register (.plain _) => .ok "AtomArrangement"
  | s =>
    match s.tree with
    | .node label .. => .ok label
    | _ => .error .part

def isShownAlone : Subject → Bool
  | drive .. | site _ | plain _ | register (.tiled _) => false
  | _ => true

mutual

def plainInside : Json → String
  | .str s => Text.quoted s
  | .null => "None"
  | .bool b => if b then "True" else "False"
  | .int i => toString i
  | .binary x => Binary.text x
  | .decimal d => d.text
  | .arr xs => Described.list (xs.map fun x => plainInside x)
  | .obj ms => Described.table (plainMembers ms)

def plainMembers : Members → List (String × String)
  | [] => []
  | (k, v) :: ms => (Text.quoted k, plainInside v) :: plainMembers ms

end

def described : Subject → String
  | scalar e => e.described
  | interval i => i.described
  | waveform w => w.described
  | modulation m => m.described
  | anyModulation => "SpatialModulation()"
  | location k => describedLocation k
  | drive m w => describedDrive (m, w)
  | field f => f.described
  | fieldName n => n.label ++ "()"
  | rabi => "RabiRouter()"
  | pulse p => p.described
  | coupling c => c.label ++ "()"
  | sequence s => s.described
  | site s => s.described
  | register a => a.described
  | circuit c => c.described
  | plain j => plainInside j

def text : Subject → Outcome String
  | scalar e => e.text
  | interval i => i.text
  | location k => .ok (Modulation.locationText k)
  | register (.plain r) => r.shownText
  | circuit c => c.text
  | plain (.str s) => .ok s
  | s => if s.isShownAlone then s.tree.render else .ok s.described

/-- Equality of values; values of different sorts differ. -/
def same : Subject → Subject → Bool
  | scalar a, scalar b => a.same b
  | interval a, interval b => a.same b
  | waveform a, waveform b => a.same b
  | modulation a, modulation b => a.same b
  | anyModulation, anyModulation => true
  | location a, location b => a == b
  | drive m w, drive m' w' => m.same m' && w.same w'
  | field a, field b => a.same b
  | fieldName a, fieldName b => a == b
  | rabi, rabi => true
  | pulse a, pulse b => a.same b
  | coupling a, coupling b => a == b
  | sequence a, sequence b => a.same b
  | site a, site b => a.same b
  | register a, register b => a.same b
  | circuit a, circuit b => a.same b
  | plain a, plain b => plainSame a b
  | _, _ => false

/-- The fingerprint of a plain value; lists and records have none. -/
def plainFingerprint : Json → Outcome String
  | .arr _ | .obj _ => .error .type
  | .int i => .ok (ofInt i)
  | .bool b => .ok (ofInt (if b then 1 else 0))
  | .binary x => .ok (ofDecimal (Binary.exact x))
  | j => .ok (plainInside j)

def fingerprint : Subject → Outcome String
  | scalar e => .ok e.fingerprint
  | interval i => .ok i.fingerprint
  | waveform w => .ok w.fingerprint
  | modulation m => .ok m.fingerprint
  | anyModulation => .error (.plain .notImplemented)
  | location k => .ok (locationFingerprint k)
  | field f => .ok f.fingerprint
  | fieldName _ | coupling _ => .ok (ofParts [])
  | rabi => .ok "rabi"
  | plain j => plainFingerprint j
  | drive .. | pulse _ | sequence _ | site _ | register _ | circuit _ => .error .type

end Subject

/-- The setting after a call that asks for it or sets it, which fails if there is none yet. -/
def depthSetting (setting : Option Json) (call : Json) : Outcome (Json × Option Json) := do
  let v ← match call with
    | .arr [] | .arr [.null] => required .part setting
    | .arr [v] => .ok v
    | _ => .error .type
  return (v, some v)

end AtomArray.Wire
