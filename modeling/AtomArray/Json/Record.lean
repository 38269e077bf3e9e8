import AtomArray.Json.Basic
import AtomArray.Fault

/-!
Reading records from JSON: objects whose members have fixed types. Numbers may also be written as
text, a number with a fraction is cut where a whole number is asked for, and a whole number is taken
where text is. Members that a record does not know are ignored.
-/

namespace AtomArray.Json

open Binary

def asWhole : Json → Outcome Int
  | int i => .ok i
  | bool b => .ok (if b then 1 else 0)
  | binary x =>
    match (exact x).truncate? with
    | some i => .ok i
    | none => .error .refused
  | decimal d =>
    match d.truncate? with
    | some i => .ok i
    | none => .error .refused
  | str s =>
    match Text.whole? s with
    | some i => .ok i
    | none => .error .refused
  | _ => .error .refused

def finiteText (s : String) : Outcome Decimal :=
  match Decimal.ofText? s with
  | some d => if d.isFinite then .ok d else .error .refused
  | none => .error .refused

/-- A decimal; one that is read from anything but a decimal must be finite. -/
def asDecimal : Json → Outcome Decimal
  | decimal d => .ok d
  | int i => .ok (.ofInt i)
  | binary x => if x.isFinite then .ok (textDecimal x) else .error .refused
  | str s => finiteText s
  | _ => .error .refused

def asBinary : Json → Outcome Float
  | binary x => .ok x
  | int i => .ok (ofDecimal (.ofInt i))
  | bool b => .ok (if b then 1.0 else 0.0)
  | decimal d => .ok (ofDecimal d)
  | str s =>
    match ofText? s with
    | some x => .ok x
    | none => .error .refused
  | _ => .error .refused

def asText : Json → Outcome String
  | str s => .ok s
  | int i => .ok (toString i)
  | bool b => .ok (if b then "True" else "False")
  | binary x => .ok (Binary.text x)
  | decimal d => .ok d.text
  | _ => .error .refused

def flagText? (s : String) : Option Bool :=
  let s := s.toLower
  if ["1", "on", "t", "true", "y", "yes"].contains s then some true
  else if ["0", "off", "f", "false", "n", "no"].contains s then some false
  else none

def asFlag : Json → Outcome Bool
  | bool b => .ok b
  | int 0 => .ok false
  | int 1 => .ok true
  | binary x => if x == 0.0 then .ok false else if x == 1.0 then .ok true else .error .refused
  | decimal d =>
    if d.sameValue 0 then .ok false else if d.sameValue 1 then .ok true else .error .refused
  | str s =>
    match flagText? s with
    | some b => .ok b
    | none => .error .refused
  | _ => .error .refused

variable {α : Type}

def asList (item : Json → Outcome α) : Json → Outcome (List α)
  | arr xs => xs.mapM item
  | _ => .error .refused

def asPair (item : Json → Outcome α) : Json → Outcome (α × α)
  | arr [x, y] => do
    let a ← item x
    return (a, ← item y)
  | _ => .error .refused

def asOptional (item : Json → Outcome α) : Json → Outcome (Option α)
  | null => .ok none
  | j => (item j).map some

def asObject : Json → Outcome Members
  | obj ms => .ok ms
  | _ => .error .refused

def field (key : String) (read : Json → Outcome α) (j : Json) : Outcome α := do
  match (← asObject j).lookup key with
  | some v => read v
  | none => throw .refused

def optionalField (key : String) (read : Json → Outcome α) (j : Json) : Outcome (Option α) := do
  match (← asObject j).lookup key with
  | some v => asOptional read v
  | none => return none

/-- A member that goes by two names, the first of which wins. -/
def fieldOr (key other : String) (read : Json → Outcome α) (j : Json) : Outcome α := do
  let ms ← asObject j
  match ms.lookup key <|> ms.lookup other with
  | some v => read v
  | none => throw .refused

end AtomArray.Json
