import AtomArray.Waveform.Text

/-!
Fields: waveforms that drive the atoms, one for every spatial modulation, which says how strongly it
acts on each atom: on all alike, by a vector of coefficients (named, or bound to numbers), or on
chosen locations with a scale each. `Field.canon` merges the scaled locations of one waveform, and
`Field.plus` adds the waveforms of a common modulation.
-/

namespace AtomArray

/-- The scales of chosen locations, in the order in which they were given. -/
abbrev Scales (N : Type) := List (Int × Scalar N)

inductive Modulation (N : Type) where
  | uniform
  | vector (name : String)
  | boundVector (name : Option String) (values : List N)
  | scaled (scales : Scales N)

variable {N : Type} [Arith N]

namespace Scales

/-- Sets the scale of a location; a location that has one keeps its position. -/
def insert (k : Int) (e : Scalar N) : Scales N → Scales N
  | [] => [(k, e)]
  | (j, d) :: rest => if j = k then (k, e) :: rest else (j, d) :: insert k e rest

/-- The scales that a list of pairs gives; a later pair replaces an earlier one. -/
def ofPairs (ps : List (Int × Scalar N)) : Scales N :=
  ps.foldl (fun acc p => insert p.1 p.2 acc) []

def same (a b : Scales N) : Bool :=
  a.length == b.length && a.all fun (k, e) =>
    match b.lookup k with
    | some d => e.same d
    | none => false

/-- The scales of two modulations with those of a common location added. -/
def merge (a : Scales N) : Scales N → Outcome (Scales N)
  | [] => .ok a
  | (k, e) :: rest => do
    let sum ← match a.lookup k with
      | some d => d.plus e
      | none => Scalar.plus (.const 0) e
    merge (insert k sum a) rest

end Scales

namespace Modulation

def same : Modulation N → Modulation N → Bool
  | uniform, uniform => true
  | vector m, vector n => m == n
  | boundVector m xs, boundVector n ys => m == n && sameList Arith.same xs ys
  | scaled a, scaled b => a.same b
  | _, _ => false

/-- The scales of chosen locations, if the modulation gives them. -/
def scales? : Modulation N → Option (Scales N)
  | scaled s => some s
  | _ => none

def scalarNames : Modulation N → List String
  | scaled s => s.flatMap fun p => p.2.names
  | _ => []

/-- The names of coefficient vectors; a bound vector may be without one. -/
def vectorNames : Modulation N → List (Option String)
  | vector n => [some n]
  | boundVector n _ => [n]
  | _ => []

def hasTermSet : Modulation N → Bool
  | scaled s => s.any fun p => p.2.hasTermSet
  | _ => false

/-- The numbers that a record keeps of a supplied list. -/
def storedVector : Param N → Outcome (List N)
  | .list xs => xs.mapM Param.stored?
  | _ => .error .refused

/-- How the values of a bound vector are written in an explanation. -/
def vectorText (values : List N) : String :=
  "[" ++ String.intercalate ", " (values.map fun v => "Decimal('" ++ Arith.text v ++ "')") ++ "]"

def assign (env : Env N) : Modulation N → Outcome (Modulation N)
  | uniform => .ok uniform
  | vector n =>
    match env.lookup n with
    | some p => do return boundVector (some n) (← storedVector p)
    | none => .ok (vector n)
  | boundVector name values =>
    match name with
    | some n =>
      if env.has n then .error (.reassigned n (vectorText values))
      else .ok (boundVector name values)
    | none => .ok (boundVector name values)
  | scaled s => do return scaled (← s.mapM fun (k, e) => do return (k, ← e.assign env))

/-- What a modulation is shown with: the names of its parts, and the weight of each as text. -/
def shares (env : Env N) : Modulation N → Outcome (List (Option String) × List String)
  | uniform => .ok ([some "uni"], ["all"])
  | vector n => .ok ([some n], ["vec"])
  | boundVector n _ => .ok ([n], ["vec"])
  | scaled s => do
    let weights ← s.mapM fun (_, e) => do return Arith.text (← e.eval env)
    return (s.map fun (k, _) => some s!"loc[{k}]", weights)

/-! ### Text -/

def locationText (k : Int) : String := s!"Location({k})"

/-- The picture of a modulation. The values of a bound vector have none. -/
def tree : Modulation N → Tree
  | uniform => .leaf "UniformModulation"
  | vector n => .branch "RunTimeVector" [.text n]
  | boundVector n vs =>
    .branch "AssgiendRunTimeVector"
      ((match n with
        | some n => Tree.text n
        | none => .broken .part) :: vs.map fun _ => .broken .part)
  | scaled s => .named "ScaledLocations" (s.map fun (k, e) => (locationText k, e.tree))

/-- The saved form of a modulation; only vectors have one. -/
def saved : Modulation N → Outcome Json
  | uniform => .error (.plain .notImplemented)
  | vector n => .ok (.obj [("run_time_vector", .obj [("name", .str n)])])
  | boundVector n vs =>
    .ok (.obj [("assigned_run_time_vector", .obj [("name", Json.ofOption .str n),
      ("value", .arr (vs.map fun v => .str (Arith.text v)))])])
  | scaled _ => .error .part

end Modulation

abbrev Drive (N : Type) := Modulation N × Waveform N

/-- The drives of a field, in the order in which they were given. -/
structure Field (N : Type) where
  drives : List (Drive N)

namespace Field

def find? (m : Modulation N) (f : Field N) : Option (Waveform N) :=
  (f.drives.find? fun d => d.1.same m).map (·.2)

/-- The drives with the waveform of a modulation set; a modulation that has one keeps its
position. -/
def insertDrive (m : Modulation N) (w : Waveform N) : List (Drive N) → List (Drive N)
  | [] => [(m, w)]
  | (m', w') :: rest =>
    if m'.same m then (m', w) :: rest else (m', w') :: insertDrive m w rest

def insert (m : Modulation N) (w : Waveform N) (f : Field N) : Field N :=
  ⟨insertDrive m w f.drives⟩

/-- The field of a list of drives; a later drive of an equal modulation replaces an earlier. -/
def ofDrives (ds : List (Drive N)) : Field N :=
  ds.foldl (fun f d => f.insert d.1 d.2) ⟨[]⟩

def same (a b : Field N) : Bool :=
  a.drives.length == b.drives.length && a.drives.all fun (m, w) =>
    match b.find? m with
    | some v => w.same v
    | none => false

/-! ### Canonical form and sum -/

/-- The modulations of one waveform. -/
abbrev Group (N : Type) := Waveform N × List (Modulation N)

def addToGroup (m : Modulation N) (w : Waveform N) : List (Group N) → List (Group N)
  | [] => [(w, [m])]
  | (v, ms) :: rest =>
    if v.same w then (v, ms ++ [m]) :: rest else (v, ms) :: addToGroup m w rest

variable (f : Field N)

def groups : List (Group N) :=
  f.drives.foldl (fun gs d => addToGroup d.1 d.2 gs) []

/-- The modulations of a group with all scaled locations merged into one at the end. -/
def mergeScaled (ms : List (Modulation N)) : Outcome (List (Modulation N)) := do
  let others := ms.filter fun m => m.scales?.isNone
  let merged ← (ms.filterMap Modulation.scales?).foldlM Scales.merge []
  return if merged.isEmpty then others else others ++ [.scaled merged]

def canon : Outcome (Field N) := do
  let ds ← f.groups.mapM fun (w, ms) => do return (← mergeScaled ms).map (·, w)
  return ofDrives ds.flatten

/-- Adds one drive: the waveforms of a common modulation are added. -/
def addDrive (d : Modulation N × Waveform N) : Outcome (Field N) := do
  match f.find? d.1 with
  | some w => return f.insert d.1 (← w.plus d.2)
  | none => return f.insert d.1 d.2

def plus (f g : Field N) : Outcome (Field N) := do
  (← g.drives.foldlM addDrive f).canon

/-! ### Analyses -/

def scalarNames (f : Field N) : List String :=
  f.drives.flatMap (fun d => d.1.scalarNames) ++ f.drives.flatMap fun d => d.2.names

def vectorNames (f : Field N) : List (Option String) := f.drives.flatMap fun d => d.1.vectorNames

def hasTermSet (f : Field N) : Bool := f.drives.any fun d => d.1.hasTermSet || d.2.hasTermSet

def scanRecords (env : Env N) (f : Field N) : Outcome (Env N) :=
  f.drives.foldlM (fun env d => d.2.scanRecords env) env

def assign (env : Env N) (f : Field N) : Outcome (Field N) := do
  return ofDrives (← f.drives.mapM fun (m, w) => do
    let m ← m.assign env
    return (m, ← w.assign env))

/-! ### Text -/

def driveTree (d : Modulation N × Waveform N) : Tree :=
  .named "Drive" [("modulation", d.1.tree), ("waveform", d.2.tree)]

def tree : Tree := .branch "Field" (f.drives.map driveTree)

def saved (f : Field N) : Outcome Json := do
  let ds ← f.drives.mapM fun (m, w) => do
    let m ← m.saved
    return Json.arr [m, ← w.saved]
  return .obj [("field", .obj [("value", .arr ds)])]

end Field

end AtomArray
