import AtomArray.Emulator.Evolve
import AtomArray.Json.Record
import AtomArray.Hardware.Spec

/-!
Results of tasks, and the shots of many tasks in one table.

Each run of a program is a shot with two readings of the atoms, one bit an atom: before the program,
which shows the atoms that were there, and after it. A row of a report is what one cluster of atoms
read after the program in one completed shot; a view can be restricted to the rows in which the
atoms that were there are the ones asked for.
-/

namespace AtomArray

open Json

/-- One bit for every site. -/
abbrev Bits := List Bool

def Bits.text (bs : Bits) : String := String.ofList (bs.map fun b => if b then '1' else '0')

/-- Which readings a shot has. -/
inductive ShotStatus where
  | completed
  | missingBefore
  | missingAfter
  | missingBoth
  deriving DecidableEq

namespace ShotStatus

def name : ShotStatus → String
  | completed => "Completed"
  | missingBefore => "MissingPreSequence"
  | missingAfter => "MissingPostSequence"
  | missingBoth => "MissingMeasurement"

def all : List ShotStatus := [completed, missingBefore, missingAfter, missingBoth]

def ofName? (s : String) : Option ShotStatus := all.find? (·.name = s)

end ShotStatus

/-- How far a task has come. -/
inductive TaskStatus where
  | created
  | running
  | completed
  | failed
  | cancelled
  | executing
  | enqueued
  | accepted
  | unaccepted
  | partlyDone
  | unsubmitted
  deriving DecidableEq

namespace TaskStatus

def name : TaskStatus → String
  | created => "Created"
  | running => "Running"
  | completed => "Completed"
  | failed => "Failed"
  | cancelled => "Cancelled"
  | executing => "Executing"
  | enqueued => "Enqueued"
  | accepted => "Accepted"
  | unaccepted => "Unaccepted"
  | partlyDone => "Partial"
  | unsubmitted => "Unsubmitted"

/-- The statuses that results written in the first format may have. -/
def first : List TaskStatus := [created, running, completed, failed, cancelled]

def all : List TaskStatus :=
  first ++ [executing, enqueued, accepted, unaccepted, partlyDone, unsubmitted]

def ofName? (s : String) : Option TaskStatus := all.find? (·.name = s)

def ofName (s : String) : Outcome TaskStatus :=
  match ofName? s with
  | some c => .ok c
  | none => .error .value

/-- The statuses after which a task does not change any more. -/
def isFinal : TaskStatus → Bool
  | completed | partlyDone | failed | unaccepted | cancelled => true
  | _ => false

end TaskStatus

structure Shot where
  status : ShotStatus
  before : Bits
  after : Bits
  deriving DecidableEq

structure TaskResults where
  status : TaskStatus
  shots : List Shot := []
  deriving DecidableEq

variable {α : Type}

/-- Counts one more of something; new things are counted last. -/
def tally [DecidableEq α] (a : α) : List (α × Nat) → List (α × Nat)
  | [] => [(a, 1)]
  | (b, n) :: rest => if b = a then (b, n + 1) :: rest else (b, n) :: tally a rest

/-- How often each thing occurs, in the order of first occurrence. -/
def tallies [DecidableEq α] (xs : List α) : List (α × Nat) :=
  xs.foldl (fun counts a => tally a counts) []

namespace TaskResults

/-- The share of each pair of readings among the shots. -/
def probabilities (r : TaskResults) : List ((Bits × Bits) × Float) :=
  (tallies (r.shots.map fun s => (s.before, s.after))).map fun (readings, n) =>
    (readings, Float.ofNat n / Float.ofNat r.shots.length)

/-- Results with shots drawn from given shares, one for each number between zero and one. -/
def simulate (shares : List ((Bits × Bits) × Float)) (draws : List Float) :
    Outcome TaskResults := do
  if shares.isEmpty then throw .value
  let weights := shares.map (·.2)
  let shots ← draws.mapM fun u =>
    match shares[drawPlace weights u]? with
    | some ((before, after), _) => (.ok ⟨.completed, before, after⟩ : Outcome Shot)
    | none => .error (.plain .outOfRange)
  return ⟨.completed, shots⟩

/-- The results of the shots in which every atom was there. -/
def fullyFilled (r : TaskResults) : TaskResults :=
  { r with shots := r.shots.filter fun s => s.before.all id }

end TaskResults

/-! ### Records -/

def Json.asBit (j : Json) : Outcome Bool := do
  match ← asWhole j with
  | 0 => return false
  | 1 => return true
  | _ => throw .refused

/-- A member of a record that has a value if it is not given. -/
def Json.fieldD (key : String) (standard : α) (read : Json → Outcome α) (j : Json) : Outcome α := do
  match (← asObject j).lookup key with
  | some v => read v
  | none => return standard

def Json.ofBits (bs : Bits) : Json := .arr (bs.map fun b => .int (if b then 1 else 0))

namespace Shot

def record (s : Shot) : Json :=
  .obj [("shot_status", .str s.status.name), ("pre_sequence", ofBits s.before),
    ("post_sequence", ofBits s.after)]

def statusOfRecord : Json → Outcome ShotStatus
  | .str s =>
    match ShotStatus.ofName? s with
    | some c => .ok c
    | none => .error .refused
  | _ => .error .refused

def ofRecord (j : Json) : Outcome Shot := do
  let status ← j.fieldD "shot_status" .missingBoth statusOfRecord
  let before ← j.fieldD "pre_sequence" [] (asList asBit)
  return ⟨status, before, ← j.fieldD "post_sequence" [] (asList asBit)⟩

end Shot

namespace TaskResults

def record (r : TaskResults) : Json :=
  .obj [("task_status", .str r.status.name), ("shot_outputs", .arr (r.shots.map Shot.record))]

def statusOfRecord (known : List TaskStatus) : Json → Outcome TaskStatus
  | .str s =>
    match known.find? (·.name = s) with
    | some c => .ok c
    | none => .error .refused
  | _ => .error .refused

/-- Reads results whose status is one of those listed. -/
def ofRecordAmong (known : List TaskStatus) (j : Json) : Outcome TaskResults := do
  let status ← j.fieldD "task_status" .failed (statusOfRecord known)
  return ⟨status, ← j.fieldD "shot_outputs" [] (asList Shot.ofRecord)⟩

def ofRecord (j : Json) : Outcome TaskResults := ofRecordAmong TaskStatus.all j

end TaskResults

/-! ### Reports -/

/-- Where the atoms of a task are. -/
structure Geometry where
  sites : List (Quantity × Quantity)
  filling : List Int
  decoder : Option Decoder := none

structure ReportRow where
  task : Int
  cluster : ClusterIndex
  /-- The filling that was asked for. -/
  wanted : String
  before : String
  after : Bits
  deriving DecidableEq

structure Report where
  rows : List ReportRow
  metas : List (Env Quantity)
  geometries : List Geometry
  name : String

/-- The item at an index, which counts from the end if it is negative. -/
def itemAt {α : Type} (xs : List α) (i : Int) : Outcome α :=
  let place := if i < 0 then i + xs.length else i
  match if place < 0 then none else xs[place.toNat]? with
  | some a => .ok a
  | none => .error (.plain .outOfRange)

namespace Geometry

variable (g : Geometry)

def fillingText : String := String.join (g.filling.map toString)

/-- The clusters of a geometry; without a decoder, all sites are one cluster. -/
def clusters (g : Geometry) : List (ClusterIndex × List Int) :=
  match g.decoder with
  | some d => d.clusters
  | none => [((0, 0), (List.range g.fillingText.length).map fun (i : Nat) => (i : Int))]

def row (task : Int) (s : Shot) (cluster : ClusterIndex) (sites : List Int) :
    Outcome ReportRow := do
  let before ← sites.mapM (itemAt s.before)
  let after ← sites.mapM (itemAt s.after)
  let wanted ← sites.mapM (itemAt g.fillingText.toList)
  return ⟨task, cluster, String.ofList wanted, Bits.text before, after⟩

/-- The rows of a task: every cluster of every completed shot. -/
def rows (task : Int) (r : TaskResults) : Outcome (List ReportRow) :=
  (r.shots.filter (·.status = .completed)).flatMap (fun s => g.clusters.map fun c => (s, c))
    |>.mapM fun (s, c, sites) => g.row task s c sites

end Geometry

namespace Report

variable (r : Report)

/-- The rows that a view takes: all, or those in which the atoms were the ones asked for. -/
def selected (onlyWanted : Bool) : List ReportRow :=
  if onlyWanted then r.rows.filter fun row => row.wanted = row.before else r.rows

def width : Nat := (r.rows.map (·.after.length)).foldl Nat.max 0

/-- The cells of a row: a shorter row ends in empty ones. -/
def cells (row : ReportRow) : List (Option Bool) :=
  row.after.map some ++ List.replicate (r.width - row.after.length) none

/-- Whether some row is shorter than another. -/
def isRagged : Bool := r.rows.any fun row => row.after.length ≠ r.width

def tasksOf (rows : List ReportRow) : List Int := distinct (rows.map (·.task))

/-- The cells of each task's rows, tasks in the order of their first row. -/
def bitstrings (onlyWanted : Bool := true) : List (List (List (Option Bool))) :=
  let rows := r.selected onlyWanted
  (tasksOf rows).map fun t => (rows.filter (·.task = t)).map r.cells

/-- The order of cells: zero, one, empty. -/
def cellRank : Option Bool → Nat
  | some false => 0
  | some true => 1
  | none => 2

/-- The order of rows, by their first different cell. -/
def cellsLe : List (Option Bool) → List (Option Bool) → Bool
  | [], _ => true
  | _ :: _, [] => false
  | a :: as, b :: bs =>
    if cellRank a < cellRank b then true
    else if cellRank b < cellRank a then false
    else cellsLe as bs

/-- A cell in the text of a row; numbers beside empty cells are written with a fraction. -/
def cellText (ragged : Bool) : Option Bool → String
  | some b => (if b then "1" else "0") ++ if ragged then ".0" else ""
  | none => "nan"

/-- How often each row occurs. A row with an empty cell is like no other. -/
def countRows (rows : List (List (Option Bool))) : List (List (Option Bool) × Nat) :=
  let (plain, gapped) := rows.partition fun cells => cells.all Option.isSome
  tallies plain ++ gapped.map fun cells => (cells, 1)

/-- How often each text of bits occurs among the rows of each task in which the atoms were the
ones asked for: the most frequent first, and equally frequent ones in the order of their bits. -/
def counts : List (List (String × Nat)) :=
  r.bitstrings.map fun rows =>
    let sorted := (countRows rows).mergeSort fun a b => cellsLe a.1 b.1
    let ranked := sorted.mergeSort fun a b => decide (b.2 ≤ a.2)
    Json.merge [] (ranked.map fun (cells, n) =>
      (String.join (cells.map (cellText r.isRagged)), n))

/-- The share of zeros in a column; empty cells do not count. -/
def zeroShare (column : List (Option Bool)) : Float :=
  let bits := column.filterMap id
  1.0 - Float.ofNat (bits.count true) / Float.ofNat bits.length

def columns (width : Nat) (rows : List (List (Option Bool))) : List (List (Option Bool)) :=
  (List.range width).map fun j => rows.map fun cells => (cells[j]?).getD none

/-- The share of excited atoms at each site, for each task by its number. -/
def densities (onlyWanted : Bool := true) : List (List Float) :=
  let rows := r.selected onlyWanted
  ((tasksOf rows).mergeSort fun a b => decide (a ≤ b)).map fun t =>
    (columns r.width ((rows.filter (·.task = t)).map r.cells)).map zeroShare

/-- A parameter as a number; text that writes none stays text. An array of one item counts as the
item. -/
def listed : Param Quantity → Outcome (String ⊕ Float)
  | .number v => .ok (.inr v.toFloat)
  | .whole i => .ok (.inr (Binary.ofDecimal (.ofInt i)))
  | .flag b => .ok (.inr (if b then 1.0 else 0.0))
  | .text s =>
    match Binary.ofText? s with
    | some x => .ok (.inr x)
    | none => .ok (.inl s)
  | .array [.number v] => .ok (.inr v.toFloat)
  | .array [.whole i] => .ok (.inr (Binary.ofDecimal (.ofInt i)))
  | _ => .error .type

def listParam (name : String) : Outcome (List (String ⊕ Float)) :=
  r.metas.mapM fun m =>
    match m.lookup name with
    | some v => listed v
    | none => .error .type

end Report

end AtomArray
