import AtomArray.Task.Remote
import AtomArray.Chain.Compile

/-!
Batches: tasks under numbers, in an order. An operation on all tasks goes through them in order and
stops at the first that fails; what was done before stays done.
-/

namespace AtomArray

abbrev Numbered (τ : Type) := List (Int × τ)

/-- The things under the given numbers, in the order of the numbers. -/
def Numbered.inOrder {τ : Type} (order : List Int) (ts : Numbered τ) : Numbered τ :=
  order.filterMap fun k => (ts.lookup k).map fun t => (k, t)

/-- An order in which numbers are taken: all of them, and each as often as it occurs. -/
structure Shuffle where
  arrange : List Int → List Int
  perm : ∀ ks, (arrange ks).Perm ks

namespace Shuffle

def asListed : Shuffle := ⟨id, List.Perm.refl⟩

def reversed : Shuffle := ⟨List.reverse, List.reverse_perm⟩

end Shuffle

structure RemoteBatch (δ : Type) where
  tasks : Numbered (RemoteTask δ)
  name : Option String := none

/-- Why a task could not be handed in. -/
structure TaskError where
  kind : String
  trace : String
  deriving DecidableEq

abbrev BatchErrors := Numbered TaskError

namespace BatchErrors

def text (es : BatchErrors) : String :=
  String.join (es.map fun (i, e) =>
    s!"Task {i} failed to submit with error: {e.kind}" ++ "\n" ++ e.trace)

/-- The errors of the named tasks that have one. -/
def select (es : BatchErrors) (indices : List Int) : BatchErrors :=
  indices.foldl (fun out i =>
    match es.lookup i with
    | some e => if (out.lookup i).isSome then out else out ++ [(i, e)]
    | none => out) []

end BatchErrors

namespace RemoteBatch

variable {δ σ : Type} (serve : δ → Service σ)

/-- Applies an operation to the tasks in order. After a failure the later tasks stay as they
are. -/
def forEach (f : TaskAction δ σ Unit) :
    Numbered (RemoteTask δ) → σ → Outcome Unit × Numbered (RemoteTask δ) × σ
  | [], s => (.ok (), [], s)
  | (k, t) :: rest, s =>
    match f.run (t, s) with
    | (.ok (), t, s) =>
      let (o, rest, s) := forEach f rest s
      (o, (k, t) :: rest, s)
    | (.error e, t, s) => (.error e, (k, t) :: rest, s)

def onTasks (f : TaskAction δ σ Unit) (b : RemoteBatch δ) (s : σ) :
    Outcome Unit × RemoteBatch δ × σ :=
  let (o, tasks, s) := forEach f b.tasks s
  (o, { b with tasks }, s)

def cancel (b : RemoteBatch δ) (s : σ) : Outcome Unit × RemoteBatch δ × σ :=
  b.onTasks (RemoteTask.cancel serve) s

def fetch (b : RemoteBatch δ) (s : σ) : Outcome Unit × RemoteBatch δ × σ :=
  b.onTasks (RemoteTask.fetch serve) s

def pull (b : RemoteBatch δ) (s : σ) : Outcome Unit × RemoteBatch δ × σ :=
  b.onTasks (RemoteTask.pull serve) s

/-- Hands in the tasks one by one. A task that fails is marked as not accepted, and its fault is
kept under its number. -/
def submitEach (f : TaskAction δ σ Unit) :
    Numbered (RemoteTask δ) → σ → Numbered Fault × Numbered (RemoteTask δ) × σ
  | [], s => ([], [], s)
  | (k, t) :: rest, s =>
    match f.run (t, s) with
    | (.ok (), t, s) =>
      let (es, rest, s) := submitEach f rest s
      (es, (k, t) :: rest, s)
    | (.error e, t, s) =>
      let (es, rest, s) := submitEach f rest s
      ((k, e) :: es, (k, { t with results := some ⟨.unaccepted, []⟩ }) :: rest, s)

def submit (shuffle : Shuffle) (f : TaskAction δ σ Unit) (b : RemoteBatch δ) (s : σ) :
    Numbered Fault × RemoteBatch δ × σ :=
  let order := shuffle.arrange (b.tasks.map fun p => p.1)
  let (es, tasks, s) := submitEach f (Numbered.inOrder order b.tasks) s
  (es, { b with tasks }, s)

def errorsOf (failures : Numbered Fault) : BatchErrors :=
  failures.map fun (k, f) => (k, ⟨f.kind.name, (f.message?).getD ""⟩)

variable (b : RemoteBatch δ)

/-- The name of a file that a submission with failures leaves behind. -/
def fileName (content : String) : String :=
  let start :=
    match b.name with
    | some n => if n.isEmpty then "" else n ++ "-"
    | none => ""
  start ++ "partial-batch-" ++ content

def withServices {ε : Type} (f : δ → ε) (b : RemoteBatch δ) : RemoteBatch ε :=
  { name := b.name
    tasks := b.tasks.map fun p => (p.1, { p.2 with service := f p.2.service }) }

def totalShots : Int := (b.tasks.map (·.2.spec.shots)).foldl (· + ·) 0

def statusOf (t : RemoteTask δ) : Outcome TaskStatus :=
  match t.results with
  | some r => .ok r.status
  | none => .error .part

/-- The tasks with one of the statuses, or all others. -/
def choose (keep : Bool) (codes : List TaskStatus) (b : RemoteBatch δ) :
    Outcome (RemoteBatch δ) := do
  let marked ← b.tasks.mapM fun (k, t) => do
    return (codes.contains (← statusOf t), k, t)
  return { b with tasks := (marked.filter (·.1 == keep)).map (·.2) }

def getTasks (codes : List TaskStatus) (b : RemoteBatch δ) : Outcome (RemoteBatch δ) :=
  b.choose true codes

def removeTasks (codes : List TaskStatus) (b : RemoteBatch δ) : Outcome (RemoteBatch δ) :=
  b.choose false codes

def failedTasks : Outcome (RemoteBatch δ) :=
  b.getTasks [.failed, .unaccepted]

def removeFailed : Outcome (RemoteBatch δ) :=
  b.removeTasks [.failed, .unaccepted]

/-- The tasks that are left when the final ones are taken away. -/
def finishedTasks : Outcome (RemoteBatch δ) :=
  b.removeTasks [.completed, .failed, .unaccepted, .partlyDone, .cancelled]

def completedTasks : Outcome (RemoteBatch δ) :=
  b.getTasks [.completed, .partlyDone]

def removeInvalid : Outcome (RemoteBatch δ) :=
  b.removeTasks [.unaccepted]

/-- The results of a task that a report shows: those of a task with an identifier that is
completed. -/
def reported? (t : RemoteTask δ) : Option TaskResults := do
  let _ ← t.id
  let r ← t.results
  if r.status = .completed then some r else none

/-- The tasks that a report shows, with their numbers and results. -/
def shown : List (Int × RemoteTask δ × TaskResults) :=
  b.tasks.filterMap fun p => (reported? p.2).map fun r => (p.1, p.2, r)

def report : Outcome Report := do
  let rows ← b.shown.mapM fun x => x.2.1.geometry.rows x.1 x.2.2
  return ⟨rows.flatten, b.shown.map (·.2.1.metadata), b.shown.map (·.2.1.geometry),
    b.name.getD "Remote"⟩

end RemoteBatch

/-! ### Local batches -/

/-- What a local task runs: a program of the emulator, or a specification in the simulator of the
cloud service. -/
inductive LocalWork where
  | emulator (shots : Int) (program : EmulatorProgram Quantity)
  | simulator (spec : TaskSpec Quantity)

structure LocalTask where
  work : LocalWork
  metadata : Env Quantity
  results : Option TaskResults := none

namespace LocalTask

def geometry (t : LocalTask) : Geometry :=
  match t.work with
  | .emulator _ p => ⟨p.register.sites, p.register.sites.map fun _ => 1, none⟩
  | .simulator s => ⟨s.sites, s.filling, none⟩

def result (t : LocalTask) : Outcome TaskResults :=
  match t.results, t.work with
  | some r, _ => .ok r
  | none, .emulator .. => .error .part
  | none, .simulator _ => .error .notYetRun

end LocalTask

structure LocalBatch where
  tasks : Numbered LocalTask
  name : Option String := none

/-- Puts a task under a number: in place if the number occurs, else at the end. -/
def Numbered.insert {τ : Type} (k : Int) (t : τ) : Numbered τ → Numbered τ
  | [] => [(k, t)]
  | (k', t') :: rest => if k' = k then (k', t) :: rest else (k', t') :: insert k t rest

namespace LocalBatch

variable {σ : Type} (f : LocalTask → Session σ LocalTask)

def runEach (b : LocalBatch) : Session σ LocalBatch := do
  let tasks ← b.tasks.mapM fun (k, t) => do return (k, ← f t)
  return { b with tasks }

/-- Runs the tasks in a pool of workers. What comes back is numbered from zero on. -/
def runPool (b : LocalBatch) : Session σ LocalBatch := do
  let done ← b.tasks.mapM fun (_, t) => f t
  let put (tasks : Numbered LocalTask) (ti : LocalTask × Nat) : Numbered LocalTask :=
    Numbered.insert ti.2 ti.1 tasks
  return { b with tasks := done.zipIdx.foldl put b.tasks }

def report (b : LocalBatch) : Outcome Report := do
  let rows ← b.tasks.mapM fun (k, t) => do t.geometry.rows k (← t.result)
  return ⟨rows.flatten, b.tasks.map (·.2.metadata), b.tasks.map (·.2.geometry),
    b.name.getD "Local"⟩

end LocalBatch

/-- What the runs of emulator tasks share: operators kept from earlier programs, if they are kept,
and the random numbers that are left. -/
structure Bench where
  kept : Option (CompileCache Quantity Float) := none
  draws : List Float := []

def Bench.take (n : Nat) : Session Bench (List Float) := do
  let b ← get
  if b.draws.length < n then throw (.scriptEnded "uniforms")
  set { b with draws := b.draws.drop n }
  return b.draws.take n

def Bench.hamiltonian (p : EmulatorProgram Quantity) :
    Session Bench (Hamiltonian Quantity Float) := do
  let b ← get
  let (h, cache) ← p.hamiltonian Entries.binary (b.kept.getD {})
  set { b with kept := b.kept.map fun _ => cache }
  return h

namespace LocalTask

def shotOf (levels : List Nat) : Shot :=
  ⟨.completed, levels.map fun _ => true, levels.map (· = 0)⟩

def emulate (m : Hamiltonian.Method) (t : LocalTask) : Session Bench LocalTask := do
  match t.work with
  | .simulator _ => throw .type
  | .emulator shots p =>
    let h ← Bench.hamiltonian p
    let start := (h.space.zeroState.map Complex.ofReal).toArray
    let states ← h.evolve m start []
    let levels ← h.space.sample ((states.getLastD start).toList) (← Bench.take shots.toNat) true
    return { t with results := some ⟨.completed, levels.map shotOf⟩ }

end LocalTask

def EmulatorJob.task (j : EmulatorJob Quantity) : LocalTask :=
  ⟨.emulator j.shots j.program, j.metadata, none⟩

namespace LocalBatch

def ofTasks (tasks : List LocalTask) (name : Option String) : LocalBatch :=
  ⟨tasks.zipIdx.map fun (t, i) => ((i : Int), t), name⟩

/-- Runs a batch, in a pool or in order. The number of workers is given only to a pool. -/
def run {σ : Type} (pool : Bool) (workers : Option Int) (f : LocalTask → Session σ LocalTask)
    (b : LocalBatch) : Session σ LocalBatch :=
  if pool then b.runPool f
  else if workers.isSome then throw .workersWithoutPool
  else b.runEach f

end LocalBatch

end AtomArray
