import AtomArray.Task.Submission
import AtomArray.Proofs.Lookup
import AtomArray.Proofs.Outcome
import AtomArray.Proofs.TaskLifeCycle
import Mathlib.Data.List.Perm.Basic

/-!
Handing in a batch.

A submission is a series of attempts, one for each task (`Attempts`), which are read off the run
(`RemoteBatch.exists_attempts`). An attempt leaves a task with the identifier that its service gave,
or the task marked as not accepted. The batch keeps its tasks in the order of the attempts, not in
the one it had before: `submission_loses_order` is the smallest batch in which this can be seen.
-/

namespace AtomArray

open List Document RemoteBatch

/-! ### Attempts -/

/-- What the service of a task is asked when the task is handed in. -/
def RemoteTask.offer {δ σ : Type} (serve : δ → Service σ) (force : Bool) (t : RemoteTask δ) :
    Session σ String :=
  match force, t.id with
  | false, some id => throw (.alreadySubmitted id)
  | _, _ => (serve t.service).submit t.spec

/-- A task that was tried, with the identifier that it got or the reason why it got none. -/
structure Attempt (δ : Type) where
  key : Int
  task : RemoteTask δ
  answer : Outcome String

namespace Attempt

variable {δ : Type} (a : Attempt δ)

def left : RemoteTask δ :=
  match a.answer with
  | .ok id => { a.task with id := some id, results := some ⟨.enqueued, []⟩ }
  | .error _ => { a.task with results := some ⟨.unaccepted, []⟩ }

/-- The failure that is kept of the attempt. -/
def failure? : Option (Int × Fault) :=
  match a.answer with
  | .ok _ => none
  | .error f => some (a.key, f)

end Attempt

open Attempt

/-- Attempts one after the other, between two states of the services. -/
inductive Attempts {δ σ : Type} (serve : δ → Service σ) (force : Bool) :
    σ → List (Attempt δ) → σ → Prop where
  | nil (s : σ) : Attempts serve force s [] s
  | cons {s s' s'' : σ} {a : Attempt δ} {as : List (Attempt δ)}
      (hanswer : (a.task.offer serve force).run s = (a.answer, s'))
      (hrest : Attempts serve force s' as s'') : Attempts serve force s (a :: as) s''

section Attempts

variable {δ σ : Type} (serve : δ → Service σ) (force : Bool)

theorem RemoteTask.run_submit_offer (t : RemoteTask δ) (s : σ) :
    (RemoteTask.submit serve force).run (t, s) = match (t.offer serve force).run s with
      | (.ok id, s') => (.ok (), { t with id := some id, results := some ⟨.enqueued, []⟩ }, s')
      | (.error f, s') => (.error f, t, s') := by
  by_cases h : force ∨ t.id = none
  · have hoffer : t.offer serve force = (serve t.service).submit t.spec := by
      rcases h with rfl | hid
      · rfl
      · cases force <;> simp [offer, hid]
    have hcall : (TaskAction.call ((serve t.service).submit t.spec)).run (t, s) =
        ((((serve t.service).submit t.spec).run s).1, t,
          (((serve t.service).submit t.spec).run s).2) := rfl
    rw [hoffer, run_submit serve h, Session.run_bind, hcall]
    cases hanswer : ((serve t.service).submit t.spec).run s with
    | mk o s' => cases o <;> rfl
  · obtain ⟨rfl, id, hid⟩ : force = false ∧ ∃ id, t.id = some id := by
      simpa [Option.ne_none_iff_exists'] using h
    have hoffer : t.offer serve false = throw (.alreadySubmitted id) := by simp [offer, hid]
    rw [hoffer, run_submit_again serve hid]
    rfl

namespace RemoteBatch

theorem exists_attempts (ts : Numbered (RemoteTask δ)) (s : σ) :
    ∃ as s', Attempts serve force s as s' ∧ as.map (fun a => (a.key, a.task)) = ts ∧
      submitEach (RemoteTask.submit serve force) ts s =
        (as.filterMap failure?, as.map fun a => (a.key, a.left), s') := by
  induction ts generalizing s with
  | nil => exact ⟨[], s, .nil s, rfl, rfl⟩
  | cons p ts ih =>
    obtain ⟨k, t⟩ := p
    cases hanswer : (t.offer serve force).run s with
    | mk answer s₁ =>
      obtain ⟨as, s', has, hts, hrest⟩ := ih s₁
      refine ⟨⟨k, t, answer⟩ :: as, s', .cons hanswer has, by rw [map_cons, hts], ?_⟩
      rw [submitEach, RemoteTask.run_submit_offer, hanswer]
      cases answer with
      | ok id => simp [hrest, filterMap_cons, failure?, left]
      | error f => simp [hrest, failure?, left]

end RemoteBatch

end Attempts

/-! ### Orders -/

namespace Numbered

variable {τ : Type} {ts : Numbered τ} {order : List Int}

theorem inOrder_keys (hkeys : (ts.map Prod.fst).Nodup) : inOrder (ts.map Prod.fst) ts = ts := by
  have hstep : ∀ p ∈ ts, ((ts.lookup p.1).map fun t => (p.1, t)) = some p := by
    intro p hp
    rw [lookup_of_mem hkeys hp, Option.map_some]
  rw [inOrder, filterMap_map]
  exact (filterMap_congr hstep).trans filterMap_some

theorem inOrder_perm (hkeys : (ts.map Prod.fst).Nodup) (horder : order.Perm (ts.map Prod.fst)) :
    (inOrder order ts).Perm ts := by
  have hperm := horder.filterMap fun k => (ts.lookup k).map fun t => (k, t)
  exact hperm.trans (.of_eq (inOrder_keys hkeys))

theorem keys_inOrder (horder : order.Perm (ts.map Prod.fst)) :
    (inOrder order ts).map Prod.fst = order := by
  have hstep : ∀ k ∈ order, (((ts.lookup k).map fun t => (k, t)).map Prod.fst) = some k := by
    intro k hk
    cases hfound : ts.lookup k with
    | none => exact absurd (horder.mem_iff.mp hk) (lookup_eq_none.mp hfound)
    | some t => rfl
  rw [inOrder, map_filterMap, filterMap_congr hstep, filterMap_some]

end Numbered

/-! ### Reporting failures -/

theorem BatchErrors.exists_dump (es : BatchErrors) : ∃ text, es.document.dump = .ok text := by
  have hitems : ∃ js, saveItems
      (es.map fun p => .list [.int p.1, TaskError.document p.2]) = .ok js := by
    induction es with
    | nil => exact ⟨[], rfl⟩
    | cons p es ih =>
      obtain ⟨js, hjs⟩ := ih
      exact ⟨_, by rw [map_cons, saveItems, hjs]; rfl⟩
  obtain ⟨js, hjs⟩ := hitems
  have hsave : save (numberedDocument TaskError.document es) = .ok (.arr js) := by
    rw [numberedDocument, save, hjs]
    rfl
  exact ⟨_, by rw [document, dump, save, saveParts, hsave]; rfl⟩

namespace BatchRun

variable {δ σ : Type} (archive : Archive δ) (ignore : Bool)

/-- Failures are reported once both files are written, and unless they are to be ignored. -/
theorem reportFailures_outcome (failures : Numbered Fault) (r : BatchRun δ σ) :
    (r.reportFailures archive ignore failures).1 = if failures = [] then .ok () else (do
        archive.opens (r.batch.fileName "errors")
        archive.opens (r.batch.fileName "future")
        let _ ← archive.text r.batch
        if ignore then return ()
        else throw (.submissionsFailed (errorsOf failures).text)) := by
  obtain ⟨text, htext⟩ := (errorsOf failures).exists_dump
  by_cases hnone : failures = []
  · simp [reportFailures, hnone]
  cases herrors : archive.opens (r.batch.fileName "errors") with
  | error f => simp [reportFailures, write, hnone, herrors]
  | ok _ =>
    cases hfuture : archive.opens (r.batch.fileName "future") with
    | error f => simp [reportFailures, write, hnone, herrors, htext, hfuture, Except.map]
    | ok _ =>
      cases hbatch : archive.text r.batch with
      | error f => simp [reportFailures, write, hnone, herrors, htext, hfuture, hbatch, Except.map]
      | ok _ =>
        cases ignore <;>
          simp [reportFailures, write, hnone, herrors, htext, hfuture, hbatch, Except.map]

theorem reportFailures_frame (failures : Numbered Fault) (r : BatchRun δ σ) :
    (r.reportFailures archive ignore failures).2.batch = r.batch ∧
      (r.reportFailures archive ignore failures).2.world = r.world := by
  simp only [reportFailures, write]
  grind

end BatchRun

/-! ### Submission -/

section Submission

variable {δ σ : Type}

theorem Attempt.mem_failures {as : List (Attempt δ)} {k : Int} {f : Fault} :
    (k, f) ∈ as.filterMap failure? ↔ ∃ a ∈ as, a.key = k ∧ a.answer = .error f := by
  simp only [mem_filterMap, failure?]
  refine exists_congr fun a => and_congr_right fun _ => ?_
  cases a.answer <;> simp

/-- **Handing in a batch.** Every task is tried exactly once. A task that gets an identifier has it
afterwards and waits in the queue; one that gets none keeps what it had and counts as not accepted,
and there is a failure for exactly these. The numbers of the tasks stay, in the order that was
chosen. Failures are reported, once they could be written down, unless they are to be ignored. -/
theorem submission_attempts (serve : δ → Service σ) (force ignore : Bool) (archive : Archive δ)
    (shuffle : Shuffle) (r r' : BatchRun δ σ) (o : Outcome Unit)
    (hkeys : (r.batch.tasks.map Prod.fst).Nodup)
    (hrun : r.submit archive shuffle (RemoteTask.submit serve force) ignore = (o, r')) :
    ∃ as, Attempts serve force r.world as r'.world ∧
      (as.map fun a => (a.key, a.task)).Perm r.batch.tasks ∧
      (∀ a ∈ as, r.batch.tasks.lookup a.key = some a.task ∧
        r'.batch.tasks.lookup a.key = some a.left) ∧
      r'.batch.name = r.batch.name ∧
      r'.batch.tasks.map Prod.fst = shuffle.arrange (r.batch.tasks.map Prod.fst) ∧
      ∃ failures : Numbered Fault,
        (∀ k f, (k, f) ∈ failures ↔ ∃ a ∈ as, a.key = k ∧ a.answer = .error f) ∧
        o = if failures = [] then .ok ()
          else (do
            archive.opens (r.batch.fileName "errors")
            archive.opens (r.batch.fileName "future")
            let _ ← archive.text r'.batch
            if ignore then return ()
            else throw (.submissionsFailed (RemoteBatch.errorsOf failures).text)) := by
  have horder := shuffle.perm (r.batch.tasks.map Prod.fst)
  obtain ⟨as, s', has, htasks, hsubmit⟩ := exists_attempts serve force
    (Numbered.inOrder (shuffle.arrange (r.batch.tasks.map Prod.fst)) r.batch.tasks) r.world
  -- The batch and the services after the run are those that the attempts leave.
  let tried : BatchRun δ σ :=
    ⟨⟨as.map fun a => (a.key, a.left), r.batch.name⟩, s', r.files⟩
  have hreport : tried.reportFailures archive ignore (as.filterMap failure?) = (o, r') := by
    rwa [BatchRun.submit, submit, hsubmit] at hrun
  obtain ⟨hbatch, hworld⟩ := tried.reportFailures_frame archive ignore
    (as.filterMap failure?)
  have houtcome := tried.reportFailures_outcome archive ignore (as.filterMap failure?)
  rw [hreport] at hbatch hworld houtcome
  have hperm : (as.map fun a => (a.key, a.task)).Perm r.batch.tasks := by
    rw [htasks]
    exact Numbered.inOrder_perm hkeys horder
  have hnumbers : as.map (·.key) = shuffle.arrange (r.batch.tasks.map Prod.fst) := by
    rw [← Numbered.keys_inOrder horder, ← htasks, List.map_map]
    rfl
  have hleft : ((as.map fun a => (a.key, a.left)).map Prod.fst) =
      shuffle.arrange (r.batch.tasks.map Prod.fst) := by
    rw [← hnumbers, List.map_map]
    rfl
  refine ⟨as, ?_, hperm, ?_, ?_, ?_, as.filterMap failure?, fun k f => mem_failures,
    ?_⟩
  · rwa [hworld]
  · intro a ha
    rw [hbatch]
    refine ⟨lookup_of_mem hkeys (hperm.mem_iff.mp (List.mem_map_of_mem ha)), lookup_of_mem ?_
      (List.mem_map_of_mem ha)⟩
    rw [hleft]
    exact horder.nodup_iff.mpr hkeys
  · rw [hbatch]
  · rw [hbatch, hleft]
  · rw [hbatch]
    exact houtcome

/-- A service that takes tasks with a single shot only. -/
def singleShotService : Service Unit where
  submit spec := if spec.shots = 1 then return "first" else throw .refused
  results _ := throw .missingTaskId
  status _ := throw .missingTaskId
  cancel _ := return ()
  validate _ := return ()

/-- Two tasks, of which the service above takes the second. -/
def pairOfTasks : RemoteBatch Unit where
  tasks := [(0, taskOf 2), (1, taskOf 1)]
where
  taskOf (shots : Int) : RemoteTask Unit :=
    { TaskCall.waitingTask with spec := { (default : TaskSpec Quantity) with shots } }

/-- One task of the two is in the queue, and the other is reported. -/
theorem pairOfTasks_submission : (pairOfTasks.tasks.map Prod.fst).Nodup ∧
    ∃ o r', BatchRun.submit ⟨fun _ => .ok (), fun _ => .ok ""⟩ .reversed
        (RemoteTask.submit (fun _ => singleShotService) false) false
        ⟨pairOfTasks, (), []⟩ = (o, r') ∧
      (r'.batch.tasks.map fun p => (p.1, p.2.id)) = [(1, some "first"), (0, none)] ∧
      ∃ failures : Numbered Fault, failures ≠ [] ∧
        o = .error (.submissionsFailed (RemoteBatch.errorsOf failures).text) := by
  have hkeys : (pairOfTasks.tasks.map Prod.fst).Nodup := by decide
  obtain ⟨as, -, -, -, -, -, failures, hfailures, ho⟩ := submission_attempts
    (fun _ => singleShotService) false false ⟨fun _ => .ok (), fun _ => .ok ""⟩ .reversed
    ⟨pairOfTasks, (), []⟩ _ _ hkeys rfl
  refine ⟨hkeys, _, _, rfl, rfl, failures, ?_, ?_⟩
  · rintro rfl
    cases ho
  · by_cases hnone : failures = []
    · rw [if_pos hnone] at ho
      cases ho
    · rw [if_neg hnone] at ho
      exact ho

/-- **The order of a batch is lost** when its tasks are handed in in another one: the batch lists
them as they were handed in. -/
theorem submission_loses_order : (BatchRun.submit ⟨fun _ => .ok (), fun _ => .ok ""⟩ .reversed
        (RemoteTask.submit (fun _ => TaskCall.promptService) false) false
        ⟨pairOfTasks, (), []⟩).2.batch.tasks.map Prod.fst = [1, 0] ∧
      pairOfTasks.tasks.map Prod.fst = [0, 1] :=
  ⟨rfl, rfl⟩

end Submission

end AtomArray
