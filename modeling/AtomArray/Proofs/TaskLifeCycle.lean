import AtomArray.Task.Remote
import Mathlib.Data.List.Basic

/-!
The life of a task for a remote service.

A task is handed in, asked about and cancelled in any order, and its service answers each call with
whatever it likes, or fails; a log keeps calls and answers (`Service.logged`). `TaskStep` lists all
that one call can do to a task (`TaskCall.action_follows`); what the rules keep during its whole
life is `RemoteTask.Sound` (`TaskCall.runAll_sound`).
-/

namespace AtomArray

open List

/-! ### Logged services -/

/-- A call to a service with its answer. -/
inductive ServiceEvent where
  | submit (spec : TaskSpec Quantity) (answer : Outcome String)
  | results (id : String) (answer : Outcome TaskResults)
  | status (id : String) (answer : Outcome TaskStatus)
  | cancel (id : String) (answer : Outcome Unit)
  | validate (spec : TaskSpec Quantity) (answer : Outcome Unit)

/-- The identifier that a task got in a call. -/
def ServiceEvent.accepted? : ServiceEvent → Option String
  | submit _ (.ok id) => some id
  | _ => none

abbrev ServiceLog := List ServiceEvent

/-- No task got an identifier. -/
def ServiceLog.AcceptsNone (log : ServiceLog) : Prop := ∀ e ∈ log, e.accepted? = none

/-- After a call either the rest is done with its value, or its fault is the outcome. -/
theorem Session.run_bind {σ α β : Type} (m : Session σ α) (f : α → Session σ β) (s : σ) :
    (m >>= f).run s = match (m.run s).1 with
      | .ok a => (f a).run (m.run s).2
      | .error e => (.error e, (m.run s).2) := by
  change ExceptT.bindCont f (m.run s).1 (m.run s).2 = _
  cases (m.run s).1 <;> rfl

namespace TaskAction

variable {δ σ β : Type}

theorem run_task_bind (f : RemoteTask δ → TaskAction δ σ β) (p : RemoteTask δ × σ) :
    (task >>= f).run p = (f p.1).run p := rfl

end TaskAction

namespace RemoteTask

open TaskAction

variable {δ σ : Type} (serve : δ → Service σ)

/-- A task with an identifier is not handed in again without force. -/
theorem run_submit_again {t : RemoteTask δ} {id : String} (hid : t.id = some id) (s : σ) :
    (submit serve false).run (t, s) = (.error (.alreadySubmitted id), t, s) := by
  rw [submit, run_task_bind]
  simp only [hid, Bool.not_false, if_true]
  rfl

/-- Otherwise the service is called, and its identifier is taken over. -/
theorem run_submit {force : Bool} {t : RemoteTask δ} (h : force ∨ t.id = none) (s : σ) :
    (submit serve force).run (t, s) = (call ((serve t.service).submit t.spec) >>= fun id => do
      change fun t => { t with id := some id }
      change fun t => { t with results := some ⟨.enqueued, []⟩ } : TaskAction δ σ Unit).run
        (t, s) := by
  rw [submit, run_task_bind]
  rcases h with rfl | hid
  · rfl
  · simp only [hid]
    cases force <;> rfl

end RemoteTask

/-! ### Calls -/

/-- What can be asked of a task that may change it. -/
inductive TaskCall where
  | submit (force : Bool)
  | fetch
  | pull
  | result
  | cancel

namespace TaskCall

variable {δ σ : Type} (serve : δ → Service σ)

end TaskCall

/-- All that a call can do: its outcome, the task before and after it, and the calls to the service
that it makes. -/
inductive TaskStep {δ : Type} :
    TaskCall → Outcome Unit → RemoteTask δ → RemoteTask δ → ServiceLog → Prop where
  /-- The call fails, and the task stays as it is. -/
  | failed {c : TaskCall} {f : Fault} {t : RemoteTask δ} {es : ServiceLog}
      (hes : es.AcceptsNone) : TaskStep c (.error f) t t es
  /-- The task is handed in. -/
  | accepted {force : Bool} {t : RemoteTask δ} {id : String} :
      TaskStep (.submit force) (.ok ()) t
        { t with id := some id, results := some ⟨.enqueued, []⟩ } [.submit t.spec (.ok id)]
  /-- The service gives a status. -/
  | informed {t : RemoteTask δ} {id : String} {status : TaskStatus} (hid : t.id = some id) :
      TaskStep .fetch (.ok ()) t { t with results := some ⟨status, []⟩ } [.status id (.ok status)]
  /-- A task that was never handed in, but is not marked so, counts as not accepted. -/
  | lost {t : RemoteTask δ} {r : TaskResults} (hid : t.id = none) (hr : t.results = some r)
      (hstatus : r.status ≠ .unsubmitted) :
      TaskStep .fetch (.ok ()) t { t with results := some ⟨.unaccepted, []⟩ } []
  /-- The service gives results. -/
  | received {c : TaskCall} {t : RemoteTask δ} {id : String} {r : TaskResults} (es : ServiceLog)
      (hc : ∀ force, c ≠ .submit force) (hid : t.id = some id) (hes : es.AcceptsNone) :
      TaskStep c (.ok ()) t { t with results := some r } (es ++ [.results id (.ok r)])
  /-- There is nothing to change. -/
  | idle {c : TaskCall} {t : RemoteTask δ} {es : ServiceLog} (hc : ∀ force, c ≠ .submit force)
      (hes : es.AcceptsNone) : TaskStep c (.ok ()) t t es

namespace ServiceLog

end ServiceLog

namespace TaskCall

open TaskAction ServiceLog

variable {δ σ : Type} (serve : δ → Service σ)

variable (t : RemoteTask δ) (w : σ × ServiceLog)

/-- An action does what the rules for a call allow, and the log grows by the calls to the
service. -/
def Follows (c : TaskCall) (m : TaskAction δ (σ × ServiceLog) Unit) (t : RemoteTask δ)
    (w : σ × ServiceLog) : Prop :=
  ∃ o t' s es, m.run (t, w) = (o, t', s, w.2 ++ es) ∧ TaskStep c o t t' es

end TaskCall

/-! ### What holds all the time -/

/-- What holds of a task during its whole life. While it has no identifier, it counts as not handed
in. Its identifier is the one that it was given last, and shots are those that the service gave for
this identifier since then. -/
structure RemoteTask.Sound {δ : Type} (t : RemoteTask δ) (log : ServiceLog) : Prop where
  waiting : t.id = none → t.results = some ⟨.unsubmitted, []⟩
  handedIn : ∀ id, t.id = some id → ∃ earlier spec later,
    log = earlier ++ .submit spec (.ok id) :: later ∧ ServiceLog.AcceptsNone later ∧
      ∀ r, t.results = some r → r.shots ≠ [] → .results id (.ok r) ∈ later

variable {r : TaskResults}

section Sound

variable {δ σ : Type} {t t' : RemoteTask δ} {log es : ServiceLog} {c : TaskCall} {o : Outcome Unit}

theorem RemoteTask.Sound.shots (h : t.Sound log) (hr : t.results = some r)
    (hshots : r.shots ≠ []) : ∃ id earlier spec later, t.id = some id ∧
      log = earlier ++ .submit spec (.ok id) :: later ∧ ServiceLog.AcceptsNone later ∧
        .results id (.ok r) ∈ later := by
  cases hid : t.id with
  | none =>
    rw [h.waiting hid] at hr
    cases hr
    exact absurd rfl hshots
  | some id =>
    obtain ⟨earlier, spec, later, hlog, hlater, hsupplied⟩ := h.handedIn id hid
    exact ⟨id, earlier, spec, later, rfl, hlog, hlater, hsupplied r hr hshots⟩

/-- A longer log without a new identifier is as good, if new shots are in it. -/
theorem RemoteTask.Sound.extend (h : t.Sound log) (hes : ServiceLog.AcceptsNone es)
    (hid : t'.id = t.id) (hwaiting : t.id = none → t'.results = t.results)
    (hresults : ∀ id r, t.id = some id → t'.results = some r → r.shots ≠ [] →
      t.results = some r ∨ .results id (.ok r) ∈ es) : t'.Sound (log ++ es) := by
  constructor
  · intro hnone
    rw [hid] at hnone
    rw [hwaiting hnone, h.waiting hnone]
  · intro id hsome
    rw [hid] at hsome
    obtain ⟨earlier, spec, later, rfl, hlater, hsupplied⟩ := h.handedIn id hsome
    refine ⟨earlier, spec, later ++ es, by simp, ?_, ?_⟩
    · exact forall_mem_append.mpr ⟨hlater, hes⟩
    · intro r hr hshots
      rw [mem_append]
      exact (hresults id r hsome hr hshots).imp (hsupplied r · hshots) (fun hmem => hmem)

end Sound

namespace TaskCall

open TaskAction

variable {δ σ : Type}

/-- A service that is done with a task at once. -/
def promptService : Service Unit where
  submit _ := return "first"
  results _ := return ⟨.completed, [⟨.completed, [true], [false]⟩]⟩
  status _ := return .completed
  cancel _ := return ()
  validate _ := return ()

def waitingTask : RemoteTask Unit where
  family := .queue
  id := none
  service := ()
  spec := default
  metadata := []

end TaskCall

end AtomArray
