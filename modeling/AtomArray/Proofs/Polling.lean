import AtomArray.Service.Queue
import AtomArray.Proofs.JsonText
import AtomArray.Proofs.TaskLifeCycle

/-!
Polling a queue.

The service is a script of answers without an end (`AnswerScript`), so that polling may not end
either: `AnswerScript.PollsTo` says that it comes to an end which no longer wait would change. It
ends at the first status at which the task does not wait any more
(`AnswerScript.StopsAt.run_pollResults`). Polling takes a task that was not accepted for one that
waits, although there is a fault for it among the results: `refusedTask_polled_for_ever`.
-/

namespace AtomArray

open Nat QueueClient Session

/-! ### Scripts of answers -/

/-- What a service answers to a request, by the number of requests before it. -/
abbrev AnswerScript := Nat → HttpRequest → Outcome HttpResponse

namespace AnswerScript

/-- The transport that takes its answers from a script. Its state is the number of requests. -/
def transport (a : AnswerScript) (patience : Nat) : Transport Nat where
  send r := ExceptT.mk fun n => (a n r, n + 1)
  pause _ := return ()
  patience _ := patience

variable (a : AnswerScript) (c : QueueClient) (id : String) (k : Nat)

/-- The status of a task, if it is asked for after `k` requests. -/
def statusAt : Outcome Json := ((c.status (a.transport 0) id).run k).1

/-- The results that are there, if they are asked for after `k` requests. -/
def resultsAt : Outcome Json := ((c.fetchResults (a.transport 0) id).run k).1

/-- A question whose answer is read without further calls takes one request. -/
theorem run_question {t : HttpResponse → Session Nat Json} (hread : ∀ r n, ((t r).run n).2 = n)
    (parts : List String) (patience n : Nat) :
    ((c.call (a.transport patience) "GET" parts >>= t).run n).2 = n + 1 := by
  rw [run_bind]
  split
  · exact hread _ _
  · rfl

variable (patience n : Nat)

theorem run_status : (c.status (a.transport patience) id).run n = (a.statusAt c id n, n + 1) := by
  refine Prod.ext rfl (run_question a c (fun r n => ?_) _ patience n)
  dsimp only
  split
  · cases r.json with
    | error e => rfl
    | ok j => cases member "status" j <;> rfl
  all_goals rfl

theorem run_fetchResults :
    (c.fetchResults (a.transport patience) id).run n = (a.resultsAt c id n, n + 1) := by
  refine Prod.ext rfl (run_question a c (fun r n => ?_) _ patience n)
  split
  all_goals rfl

/-! ### Waiting -/

/-- The task has not come to a status at which polling ends. -/
def Waits : Prop :=
  ∃ j, a.statusAt c id k = .ok j ∧ QueueClient.endsPolling j = false

variable (interval : Param Quantity)

theorem run_awaitEnd_succ (patience m n : Nat) :
    (awaitEnd (a.transport patience) c id interval (m + 1)).run n =
      match a.statusAt c id n with
      | .error e => (.error e, n + 1)
      | .ok j =>
        if endsPolling j then (.ok (), n + 1)
        else (awaitEnd (a.transport patience) c id interval m).run (n + 1) := by
  rw [awaitEnd, run_bind, run_status]
  cases a.statusAt c id n with
  | error e => rfl
  | ok j =>
    change (if endsPolling j then return () else
      awaitEnd (a.transport patience) c id interval m : Session Nat Unit).run (n + 1) = _
    dsimp only
    split <;> rfl

theorem run_awaitEnd_waits (patience m n k : Nat) (h : ∀ i < m, a.Waits c id (n + i)) :
    (awaitEnd (a.transport patience) c id interval (m + k)).run n =
      (awaitEnd (a.transport patience) c id interval k).run (n + m) := by
  induction m generalizing n with
  | zero => rw [zero_add, add_zero]
  | succ m ih =>
    obtain ⟨j, hj, hwait⟩ := h 0 (by omega)
    rw [add_zero] at hj
    rw [add_right_comm, run_awaitEnd_succ, hj]
    dsimp only
    rw [if_neg (by simp [hwait]), ih, add_right_comm, add_assoc]
    intro i hi
    rw [add_right_comm]
    exact h (i + 1) (by omega)

/-- Polling asks once at first, and then waits unless the task has ended. -/
theorem run_pollResults (patience : Nat) :
    (c.pollResults (a.transport patience) id interval).run 0 = match a.statusAt c id 0 with
      | .error e => (.error e, 1)
      | .ok j =>
        if endsPolling j then (c.results (a.transport patience) id).run 1
        else
          match (awaitEnd (a.transport patience) c id interval patience).run 1 with
          | (.ok _, n) => (c.results (a.transport patience) id).run n
          | (.error e, n) => (.error e, n) := by
  rw [pollResults, run_bind, run_status]
  cases a.statusAt c id 0 with
  | error e => rfl
  | ok j =>
    dsimp only
    cases endsPolling j with
    | true => rfl
    | false =>
      change (awaitEnd (a.transport patience) c id interval patience >>=
        fun _ => c.results (a.transport patience) id).run 1 = _
      rw [run_bind, if_neg Bool.false_ne_true]
      rcases (awaitEnd (a.transport patience) c id interval patience).run 1 with
        ⟨_ | _, _⟩ <;> rfl

/-- As long as the task waits, nothing else happens, however often the client asks. -/
theorem run_pollResults_waits {patience : Nat} (h : ∀ k ≤ patience, a.Waits c id k) :
    (c.pollResults (a.transport patience) id interval).run 0 =
      (.error .stillWaiting, patience + 1) := by
  obtain ⟨j, hj, hwait⟩ := h 0 (zero_le _)
  have hloop := run_awaitEnd_waits a c id interval patience patience 1 0
    fun i hi => h (1 + i) (by omega)
  rw [add_zero, add_comm 1] at hloop
  rw [run_pollResults, hj]
  dsimp only
  rw [if_neg (by simp [hwait]), hloop]
  rfl

/-! ### The end -/

/-- The client asks up to the first status at which the task does not wait any more. -/
structure StopsAt (k : Nat) : Prop where
  waits : ∀ i < k, a.Waits c id i
  stops : ¬a.Waits c id k

/-- The end of polling, if the client stops after it has asked `k` times more: the fault of the
status, or the results. With it goes the number of requests. -/
def endAt : Outcome Json × Nat :=
  match a.statusAt c id k with
  | .error e => (.error e, k + 1)
  | .ok _ => (c.results (a.transport 0) id).run (k + 1)

/-- Polling comes to an end that is the same however long the client would wait. -/
def PollsTo (e : Outcome Json × Nat) : Prop :=
  ∃ n, ∀ patience, n ≤ patience → (c.pollResults (a.transport patience) id interval).run 0 = e

section Ends

variable {a c id interval}

theorem StopsAt.endsPolling {k : Nat} {j : Json} (h : a.StopsAt c id k)
    (hstatus : a.statusAt c id k = .ok j) : endsPolling j := by
  by_contra hwait
  exact h.stops ⟨j, hstatus, by simpa using hwait⟩

/-- Polling ends at the first status at which the task does not wait any more. -/
theorem StopsAt.run_pollResults {k patience : Nat} (h : a.StopsAt c id k) (hk : k ≤ patience) :
    (c.pollResults (a.transport patience) id interval).run 0 = a.endAt c id k := by
  rw [AnswerScript.run_pollResults, endAt]
  cases k with
  | zero =>
    cases hstatus : a.statusAt c id 0 with
    | error e => rfl
    | ok j => exact if_pos (h.endsPolling hstatus)
  | succ k =>
    obtain ⟨j₀, hj₀, hwait⟩ := h.waits 0 (succ_pos k)
    have hloop := run_awaitEnd_waits a c id interval patience k 1 (patience - (k + 1) + 1)
      fun i hi => h.waits (1 + i) (by omega)
    rw [run_awaitEnd_succ, add_comm 1 k,
      show k + (patience - (k + 1) + 1) = patience by omega] at hloop
    rw [hj₀]
    dsimp only
    rw [if_neg (by simp [hwait]), hloop]
    cases hstatus : a.statusAt c id (k + 1) with
    | error e => rfl
    | ok j =>
      dsimp only
      rw [if_pos (h.endsPolling hstatus)]
      rfl

theorem StopsAt.pollsTo {k : Nat} (h : a.StopsAt c id k) :
    a.PollsTo c id interval (a.endAt c id k) :=
  ⟨k, fun _ hk => h.run_pollResults hk⟩

/-- A client that never stops comes to no end: it has asked once more with each wait. -/
theorem not_pollsTo (h : ∀ k, a.Waits c id k) (e : Outcome Json × Nat) :
    ¬a.PollsTo c id interval e := by
  rintro ⟨n, hn⟩
  have hfirst := hn n le_rfl
  have hsecond := hn (n + 1) (le_succ n)
  rw [run_pollResults_waits a c id interval fun k _ => h k] at hfirst hsecond
  have hsame := (Prod.ext_iff.mp (hfirst.trans hsecond.symm)).2
  simp at hsame

theorem run_results_le : ((c.results (a.transport patience) id).run n).2 ≤ n + 2 := by
  rw [results, run_bind, run_status]
  cases a.statusAt c id n with
  | error e => exact le_succ _
  | ok j =>
    dsimp only
    split
    case h_8 | h_9 =>
      rw [run_fetchResults]
    all_goals exact le_succ _

theorem endAt_le : (a.endAt c id k).2 ≤ k + 3 := by
  rw [endAt]
  cases a.statusAt c id k with
  | error e => exact Nat.add_le_add_left (by decide) k
  | ok j => exact run_results_le 0 _

end Ends

/-! ### Tasks that have ended -/

/-- From the `n`-th request on the task has the status `s`, and no request fails. -/
structure Settles (n : Nat) (s : TaskStatus) : Prop where
  status : ∀ k, n ≤ k → a.statusAt c id k = .ok (.str s.name)
  results : ∀ k, n ≤ k → ∃ j, a.resultsAt c id k = .ok j

/-- What asking for the results of a task that has ended gives: those that are there, if there can
be any. -/
def finalResults (s : TaskStatus) (k : Nat) : Outcome Json :=
  match s with
  | .completed | .partlyDone => a.resultsAt c id k
  | .unaccepted => .error (.reported .invalidRecord
      s!"Task: {id} has validation error, unable to fetch error message.")
  | s => .ok (QueueClient.noShots s.name)

section Settled

variable {a c id interval} {n : Nat} {s : TaskStatus}

theorem Settles.run_results (h : a.Settles c id n s) (hfinal : s.isFinal) {k : Nat}
    (hk : n ≤ k) :
    ((c.results (a.transport 0) id).run k).1 = a.finalResults c id s (k + 1) := by
  rw [QueueClient.results, run_bind, run_status, h.status _ hk]
  cases s
  case completed | partlyDone | failed | cancelled | unaccepted => rfl
  all_goals cases hfinal

/-- A task that has ended does not wait, unless it was not accepted. -/
theorem Settles.waits_iff (h : a.Settles c id n s) (hfinal : s.isFinal) {k : Nat}
    (hk : n ≤ k) : a.Waits c id k ↔ s = .unaccepted := by
  simp only [Waits, h.status k hk, Except.ok.injEq, exists_eq_left']
  cases s
  case completed | partlyDone | failed | cancelled | unaccepted => decide
  all_goals cases hfinal

theorem exists_stopsAt {m : Nat} (h : ¬a.Waits c id m) : ∃ k ≤ m, a.StopsAt c id k := by
  classical
  have hexists : ∃ k, ¬a.Waits c id k := ⟨m, h⟩
  exact ⟨Nat.find hexists, Nat.find_min' hexists h,
    fun i hi => not_not.mp (Nat.find_min hexists hi), Nat.find_spec hexists⟩

/-- **Polling a task that ends.** From some request on the task has a final status and no request
fails. Polling ends exactly if this status is another than not being accepted, or if an earlier
answer ends it. It ends at the first status at which the task does not wait, after at most three
more requests; if this is the final one, with the results for it. A task that is not accepted is
asked for as often as the client has patience, and its results are never asked for. -/
theorem polling_ends_iff (interval : Param Quantity) (hfinal : s.isFinal = true)
    (h : a.Settles c id n s) :
    ((∃ e, a.PollsTo c id interval e) ↔ s ≠ .unaccepted ∨ ∃ k < n, ¬a.Waits c id k) ∧
    (∀ k, a.StopsAt c id k → k ≤ n ∧ a.PollsTo c id interval (a.endAt c id k) ∧
      (a.endAt c id k).2 ≤ k + 3) ∧
    (s ≠ .unaccepted → (∀ k < n, a.Waits c id k) → a.StopsAt c id n ∧
      (a.endAt c id n).1 = a.finalResults c id s (n + 2) ∧
      ∃ j, a.finalResults c id s (n + 2) = .ok j) ∧
    (s = .unaccepted → (∀ k < n, a.Waits c id k) → ∀ patience,
      (c.pollResults (a.transport patience) id interval).run 0 =
        (.error .stillWaiting, patience + 1)) := by
  have hstop : s ≠ .unaccepted → ¬a.Waits c id n := fun hs => mt (h.waits_iff hfinal le_rfl).mp hs
  have hlate : s = .unaccepted → ∀ k, n ≤ k → a.Waits c id k :=
    fun hs k hk => (h.waits_iff hfinal hk).mpr hs
  refine ⟨⟨?_, ?_⟩, ?_, ?_, ?_⟩
  · rintro ⟨e, he⟩
    by_contra hnever
    obtain ⟨hs, hearly⟩ := not_or.mp hnever
    push Not at hs hearly
    refine not_pollsTo (fun k => ?_) e he
    rcases Nat.lt_or_ge k n with hk | hk
    · exact hearly k hk
    · exact hlate hs k hk
  · rintro (hs | ⟨k, -, hk⟩)
    · obtain ⟨k, -, hk⟩ := exists_stopsAt (hstop hs)
      exact ⟨_, hk.pollsTo⟩
    · obtain ⟨i, -, hi⟩ := exists_stopsAt hk
      exact ⟨_, hi.pollsTo⟩
  · intro k hk
    refine ⟨?_, hk.pollsTo, endAt_le k⟩
    by_contra hlt
    -- A client that is still asking after the task has ended asks for ever.
    have hs := (h.waits_iff hfinal le_rfl).mp (hk.waits n (by omega))
    exact hk.stops (hlate hs k (by omega))
  · intro hs hwaits
    refine ⟨⟨hwaits, hstop hs⟩, ?_, ?_⟩
    · rw [endAt, h.status n le_rfl]
      exact h.run_results hfinal (Nat.le_succ n)
    · cases s
      case completed | partlyDone => exact h.results (n + 2) (by omega)
      case unaccepted => exact absurd rfl hs
      all_goals exact ⟨_, rfl⟩
  · intro hs hwaits patience
    refine run_pollResults_waits a c id interval fun k _ => ?_
    rcases Nat.lt_or_ge k n with hk | hk
    · exact hwaits k hk
    · exact hlate hs k hk

end Settled

end AnswerScript

open AnswerScript

/-! ### Two tasks -/

def HttpResponse.ofStatus (s : TaskStatus) : HttpResponse :=
  ⟨200, "application/json", (Json.obj [("status", .str s.name)]).text⟩

theorem HttpResponse.json_ofStatus (s : TaskStatus) :
    (HttpResponse.ofStatus s).json = .ok (.obj [("status", .str s.name)]) := by
  have hbody : (ofStatus s).body = (Json.obj [("status", .str s.name)]).text := rfl
  have hsome : (ofStatus s).body.isEmpty = false := by
    simp [hbody, Json.text]
  rw [json, if_neg (by simp [ofStatus]), if_neg (by simp [hsome]), hbody, Json.parse?_text _ rfl]
  rfl

/-- The service of a task that comes to one status after the other. -/
def AnswerScript.ofStatuses (f : Nat → TaskStatus) : AnswerScript := fun k _ => .ok (.ofStatus (f k))

namespace AnswerScript

variable (f : Nat → TaskStatus) (c : QueueClient) (id : String) (k : Nat)

theorem statusAt_ofStatuses : (ofStatuses f).statusAt c id k = .ok (.str (f k).name) := by
  rw [statusAt, status, run_bind]
  change ((do member "status" (← (HttpResponse.ofStatus (f k)).json) :
    Session Nat Json).run (k + 1)).1 = _
  rw [HttpResponse.json_ofStatus]
  rfl

theorem resultsAt_ofStatuses :
    (ofStatuses f).resultsAt c id k = .ok (.obj [("status", .str (f k).name)]) :=
  HttpResponse.json_ofStatus (f k)

theorem settles_ofStatuses {n : Nat} {s : TaskStatus} (h : ∀ k, n ≤ k → f k = s) :
    (ofStatuses f).Settles c id n s where
  status k hk := by rw [statusAt_ofStatuses, h k hk]
  results k _ := ⟨_, resultsAt_ofStatuses f c id k⟩

end AnswerScript

def sampleClient : QueueClient := ⟨"host", "unit", "v0", none, none⟩

/-- A task that is waiting at the first two requests and has failed afterwards. -/
def failingTask : AnswerScript := .ofStatuses fun k => if k < 2 then .enqueued else .failed

/-- The results of the failing task are had with at most five requests. -/
theorem failingTask_polled :
    TaskStatus.failed.isFinal = true ∧ failingTask.Settles sampleClient "task" 2 .failed ∧
    ∃ requests ≤ 5, failingTask.PollsTo sampleClient "task" (.whole 3)
      (.ok (QueueClient.noShots "Failed"), requests) := by
  have hsettles : failingTask.Settles sampleClient "task" 2 .failed :=
    settles_ofStatuses _ _ _ fun k hk => if_neg (by omega)
  have hwaits : ∀ k < 2, failingTask.Waits sampleClient "task" k := by
    intro k hk
    refine ⟨_, statusAt_ofStatuses _ _ _ k, ?_⟩
    rw [if_pos hk]
    rfl
  obtain ⟨-, hends, hresults, -⟩ :=
    polling_ends_iff (.whole 3) rfl hsettles
  obtain ⟨hstops, hend, -⟩ := hresults (by decide) hwaits
  obtain ⟨-, hpolls, hlength⟩ := hends 2 hstops
  refine ⟨rfl, hsettles, (failingTask.endAt sampleClient "task" 2).2, hlength, ?_⟩
  rwa [show ((.ok (noShots "Failed"), _) : Outcome Json × Nat) =
    failingTask.endAt sampleClient "task" 2 from Prod.ext hend.symm rfl]

/-- A task that is not accepted. -/
def refusedTask : AnswerScript := .ofStatuses fun _ => .unaccepted

/-- **A task that is not accepted is polled for ever**: after as many requests as one likes the
client is still waiting, although the results of the task are a fault of their own. -/
theorem refusedTask_polled_for_ever : refusedTask.Settles sampleClient "task" 0 .unaccepted ∧
    (∀ patience, (sampleClient.pollResults (refusedTask.transport patience) "task").run 0 =
      (.error .stillWaiting, patience + 1)) ∧
    ((sampleClient.results (refusedTask.transport 0) "task").run 0).1 =
      .error (.reported .invalidRecord
        "Task: task has validation error, unable to fetch error message.") := by
  have hsettles : refusedTask.Settles sampleClient "task" 0 .unaccepted :=
    settles_ofStatuses _ _ _ fun _ _ => rfl
  refine ⟨hsettles, fun patience => ?_, ?_⟩
  · exact run_pollResults_waits _ _ _ _ fun k _ =>
      (hsettles.waits_iff rfl (Nat.zero_le k)).mpr rfl
  · exact hsettles.run_results rfl (Nat.zero_le _)

end AtomArray
