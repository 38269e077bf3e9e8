import AtomArray.Task.Batch
import AtomArray.Proofs.Outcome
import AtomArray.Proofs.TaskLifeCycle
import Mathlib.Data.List.Perm.Basic
import Mathlib.Data.List.Nodup

/-!
The views of a batch.

The two views of the same statuses split the batch (`RemoteBatch.IsSplit`): each task is in exactly
one of them, and both keep the order. All named views are read off this, among them the one of the
finished tasks, which has the tasks that are not finished: `finishedTasks_not_finished`.
-/

namespace AtomArray

open List

namespace RemoteBatch

variable {δ : Type}

/-- Every task has results, and with them a status. -/
def IsKnown (b : RemoteBatch δ) : Prop := ∀ p ∈ b.tasks, p.2.results ≠ none

/-- The status of a task is one of those that are meant. -/
def Meets (P : TaskStatus → Prop) (t : RemoteTask δ) : Prop :=
  ∃ r, t.results = some r ∧ P r.status

/-- Two batches between them have the tasks of a batch: the first those with a status that is
meant, the second the others. Both keep the order of the tasks, and no number is in both. -/
structure IsSplit (b : RemoteBatch δ) (P : TaskStatus → Prop) (chosen rest : RemoteBatch δ) :
    Prop where
  names : chosen.name = b.name ∧ rest.name = b.name
  sublists : chosen.tasks.Sublist b.tasks ∧ rest.tasks.Sublist b.tasks
  perm : (chosen.tasks ++ rest.tasks).Perm b.tasks
  disjoint : (chosen.tasks.map Prod.fst).Disjoint (rest.tasks.map Prod.fst)
  mem_chosen : ∀ p, p ∈ chosen.tasks ↔ p ∈ b.tasks ∧ Meets P p.2
  mem_rest : ∀ p, p ∈ rest.tasks ↔ p ∈ b.tasks ∧ ¬Meets P p.2

/-- Whether the status of a task is listed. -/
def isListed (codes : List TaskStatus) (t : RemoteTask δ) : Bool :=
  t.results.any fun r => codes.contains r.status

variable {codes : List TaskStatus}

theorem isListed_eq_true {t : RemoteTask δ} : isListed codes t ↔ Meets (· ∈ codes) t := by
  cases h : t.results <;> simp [isListed, Meets, h]

variable {b : RemoteBatch δ}

theorem choose_eq_ok (h : b.IsKnown) (keep : Bool) (codes : List TaskStatus) : b.choose keep codes =
      .ok { b with tasks := b.tasks.filter fun p => isListed codes p.2 == keep } := by
  rw [choose, Outcome.mapM_eq_ok (g := fun p => (isListed codes p.2, p.1, p.2))]
  · rw [Outcome.ok_bind, filter_map, map_map]
    exact congrArg (fun ts => Except.ok { b with tasks := ts }) (map_id _)
  · intro p hp
    obtain ⟨r, hr⟩ := Option.ne_none_iff_exists'.mp (h p hp)
    simp [statusOf, isListed, hr]

theorem choose_eq_error (h : ¬b.IsKnown) (keep : Bool) (codes : List TaskStatus) :
    b.choose keep codes = .error .part := by
  have hsome : ∃ p ∈ b.tasks, p.2.results = none := by simpa [IsKnown] using h
  rw [choose, Outcome.mapM_eq_error (e := .part)]
  · rfl
  · intro p _
    cases hr : p.2.results with
    | none => exact .inr (by simp [statusOf, hr])
    | some r => exact .inl ⟨_, by simp [statusOf, hr]; rfl⟩
  · obtain ⟨p, hp, hr⟩ := hsome
    exact ⟨p, hp, by simp [statusOf, hr]⟩

variable {P : TaskStatus → Prop}

theorem isSplit_filter (hkeys : (b.tasks.map Prod.fst).Nodup) (hP : ∀ s, s ∈ codes ↔ P s) :
    b.IsSplit P { b with tasks := b.tasks.filter fun p => isListed codes p.2 == true }
      { b with tasks := b.tasks.filter fun p => isListed codes p.2 == false } := by
  have hmeets : ∀ t : RemoteTask δ, isListed codes t ↔ Meets P t := by
    intro t
    simp only [isListed_eq_true, Meets, hP]
  have hperm := filter_append_perm (fun p => isListed codes p.2) b.tasks
  refine ⟨⟨rfl, rfl⟩, ⟨filter_sublist, filter_sublist⟩, ?_, ?_, ?_, ?_⟩
  · simpa using hperm
  · have hnodup := (hperm.map Prod.fst).nodup_iff.mpr hkeys
    rw [map_append] at hnodup
    simpa using disjoint_of_nodup_append hnodup
  · intro p
    simp [hmeets]
  · intro p
    simp [← hmeets]

theorem exists_split (hkeys : (b.tasks.map Prod.fst).Nodup) (hknown : b.IsKnown)
    (codes : List TaskStatus) (hP : ∀ s, s ∈ codes ↔ P s) :
    ∃ chosen rest, b.getTasks codes = .ok chosen ∧ b.removeTasks codes = .ok rest ∧
      b.IsSplit P chosen rest :=
  ⟨_, _, choose_eq_ok hknown true codes, choose_eq_ok hknown false codes, isSplit_filter hkeys hP⟩

theorem IsSplit.subset_of_imp {Q : TaskStatus → Prop} {chosen rest chosen' rest' : RemoteBatch δ}
    (h : b.IsSplit P chosen rest) (h' : b.IsSplit Q chosen' rest') (himp : ∀ s, P s → Q s) :
    chosen.tasks ⊆ chosen'.tasks := by
  intro p hp
  obtain ⟨hmem, r, hr, hP⟩ := (h.mem_chosen p).mp hp
  exact (h'.mem_chosen p).mpr ⟨hmem, r, hr, himp _ hP⟩

/-- The two parts of a split are the same only if there is nothing to split. -/
theorem IsSplit.parts_eq_iff {chosen rest : RemoteBatch δ}
    (h : b.IsSplit P chosen rest) : chosen.tasks = rest.tasks ↔ b.tasks = [] := by
  constructor
  · intro heq
    have hnone : chosen.tasks = [] := by
      refine eq_nil_iff_forall_not_mem.mpr fun p hp => ?_
      exact ((h.mem_rest p).mp (heq ▸ hp)).2 ((h.mem_chosen p).mp hp).2
    have hperm := h.perm
    rw [← heq, hnone] at hperm
    exact hperm.nil_eq.symm
  · intro hnil
    have hperm := h.perm
    rw [hnil, perm_nil, append_eq_nil_iff] at hperm
    rw [hperm.1, hperm.2]

/-- **The views of a batch.** There are views exactly if the status of every task is known. The
tasks with given statuses and the others split the batch; so do the failed tasks and those that are
left when the failed ones are removed. The completed and the failed tasks are among the final ones.
The view of the finished tasks has the others: it has the final ones only if the batch is empty. -/
theorem views_split (b : RemoteBatch δ) (hkeys : (b.tasks.map Prod.fst).Nodup) :
    (¬b.IsKnown → ∀ codes, b.getTasks codes = .error .part ∧ b.removeTasks codes = .error .part) ∧
    (b.IsKnown →
      (∀ codes, ∃ chosen rest, b.getTasks codes = .ok chosen ∧ b.removeTasks codes = .ok rest ∧
        b.IsSplit (· ∈ codes) chosen rest) ∧
      ∃ failed others completed incomplete final left,
        b.failedTasks = .ok failed ∧ b.removeFailed = .ok others ∧
        b.IsSplit (fun s => s = .failed ∨ s = .unaccepted) failed others ∧
        b.completedTasks = .ok completed ∧
        b.IsSplit (fun s => s = .completed ∨ s = .partlyDone) completed incomplete ∧
        b.finishedTasks = .ok left ∧ b.IsSplit (·.isFinal = true) final left ∧
        completed.tasks ⊆ final.tasks ∧ failed.tasks ⊆ final.tasks ∧
        (left.tasks = final.tasks ↔ b.tasks = [])) := by
  refine ⟨fun h codes => ⟨choose_eq_error h true codes, choose_eq_error h false codes⟩, ?_⟩
  intro hknown
  refine ⟨fun codes => exists_split hkeys hknown codes fun _ => Iff.rfl, ?_⟩
  obtain ⟨failed, others, hfailed, hothers, hfail⟩ := exists_split hkeys hknown
    [.failed, .unaccepted] (P := fun s => s = .failed ∨ s = .unaccepted) (by simp)
  obtain ⟨completed, incomplete, hcompleted, -, hcomplete⟩ := exists_split hkeys hknown
    [.completed, .partlyDone] (P := fun s => s = .completed ∨ s = .partlyDone) (by simp)
  obtain ⟨final, left, -, hleft, hfinal⟩ := exists_split hkeys hknown
    [.completed, .failed, .unaccepted, .partlyDone, .cancelled] (P := (·.isFinal = true)) (by
      intro s
      cases s <;> decide)
  refine ⟨failed, others, completed, incomplete, final, left, hfailed, hothers, hfail, hcompleted,
    hcomplete, hleft, hfinal, hcomplete.subset_of_imp hfinal ?_, hfail.subset_of_imp hfinal ?_, ?_⟩
  · rintro s (rfl | rfl) <;> rfl
  · rintro s (rfl | rfl) <;> rfl
  · rw [eq_comm, hfinal.parts_eq_iff]

end RemoteBatch

/-- A task that is completed, one that is running and one that has failed. -/
def threeTasks : RemoteBatch Unit where
  tasks := [(4, taskWith .completed), (0, taskWith .running), (7, taskWith .failed)]
where
  taskWith (status : TaskStatus) : RemoteTask Unit :=
    { TaskCall.waitingTask with results := some ⟨status, []⟩ }

/-- Two of the three tasks are final, and the third is what is left of the batch. -/
theorem threeTasks_split :
    (threeTasks.tasks.map Prod.fst).Nodup ∧ threeTasks.IsKnown ∧
    ∃ final left, threeTasks.finishedTasks = .ok left ∧
      threeTasks.IsSplit (·.isFinal = true) final left ∧ left.tasks ≠ final.tasks := by
  have hkeys : (threeTasks.tasks.map Prod.fst).Nodup := by decide
  have hknown : threeTasks.IsKnown := by
    simp [RemoteBatch.IsKnown, threeTasks, threeTasks.taskWith]
  obtain ⟨-, hviews⟩ := RemoteBatch.views_split threeTasks hkeys
  obtain ⟨-, _, _, _, _, final, left, -, -, -, -, -, hleft, hsplit, -, -, hsame⟩ := hviews hknown
  exact ⟨hkeys, hknown, final, left, hleft, hsplit, fun heq => by cases hsame.mp heq⟩

/-- **The finished tasks of a batch are those that are not finished**: of the three tasks, the
first is completed and the last has failed, and the view has the one that is running. -/
theorem finishedTasks_not_finished :
    threeTasks.completedTasks.map (·.tasks.map Prod.fst) = .ok [4] ∧
    threeTasks.failedTasks.map (·.tasks.map Prod.fst) = .ok [7] ∧
    threeTasks.finishedTasks.map (·.tasks.map Prod.fst) = .ok [0] :=
  ⟨rfl, rfl, rfl⟩

end AtomArray
