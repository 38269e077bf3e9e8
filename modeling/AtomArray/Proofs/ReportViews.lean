import AtomArray.Proofs.Reports

/-!
The lists of a report side by side.

A report lists the metadata of all tasks that it shows. Bit strings and counts are gathered from the
rows instead, so that a task of which they take no row is missing, and everything after it moves up.
`RemoteBatch.views_aligned_iff` says when the lists stand side by side.
-/

namespace AtomArray

open List Outcome Report

theorem Geometry.task_of_mem_rows {g : Geometry} {k : Int} {results : TaskResults}
    {rows : List ReportRow} (h : g.rows k results = .ok rows) : ∀ row ∈ rows, row.task = k := by
  intro row hrow
  obtain ⟨x, -, hx⟩ := exists_of_mem_forall₂ (mapM_eq_ok_iff.mp h).flip hrow
  simp only [Geometry.row, bind_eq_ok] at hx
  obtain ⟨_, -, _, -, _, -, hx⟩ := hx
  cases hx
  rfl

namespace Report

/-- The cells of the rows of a task that a view takes. -/
def cellsOf (r : Report) (onlyWanted : Bool) (k : Int) : List (List (Option Bool)) :=
  ((r.selected onlyWanted).filter (·.task = k)).map r.cells

/-- How often each text occurs among some rows. -/
def countsOf (r : Report) (rows : List (List (Option Bool))) : List (String × Nat) :=
  let sorted := (countRows rows).mergeSort fun a b => cellsLe a.1 b.1
  let ranked := sorted.mergeSort fun a b => decide (b.2 ≤ a.2)
  Json.merge [] (ranked.map fun (cells, n) => (String.join (cells.map (cellText r.isRagged)), n))

theorem counts_eq_map (r : Report) : r.counts = r.bitstrings.map r.countsOf := rfl

end Report

namespace RemoteBatch

variable {δ : Type} {b : RemoteBatch δ} {r : Report}

theorem report_eq_ok : b.report = .ok r ↔ ∃ rows,
    Forall₂ (fun x rows => x.2.1.geometry.rows x.1 x.2.2 = .ok rows) b.shown rows ∧
      r = ⟨rows.flatten, b.shown.map (·.2.1.metadata), b.shown.map (·.2.1.geometry),
        b.name.getD "Remote"⟩ := by
  simp only [report, bind_eq_ok, mapM_eq_ok_iff, return_eq_ok, eq_comm (b := r)]

/-- The rows of a report stand task by task, in the order in which it shows the tasks. -/
theorem rows_eq_flatMap (hkeys : (b.tasks.map Prod.fst).Nodup) (h : b.report = .ok r) :
    r.rows = b.shown.flatMap fun x => r.rows.filter (·.task = x.1) := by
  obtain ⟨rows, hrows, rfl⟩ := report_eq_ok.mp h
  have hlength := hrows.length_eq
  have hshown : (b.shown.zip rows).map Prod.fst = b.shown := map_fst_zip hlength.le
  have hflat : (b.shown.zip rows).flatMap Prod.snd = rows.flatten := by
    rw [flatMap_def, map_snd_zip hlength.ge]
  have hown : ∀ p ∈ b.shown.zip rows, ∀ row ∈ p.2, row.task = p.1.1 := fun p hp =>
    Geometry.task_of_mem_rows (forall₂_iff_zip.mp hrows |>.2 hp)
  have hnodup : ((b.shown.zip rows).map fun p => p.1.1).Nodup := by
    have hkeys := keys_shown.nodup hkeys
    rwa [← hshown, map_map] at hkeys
  calc rows.flatten = (b.shown.zip rows).flatMap Prod.snd := hflat.symm
    _ = (b.shown.zip rows).flatMap fun p => rows.flatten.filter (·.task = p.1.1) := by
      refine flatMap_congr fun p hp => ?_
      rw [← hflat, filter_tag_flatMap hnodup hown hp]
    _ = ((b.shown.zip rows).map Prod.fst).flatMap fun x => rows.flatten.filter (·.task = x.1) := by
      rw [flatMap_map]
    _ = b.shown.flatMap fun x => rows.flatten.filter (·.task = x.1) := by rw [hshown]

/-- A view has the tasks that are shown and of which it takes a row, in their order. -/
theorem bitstrings_eq (hkeys : (b.tasks.map Prod.fst).Nodup) (h : b.report = .ok r)
    (onlyWanted : Bool) : r.bitstrings onlyWanted =
      (b.shown.filter fun x => r.cellsOf onlyWanted x.1 ≠ []).map
        fun x => r.cellsOf onlyWanted x.1 := by
  have hselected : r.selected onlyWanted =
      b.shown.flatMap fun x => (r.selected onlyWanted).filter (·.task = x.1) := by
    cases onlyWanted with
    | false => exact rows_eq_flatMap hkeys h
    | true =>
      have hfilter := congrArg (filter fun row => row.wanted = row.before) (rows_eq_flatMap hkeys h)
      rw [filter_flatMap] at hfilter
      refine hfilter.trans (flatMap_congr fun x _ => ?_)
      rw [filter_comm]
      rfl
  have htasks : tasksOf (r.selected onlyWanted) =
      (b.shown.filter fun x => r.cellsOf onlyWanted x.1 ≠ []).map (·.1) := by
    rw [tasksOf, hselected, map_flatMap, distinct_flatMap (keys_shown.nodup hkeys)]
    · simp [cellsOf]
    · intro x _ k hk
      obtain ⟨row, hrow, rfl⟩ := mem_map.mp hk
      simpa using of_mem_filter hrow
  rw [bitstrings, htasks, map_map]
  rfl

/-- A list has one entry for each task that a report shows, in their order: the entry of the task. -/
def Aligned {α : Type} (b : RemoteBatch δ) (entry : Int → α) (xs : List α) : Prop :=
  xs = b.shown.map fun x => entry x.1

/-- Of every task that a report shows a view takes some row. -/
def Represented (b : RemoteBatch δ) (r : Report) (onlyWanted : Bool) : Prop :=
  ∀ k t results, b.Shows k t results → ∃ row ∈ r.selected onlyWanted, row.task = k

variable {onlyWanted : Bool}

theorem represented_iff : b.Represented r onlyWanted ↔
    ∀ x ∈ b.shown, r.cellsOf onlyWanted x.1 ≠ [] := by
  simp [Represented, ← mem_shown, cellsOf]

/-- A list of the tasks of which a view takes a row is aligned, or at least of the right length,
exactly if the view takes a row of each. -/
theorem aligned_iff_represented {α : Type} (entry : Int → α) {xs : List α}
    (hxs : xs = (b.shown.filter fun x => r.cellsOf onlyWanted x.1 ≠ []).map fun x => entry x.1) :
    (b.Aligned entry xs ↔ b.Represented r onlyWanted) ∧
      (xs.length = b.shown.length ↔ b.Represented r onlyWanted) := by
  have hlength : xs.length = b.shown.length ↔ b.Represented r onlyWanted := by
    rw [hxs, length_map, length_filter_eq_length_iff, represented_iff]
    simp
  refine ⟨⟨fun h => hlength.mp ?_, fun h => ?_⟩, hlength⟩
  · rw [h, length_map]
  · rw [Aligned, hxs, filter_eq_self.mpr fun x hx => by simpa using represented_iff.mp h x hx]

/-- The lists of a report are aligned with its metadata exactly if a row is taken of every task that
is shown. The values of a parameter are aligned, and are listed if all tasks have one. -/
theorem views_aligned_iff (hkeys : (b.tasks.map Prod.fst).Nodup) (h : b.report = .ok r) :
    r.metas = b.shown.map (·.2.1.metadata) ∧
    (∀ onlyWanted,
      (b.Aligned (r.cellsOf onlyWanted) (r.bitstrings onlyWanted) ↔ b.Represented r onlyWanted) ∧
      ((r.bitstrings onlyWanted).length = r.metas.length ↔ b.Represented r onlyWanted)) ∧
    (b.Aligned (fun k => r.countsOf (r.cellsOf true k)) r.counts ↔ b.Represented r true) ∧
    (r.counts.length = r.metas.length ↔ b.Represented r true) ∧
    ∀ name vs, r.listParam name = .ok vs ↔
      Forall₂ (fun m v => ∃ p, m.lookup name = some p ∧ Report.listed p = .ok v) r.metas vs := by
  have hmetas : r.metas = b.shown.map (·.2.1.metadata) := by
    obtain ⟨rows, -, rfl⟩ := report_eq_ok.mp h
    rfl
  have hlength : r.metas.length = b.shown.length := by rw [hmetas, length_map]
  have hcounts : r.counts = (b.shown.filter fun x => r.cellsOf true x.1 ≠ []).map fun x =>
      r.countsOf (r.cellsOf true x.1) := by
    rw [counts_eq_map, bitstrings_eq hkeys h, map_map]
    rfl
  obtain ⟨haligned, hcount⟩ :=
    aligned_iff_represented (fun k => r.countsOf (r.cellsOf true k)) hcounts
  rw [hlength]
  refine ⟨hmetas, fun onlyWanted => aligned_iff_represented _ (bitstrings_eq hkeys h onlyWanted),
    haligned, hcount, fun name vs => ?_⟩
  rw [listParam, mapM_eq_ok_iff]
  refine Iff.of_eq (congrArg (Forall₂ · r.metas vs) ?_)
  funext m v
  cases m.lookup name <;> simp

/-- Two tasks at one site. The site was empty before the only shot of the first. -/
def unfilledFirst : RemoteBatch Unit where
  tasks := [false, true].zipIdx.map fun p => (p.2, { TaskCall.waitingTask with
    id := some "task"
    spec := { (default : TaskSpec Quantity) with sites := [default], filling := [1] }
    metadata := [("x", .whole p.2)]
    results := some ⟨.completed, [⟨.completed, [p.1], [true]⟩]⟩ })

/-- All bit strings are aligned, but the counts are not: of the first task no row is taken. -/
theorem unfilledFirst_aligned : ∃ r, unfilledFirst.report = .ok r ∧
    unfilledFirst.Aligned (r.cellsOf false) (r.bitstrings false) ∧
    ¬unfilledFirst.Represented r true := by
  refine ⟨_, rfl, ?_⟩
  obtain ⟨-, hbits, -, hcounts, -⟩ := views_aligned_iff (b := unfilledFirst) (by decide) rfl
  refine ⟨(hbits false).1.mpr ((hbits false).2.mp ?_), fun h => absurd (hcounts.mpr h) ?_⟩
  · with_unfolding_all rfl
  · decide

/-- The counts of the second task stand beside the metadata of the first. A parameter without
values is refused. -/
theorem unfilledFirst_moves_up : ∃ r, unfilledFirst.report = .ok r ∧
    r.metas = [[("x", .whole 0)], [("x", .whole 1)]] ∧ r.bitstrings = [[[some true]]] ∧
    r.counts = [[("1", 1)]] ∧ r.listParam "y" = .error .type := by
  refine ⟨_, rfl, rfl, ?_, ?_, rfl⟩ <;> with_unfolding_all rfl

end RemoteBatch

end AtomArray
