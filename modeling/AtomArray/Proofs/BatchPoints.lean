import AtomArray.Proofs.SuppliedParameter

/-!
The jobs of a batch.

The points of a batch are given by columns or one by one. A program is compiled to one job for each
point, and the metadata of the job has the values of the point (`Chain.job_for_each_point`). Without
a batch there is one job, that of the empty point. A batch without columns, though, has no point, and
gives no job.
-/

namespace AtomArray

open List Outcome Option Step Env

variable {N : Type}

/-! ### Environments that bind a name once -/

/-- No name is bound twice, and one of them is bound to this value. -/
def Env.Binds (env : Env N) (name : String) (p : Param N) : Prop :=
  (env.map Prod.fst).Nodup ∧ env.lookup name = some p

namespace Env

variable {env more : Env N} {name : String} {p : Param N}

theorem nodup_insert (h : (env.map Prod.fst).Nodup) (key : String) (q : Param N) :
    ((insert key q env).map Prod.fst).Nodup := by
  induction env with
  | nil => exact nodup_singleton key
  | cons kv env ih =>
    obtain ⟨hfresh, hnodup⟩ := nodup_cons.mp h
    rw [insert, Json.insert]
    by_cases hk : kv.1 = key
    · rwa [if_pos hk]
    · have habsent : (insert key q env).lookup kv.1 = none := by
        rw [lookup_insert, if_neg hk, lookup_eq_none.mpr hfresh]
      rw [if_neg hk]
      exact nodup_cons.mpr ⟨lookup_eq_none.mp habsent, ih hnodup⟩

theorem nodup_extend (h : (env.map Prod.fst).Nodup) (more : Env N) :
    ((env.extend more).map Prod.fst).Nodup := by
  unfold extend Json.merge
  induction more generalizing env with
  | nil => exact h
  | cons kv more ih => exact ih (nodup_insert h kv.1 kv.2)

theorem Binds.insert (h : env.Binds name p) {key : String} (hkey : key ≠ name) (q : Param N) :
    (env.insert key q).Binds name p :=
  ⟨nodup_insert h.1 key q, by rw [lookup_insert, if_neg hkey.symm, h.2]⟩

theorem lookup_extend (h : (more.map Prod.fst).Nodup) (name : String) :
    (env.extend more).lookup name = (more.lookup name).or (env.lookup name) := by
  unfold extend Json.merge
  induction more generalizing env with
  | nil => rfl
  | cons kv more ih =>
    obtain ⟨hfresh, hmore⟩ := nodup_cons.mp h
    rw [foldl_cons, ih hmore, lookup_cons_ite]
    change (more.lookup name).or ((insert kv.1 kv.2 env).lookup name) = _
    rw [lookup_insert]
    by_cases hk : name = kv.1
    · rw [if_pos hk, if_pos hk, hk, lookup_eq_none.mpr hfresh]
      rfl
    · rw [if_neg hk, if_neg hk]

theorem Binds.extend (h : more.Binds name p) (henv : (env.map Prod.fst).Nodup) :
    (env.extend more).Binds name p :=
  ⟨nodup_extend henv more, by rw [lookup_extend h.1, h.2]; rfl⟩

end Env

/-! ### The points of a batch -/

/-- How the points of a batch are given: not at all, by columns, or one by one. -/
inductive Points (N : Type) where
  | omitted
  | columns (env : Env N)
  | rows (points : List (Env N))

namespace Points

/-- The value of a name at a point. -/
def value? (points : Points N) (i : Nat) (name : String) : Option (Param N) :=
  match points with
  | omitted => none
  | columns env => do (← (← env.lookup name).column.toOption)[i]?
  | rows ps => do (← ps[i]?).lookup name

/-- A batch of some number of points, with one value for a name at most. -/
inductive Number : Points N → Nat → Prop where
  | columns {env : Env N} {k : Nat} : env ≠ [] → (env.map Prod.fst).Nodup →
      (∀ q ∈ env, ∃ xs, q.2.column = .ok xs ∧ xs.length = k) → Number (.columns env) k
  | rows {ps : List (Env N)} : (∀ p ∈ ps, (p.map Prod.fst).Nodup) → Number (.rows ps) ps.length

end Points

theorem keys_row_sublist (columns : List (String × List (Param N))) (i : Nat) :
    ((columns.filterMap fun c => (c.2[i]?).map (c.1, ·)).map Prod.fst).Sublist
      (columns.map Prod.fst) := by
  induction columns with
  | nil => exact .slnil
  | cons c columns ih =>
    cases hc : c.2[i]? with
    | none => simpa [hc] using ih.cons c.1
    | some v => simpa [hc] using ih

theorem columnRows_binds {env : Env N} {k : Nat} {rows : List (Env N)}
    (hnumber : (Points.columns env).Number k) (h : columnRows env = .ok rows) :
    rows.length = k ∧ ∀ i row name p, rows[i]? = some row →
      (Points.columns env).value? i name = some p → row.Binds name p := by
  obtain ⟨hne, hnodup, hcolumns⟩ | _ := hnumber
  obtain ⟨columns, hread, h⟩ := bind_eq_ok.mp h
  have hsame : Forall₂ (fun q c => q.1 = c.1 ∧ q.2.column = .ok c.2) env columns := by
    refine (mapM_eq_ok_iff.mp hread).imp fun q c hqc => ?_
    obtain ⟨xs, hxs, hqc⟩ := bind_eq_ok.mp hqc
    cases hqc
    exact ⟨rfl, hxs⟩
  have hlength : ∀ c ∈ columns, c.2.length = k := by
    intro c hc
    obtain ⟨q, hq, -, hcolumn⟩ := exists_of_mem_forall₂ hsame.flip hc
    obtain ⟨xs, hxs, hk⟩ := hcolumns q hq
    rw [hcolumn] at hxs
    cases hxs
    exact hk
  have hrows : rows = (range k).map fun i =>
      columns.filterMap fun c => (c.2[i]?).map (c.1, ·) := by
    cases columns with
    | nil => exact absurd (forall₂_nil_right_iff.mp hsame) hne
    | cons c columns =>
      simp only [map_cons] at h
      split at h
      · cases h
        rw [rowsOf, hlength c mem_cons_self]
      · cases h
  subst hrows
  refine ⟨by simp, fun i row name p hrow hp => ?_⟩
  rw [getElem?_map, map_eq_some_iff] at hrow
  obtain ⟨j, hj, rfl⟩ := hrow
  obtain ⟨_, rfl⟩ := List.getElem?_eq_some_iff.mp hj
  rw [getElem_range] at *
  have hkeys := (keys_row_sublist columns i).nodup (keys_eq hsame ▸ hnodup)
  refine ⟨hkeys, lookup_of_mem hkeys ?_⟩
  obtain ⟨q, hq, hp⟩ := bind_eq_some_iff.mp hp
  obtain ⟨xs, hxs, hp⟩ := bind_eq_some_iff.mp hp
  obtain ⟨⟨_, ys⟩, hc, rfl, hys⟩ := exists_of_mem_forall₂ hsame (mem_of_lookup hq)
  rw [hys] at hxs
  cases hxs
  exact mem_filterMap.mpr ⟨_, hc, by rw [hp]; rfl⟩

variable [Arith N]

/-! ### Checked values -/

/-- A number is bound as a decimal, and a list as the list of its numbers. -/
def Param.BoundAs (p q : Param N) : Prop :=
  p.asNumber.map .number = .ok q ∨ ∃ xs vs, (p = .list xs ∨ p = .array xs) ∧
    xs.mapM Param.asNumber = .ok vs ∧ q = .list (vs.map .number)

variable {rules : ParamRules}

theorem ParamRules.check_boundAs {name : String} {p q : Param N}
    (h : rules.check name p = .ok q) : p.BoundAs q := by
  rw [check] at h
  split at h
  · cases p with
    | list xs | array xs =>
      rw [Param.asVector] at h
      split at h
      · cases h
      · obtain ⟨vs, hvs, h⟩ := bind_eq_ok.mp h
        cases h
        exact .inr ⟨xs, vs, by simp, hvs, rfl⟩
    | _ => cases h
  · split at h
    · exact .inl h
    · cases h

theorem Env.Binds.checkAll {env checked : Env N} {name : String} {p : Param N}
    (h : env.Binds name p) (hchecked : rules.checkAll env = .ok checked) :
    ∃ q, checked.Binds name q ∧ p.BoundAs q := by
  have hsame := ParamRules.checkAll_forall₂ hchecked
  obtain ⟨⟨_, q⟩, hq, rfl, hcheck⟩ := exists_of_mem_forall₂ hsame (mem_of_lookup h.2)
  have hnodup : (checked.map Prod.fst).Nodup := keys_eq hsame ▸ h.1
  exact ⟨q, ⟨hnodup, lookup_of_mem hnodup hq⟩, ParamRules.check_boundAs hcheck⟩

/-! ### The metadata of jobs -/

theorem Params.keys_named {p : Params N} {values : List (Param N)} {given : Env N}
    (h : p.named values = .ok given) : given.map Prod.fst = p.args := by
  rw [named] at h
  split at h
  · cases h
  · rename_i hcount
    obtain ⟨numbers, hnumbers, h⟩ := bind_eq_ok.mp h
    cases h
    refine map_fst_zip ?_
    rw [length_map, ← (mapM_eq_ok_iff.mp hnumbers).length_eq, not_not.mp hcount]

namespace Routine

variable {r : Routine N} {limits : Capabilities N} {shots : Int} {args : List (Param N)}
  {jobs : List (HardwareJob N)}

/-- A name is recorded by the program, once its fixed parameters are bound. -/
def Records (r : Routine N) (name : String) : Prop :=
  ∃ circuit, r.circuit.assign r.params.fixed = .ok circuit ∧ name ∈ circuit.sequence.recorded

/-- What is bound in a row of the batch is found in the metadata of its job, if it is not
recorded. -/
theorem hardwareJobs_binds (hargs : r.params.args.Nodup)
    (h : r.hardwareJobs limits shots args = .ok jobs) :
    Forall₂ (fun row job => ∀ name p, row.Binds name p → ¬r.Records name →
      job.metadata.lookup name = some p) r.params.batch jobs := by
  obtain ⟨circuit, given, hcircuit, hgiven, hjobs⟩ := hardwareJobs_eq_ok h
  refine hjobs.imp fun row job hjob name p hrow hname => ?_
  obtain ⟨recorded, _, hrecorded, -, hmetadata⟩ := hjob
  have hkeys : (given.map Prod.fst).Nodup := Params.keys_named hgiven ▸ hargs
  have hkeep : Waveform.BindingKeeps circuit.sequence.recorded (Binds · name p) := by
    intro env key q hkey henv
    refine henv.insert ?_ _
    rintro rfl
    exact hname ⟨circuit, hcircuit, hkey⟩
  have hbinds : recorded.Binds name p :=
    Sequence.scanRecords_keeps hkeep (hrow.extend hkeys) hrecorded
  rw [hmetadata, lookup_extend hbinds.1, hbinds.2]
  rfl

end Routine

/-! ### The batch of a chain -/

/-- What becomes of the points that are given: the batch of the program. -/
inductive Points.Yields : Points N → List (Env N) → Prop where
  | omitted : Yields .omitted [[]]
  | empty : Yields (.columns []) []
  | columns {env : Env N} {rows batch : List (Env N)} {rules : ParamRules} : env ≠ [] →
      columnRows env = .ok rows → rows.mapM rules.checkAll = .ok batch → Yields (.columns env) batch
  | rows {ps batch : List (Env N)} {rules : ParamRules} : ps.mapM rules.checkAll = .ok batch →
      Yields (.rows ps) batch

variable {points : Points N}

/-- The batch has a row for each point, with the values of the point as they are bound. -/
theorem Points.Number.yields {k : Nat} {batch : List (Env N)}
    (hk : points.Number k) (h : points.Yields batch) :
    batch.length = k ∧ ∀ i row name p, batch[i]? = some row → points.value? i name = some p →
      ∃ q, row.Binds name q ∧ p.BoundAs q := by
  cases h with
  | omitted => cases hk
  | empty =>
    cases hk with
    | columns hne => exact absurd rfl hne
  | columns hne hrows hbatch =>
    obtain ⟨hlength, hvalues⟩ := columnRows_binds hk hrows
    have hbatch := mapM_eq_ok_iff.mp hbatch
    refine ⟨hbatch.length_eq.symm.trans hlength, fun i row name p hi hp => ?_⟩
    obtain ⟨given, hgiven, hcheck⟩ := exists_getElem?_of_forall₂ hbatch hi
    exact (hvalues i given name p hgiven hp).checkAll hcheck
  | rows hbatch =>
    cases hk with
    | rows hnodup =>
      have hbatch := mapM_eq_ok_iff.mp hbatch
      refine ⟨hbatch.length_eq.symm, fun i row name p hi hp => ?_⟩
      obtain ⟨given, hgiven, hcheck⟩ := exists_getElem?_of_forall₂ hbatch hi
      obtain ⟨_, hgiven', hp⟩ := bind_eq_some_iff.mp hp
      rw [hgiven] at hgiven'
      cases hgiven'
      have hbinds : given.Binds name p := ⟨hnodup given (mem_of_getElem? hgiven), hp⟩
      exact hbinds.checkAll hcheck

namespace Chain

variable {c d : Chain N}

/-- The batch after one more step that supplies parameters. -/
def batchAfter (batch : List (Env N)) : Step N → List (Env N)
  | .columns rows | .batch rows => rows
  | _ => batch

variable {state' : Arrangement N × Params N} {state : Arrangement N × Params N}

theorem addPragma_batch {s : Step N}
    (h : addPragma state s = .ok state') : state'.2.batch = batchAfter state.2.batch s ∧
      (state.2.args.Nodup → state'.2.args.Nodup) := by
  cases s with
  | args names =>
    rw [addPragma] at h
    cases hagain : repeated [] names with
    | nil =>
      simp only [hagain] at h
      cases h
      exact ⟨rfl, fun _ => (repeated_eq_nil.mp hagain).1⟩
    | cons n ns => simp [hagain] at h
  | parallelize spacing =>
    obtain ⟨register, params⟩ := state
    cases register with
    | plain r =>
      obtain ⟨t, -, h⟩ := bind_eq_ok.mp h
      cases h
      exact ⟨rfl, id⟩
    | tiled => cases h
  | _ =>
    cases h
    exact ⟨rfl, id⟩

variable {ps : List (Step N)}

theorem foldlM_addPragma_batch
    (h : ps.foldlM addPragma state = .ok state') (hargs : state.2.args.Nodup) :
    state'.2.batch = ps.foldl batchAfter state.2.batch ∧ state'.2.args.Nodup := by
  induction ps generalizing state with
  | nil =>
    cases h
    exact ⟨rfl, hargs⟩
  | cons s ps ih =>
    obtain ⟨next, hnext, h⟩ := bind_eq_ok.mp h
    obtain ⟨hbatch, hkeep⟩ := addPragma_batch hnext
    rw [foldl_cons, ← hbatch]
    exact ih h (hkeep hargs)

theorem routine_batch (hbody : ∀ s ∈ c.steps, isPragma s = false)
    (hps : ∀ p ∈ ps, isPragma p) {r : Routine N} (h : (c.extend ps).routine = .ok r) :
    r.params.batch = ps.foldl batchAfter [[]] ∧ r.params.args.Nodup := by
  obtain ⟨circuit, state, -, hstate, h⟩ := bind₂_eq_ok.mp h
  cases h
  rw [settings, pragmas_eq rfl hbody hps] at hstate
  exact foldlM_addPragma_batch hstate nodup_nil

/-- The chain with the points of a batch. -/
def withPoints (c : Chain N) : Points N → Outcome (Chain N)
  | .omitted => .ok c
  | .columns env => c.assignColumns env
  | .rows ps => c.assignBatch ps

theorem withPoints_eq_ok (h : c.withPoints points = .ok d) :
    ∃ ps, d = c.extend ps ∧ (∀ p ∈ ps, isPragma p) ∧
      points.Yields (ps.foldl batchAfter [[]]) := by
  cases points with
  | omitted =>
    cases h
    exact ⟨[], by simp [extend], by simp, .omitted⟩
  | columns env =>
    rw [withPoints, assignColumns] at h
    split at h
    · rename_i hempty
      cases h
      obtain rfl := isEmpty_iff.mp hempty
      exact ⟨[.columns []], rfl, by simp [isPragma, sort], .empty⟩
    · rename_i hne
      obtain ⟨⟨names, rules⟩, rows, -, hrows, h⟩ := bind₂_eq_ok.mp h
      obtain ⟨rules, batch, -, hbatch, h⟩ := bind₂_eq_ok.mp h
      cases h
      exact ⟨[.columns batch], rfl, by simp [isPragma, sort],
        .columns (mt isEmpty_iff.mpr hne) hrows hbatch⟩
  | rows ps =>
    obtain ⟨⟨names, rules⟩, rules, -, -, h⟩ := bind₂_eq_ok.mp h
    obtain ⟨_, batch, -, hbatch, h⟩ := bind₂_eq_ok.mp h
    cases h
    exact ⟨[.batch batch], rfl, by simp [isPragma, sort], .rows hbatch⟩

/-- The chain with its parameters supplied: some are fixed, some have the values of a batch, and
some are left to arguments. The register may be repeated. -/
def supplied (c : Chain N) (fixed : Option (Env N)) (points : Points N)
    (later : Option (List String)) (spacing : Option N) : Outcome (Chain N) := do
  let c ← (← c.fixOthers fixed).withPoints points
  return c.extend (later.toList.map .args ++ copies spacing)

theorem batch_of_supplied (hbody : ∀ s ∈ c.steps, isPragma s = false) {fixed : Option (Env N)}
    {later : Option (List String)} {spacing : Option N}
    (h : c.supplied fixed points later spacing = .ok d) {r : Routine N} (hr : d.routine = .ok r) :
    points.Yields r.params.batch ∧ r.params.args.Nodup := by
  obtain ⟨c₁, c₂, hc₁, hc₂, h⟩ := bind₂_eq_ok.mp h
  cases h
  rw [fixOthers_eq] at hc₁
  obtain ⟨checked, -, hc₁⟩ := bind_eq_ok.mp hc₁
  cases hc₁
  obtain ⟨qs, rfl, hqs, hyields⟩ := withPoints_eq_ok hc₂
  rw [← extend_append, ← extend_append] at hr
  -- Only the step with the points touches the batch.
  have hrest : (∀ p ∈ later.toList.map args ++ copies spacing, isPragma p) ∧
      ∀ batch, (later.toList.map args ++ copies spacing).foldl batchAfter batch = batch := by
    cases later <;> cases spacing <;> simp [copies, isPragma, sort, batchAfter]
  have hbefore : (fixing fixed checked).foldl batchAfter [[]] = [[]] := by cases fixed <;> rfl
  obtain ⟨hbatch, hargs⟩ := routine_batch hbody (forall_mem_append.mpr
    ⟨isPragma_fixing _ _, forall_mem_append.mpr ⟨hqs, hrest.1⟩⟩) hr
  rw [foldl_append, foldl_append, hbefore, hrest.2] at hbatch
  exact ⟨hbatch ▸ hyields, hargs⟩

theorem supplied_of_supply {fixed : Env N} {later : List String}
    (h : c.supply fixed (.inr []) later = .ok d) :
    c.supplied (some fixed) (.columns []) (some later) none = .ok d := by
  obtain ⟨_, -, h⟩ := bind_eq_ok.mp h
  exact h

/-- **The jobs of a batch.** There is one for each point, and its metadata has the values of the
point, other than those of names that the program records. Without a batch there is one job. A batch
without columns gives none, and so does a program that is compiled as a whole with no batch. -/
theorem job_for_each_point (hbody : ∀ s ∈ c.steps, isPragma s = false) {r : Routine N}
    (hr : d.routine = .ok r) {limits : Capabilities N} {shots : Int} {args : List (Param N)}
    {jobs : List (HardwareJob N)} (hjobs : r.hardwareJobs limits shots args = .ok jobs) :
    (∀ fixed points later spacing, c.supplied fixed points later spacing = .ok d →
      (∀ k, points.Number k → jobs.length = k ∧ ∀ i job name p, jobs[i]? = some job →
        points.value? i name = some p → ¬r.Records name →
          ∃ q, job.metadata.lookup name = some q ∧ p.BoundAs q) ∧
      (points = .omitted → jobs.length = 1) ∧ (points = .columns [] → jobs = [])) ∧
    ∀ fixed later, c.supply fixed (.inr []) later = .ok d → jobs = [] := by
  obtain ⟨_, _, -, -, hrows⟩ := Routine.hardwareJobs_eq_ok hjobs
  have hlength := hrows.length_eq.symm
  have hempty : ∀ {fixed later spacing}, c.supplied fixed (.columns []) later spacing = .ok d →
      jobs = [] := by
    intro fixed later spacing h
    obtain ⟨hyields, -⟩ := batch_of_supplied hbody h hr
    generalize hbatch : r.params.batch = batch at hyields hlength
    cases hyields with
    | empty => exact length_eq_zero_iff.mp hlength
    | columns hne => exact absurd rfl hne
  refine ⟨fun fixed points later spacing h => ⟨fun k hk => ?_, ?_, ?_⟩, fun fixed later h => ?_⟩
  · obtain ⟨hyields, hargs⟩ := batch_of_supplied hbody h hr
    obtain ⟨hcount, hvalues⟩ := hk.yields hyields
    refine ⟨hlength.trans hcount, fun i job name p hi hp hname => ?_⟩
    obtain ⟨row, hrow, hmetadata⟩ :=
      exists_getElem?_of_forall₂ (Routine.hardwareJobs_binds hargs hjobs) hi
    obtain ⟨q, hbinds, hq⟩ := hvalues i row name p hrow hp
    exact ⟨q, hmetadata name q hbinds hname, hq⟩
  · rintro rfl
    obtain ⟨hyields, -⟩ := batch_of_supplied hbody h hr
    generalize hbatch : r.params.batch = batch at hyields hlength
    cases hyields
    exact hlength
  · rintro rfl
    exact hempty h
  · exact hempty (supplied_of_supply h)

/-- A rise with a given time and the heights of a batch. -/
def riseTo (fixed : Env Rat) (points : Points Rat) : Outcome (Routine Rat) := do
  (← recordedRise.supplied (some fixed) points none none).routine

def twoHeights : Points Rat := .columns [("x", .list [.number (1 / 2), .whole 1])]

/-- Two heights give two jobs, the second with the second height. -/
theorem riseTo_twoHeights : ∃ r first second q, riseTo [("t", .whole 2)] twoHeights = .ok r ∧
    r.hardwareJobs .standard 1 [] = .ok [first, second] ∧
    second.metadata.lookup "x" = some q ∧ (Param.whole 1).BoundAs q := by
  have hsome : (riseTo [("t", .whole 2)] twoHeights >>=
      (Routine.hardwareJobs · .standard 1 [])).toOption.isSome = true := by
    decide +kernel
  obtain ⟨jobs, hjobs⟩ := isSome_iff_exists.mp hsome
  obtain ⟨r, hrise, hjobs⟩ := bind_eq_ok.mp (toOption_eq_some.mp hjobs)
  obtain ⟨d, hd, hr⟩ := bind_eq_ok.mp hrise
  have hbody : ∀ s ∈ recordedRise.steps, isPragma s = false := by
    simp [recordedRise, isPragma, sort]
  have hnumber : twoHeights.Number 2 := .columns (by simp) (by simp) (by simp [Param.column])
  obtain ⟨hlength, hvalues⟩ := ((job_for_each_point hbody hr hjobs).1 _ _ _ _ hd).1 2 hnumber
  obtain ⟨first, second, rfl⟩ := length_eq_two.mp hlength
  have hx : ¬r.Records "x" := by
    rintro ⟨circuit, hcircuit, hx⟩
    have hrecorded : (riseTo [("t", .whole 2)] twoHeights >>= fun r =>
        r.circuit.assign r.params.fixed).toOption.map (·.sequence.recorded) = some ["top"] := by
      decide +kernel
    rw [hrise, ok_bind, hcircuit] at hrecorded
    have hnames : circuit.sequence.recorded = ["top"] := some.inj hrecorded
    simp [hnames] at hx
  obtain ⟨q, hq, hbound⟩ := hvalues 1 second "x" (.whole 1) rfl rfl hx
  exact ⟨r, first, second, q, hrise, hjobs, hq, hbound⟩

/-- A batch without columns gives no job, and no batch at all gives one. -/
theorem riseTo_empty_batch : [Points.omitted, .columns []].map (fun points =>
    (riseTo [("t", .whole 2), ("x", .whole 1)] points >>=
      (Routine.hardwareJobs · .standard 1 [])).toOption.map length) = [some 1, some 0] := by
  decide +kernel

end Chain

end AtomArray
