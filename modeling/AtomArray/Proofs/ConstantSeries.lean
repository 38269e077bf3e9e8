import AtomArray.Proofs.Realization

/-!
Piecewise constant series of waveforms.

A series keeps the value that begins at each time, and repeats the last value at the end. Cutting
(`slice_ofPoints`) and appending (`append_ofPoints`) keep the steps that the points trace
(`rules_sound`). A look-up between two times takes the value kept at the later one, so it agrees
with one in a cut unless the cut ends in that step.
-/

namespace AtomArray

open List Outcome Collect Exact Series

namespace PiecewiseConstant

variable {env : Env Rat} {f : Rat → Rat} {s e t : Rat} {points : List Breakpoint}

/-! ### Cuts -/

theorem repeatLast_append {α : Type} (xs : List α) (x y : α) :
    repeatLast (xs ++ [x] ++ [y]) = .ok (xs ++ [x] ++ [x]) := by
  simp [repeatLast]

theorem upTo_ofPoints (pre mid post : List Breakpoint) (q : Breakpoint) (b : Rat) :
    upTo (ofPoints (pre ++ (mid ++ q :: post))) b q.1 pre.length (pre.length + mid.length) =
      .ok (mid ++ [(b, q.2)]).unzip := by
  simp only [upTo, times_ofPoints, values_ofPoints, item?_append_append, ok_bind,
    same_eq, decide_eq_true_eq, between_append, between_append_succ, unzip_eq_map]
  split
  · rename_i hb
    simp [hb]
  · simp

theorem cut_ofPoints {pre mid post rest head : List Breakpoint} {q r : Breakpoint} {a b : Rat}
    (hr : mid ++ q :: post = r :: rest)
    (hhead : (a = r.1 ∧ head = []) ∨ a ≠ r.1 ∧ ∃ init p, pre = init ++ [p] ∧ head = [(a, p.2)]) :
    cut (ofPoints (pre ++ (mid ++ q :: post))) a b pre.length (pre.length + mid.length) =
      .ok (head ++ mid ++ [(b, q.2)]).unzip := by
  have hfirst : item? ((pre ++ (mid ++ q :: post)).map Prod.fst) pre.length = .ok r.1 := by
    rw [hr]
    exact item?_append _ _ _ _
  simp only [cut, times_ofPoints, values_ofPoints, hfirst, item?_append_append, ok_bind,
    same_eq, decide_eq_true_eq, upTo_ofPoints]
  rcases hhead with ⟨ha, rfl⟩ | ⟨ha, init, p, rfl, rfl⟩
  · simp [ha, unzip_eq_map]
  · have hbefore : item? ((init ++ [p] ++ (mid ++ q :: post)).map Prod.snd)
        (((init ++ [p]).length : Int) - 1) = .ok p.2 := by
      have := item?_append Prod.snd init (mid ++ q :: post) p
      simpa using this
    rw [if_neg ha, hbefore]
    simp

/-- The cut of a divided series: the points between the two times, with ends added where there are
none, the last value repeated, moved to begin at zero. -/
theorem slice_divided {pre mid post rest head init : List Breakpoint} {p q r : Breakpoint}
    {a b : Rat} (hab : a < b) (hpre : ∀ p ∈ pre, p.1 < a) (hmid : ∀ p ∈ mid, a ≤ p.1 ∧ p.1 < b)
    (hpost : ∀ p ∈ q :: post, b ≤ p.1) (hr : mid ++ q :: post = r :: rest)
    (hhead : (a = r.1 ∧ head = []) ∨ a ≠ r.1 ∧ ∃ init p, pre = init ++ [p] ∧ head = [(a, p.2)])
    (hinit : head ++ mid = init ++ [p]) :
    slice (ofPoints (pre ++ (mid ++ q :: post))) a b =
      .ok (ofPoints ((head ++ mid ++ [(b, p.2)]).map fun p => (p.1 - a, p.2))) := by
  obtain ⟨hi, hj⟩ := bisectLeft_twice hab.le hpre hmid hpost
  have hrepeat : repeatLast ((init ++ [p] ++ [(b, q.2)]).map Prod.snd) =
      .ok ((init ++ [p] ++ [(b, p.2)]).map Prod.snd) := by
    simpa using repeatLast_append (init.map Prod.snd) p.2 q.2
  simp only [slice, decimal_eq, same_eq, decide_eq_true_eq, if_neg hab.ne,
    times_ofPoints, hi, hj, cut_ofPoints hr hhead, ok_bind, unzip_eq_map,
    hinit, hrepeat, mapM_sub, stored_eq_ok]
  simp [ofPoints, Function.comp_def]

/-- **Cuts.** The part of a series between two times traces the part of the function between them,
moved to begin at zero. -/
theorem slice_ofPoints {a b : Rat} (h : Traces .constant f s e points) (hsa : s ≤ a) (hab : a < b)
    (hbe : b ≤ e) :
    ∃ points', slice (ofPoints points) a b = .ok (ofPoints points') ∧
      Traces .constant (fun t => f (t + a)) 0 (b - a) points' ∧
      SeriesKind.constant.Held points' := by
  obtain ⟨pre, mid, q, post, rfl, hpre, hmid, hpost⟩ := h.inOrder.divide_twice a hbe
  obtain ⟨r, rest, hr⟩ : ∃ r rest, mid ++ q :: post = r :: rest :=
    exists_cons_of_ne_nil (by simp)
  obtain ⟨head, x, hcut, ⟨init, p, hinit, rfl⟩, hhead⟩ := h.cut hr hsa hab hpre hmid (hpost q mem_cons_self)
  have hheld : SeriesKind.constant.Held (head ++ mid ++ [(b, p.2)]) :=
    ⟨init, p.1, b, p.2, by rw [hinit, append_assoc]; rfl⟩
  exact ⟨_, slice_divided hab hpre hmid hpost hr hhead hinit, hcut.rebase, hheld.map (· - a) id⟩

/-! ### Joins -/

/-- **Joins.** One series after another is the points of the first without the last, and then those
of the second moved to where the first ends. -/
theorem append_ofPoints (ps qs : List Breakpoint) (m v w : Rat) :
    append (ofPoints (ps ++ [(m, v)])) (ofPoints ((0, w) :: qs)) =
      .ok (ofPoints (ps ++ ((0, w) :: qs).map fun p => (p.1 + m, p.2))) := by
  have hlast : lastItem? (ofPoints (ps ++ [(m, v)])).times = .ok m := by simp
  simp only [append, mapM_add_last hlast, ok_bind, stored_eq_ok]
  simp [ofPoints, Function.comp_def]

/-! ### Waveforms -/

theorem rules_sound : (rules : SeriesRules Rat).Sound where
  extend {sloped a b d s} hab hs := by
    have hlevel : a = b := by
      cases sloped with
      | none => exact hab rfl rfl
      | some fault =>
        by_contra hne
        simp [rules, extend, hne] at hs
    cases sloped <;> simp [rules, extend, hlevel] at hs ⊢ <;> exact hs.symm
  slice h hsa hab hbe := slice_ofPoints h hsa hab hbe
  join h := by
    obtain rfl := Except.ok.inj ((append_ofPoints _ _ _ _ _).symm.trans h)
    exact ⟨fun h => (by cases h), rfl⟩

end PiecewiseConstant

/-! ### Looking up a step -/

namespace PiecewiseConstant

variable {p : PiecewiseConstant Rat} {a b e t u u' v v' : Rat}
  {pre post : List Breakpoint} {q : Breakpoint}

theorem eval_divided (hne : pre ≠ []) (hpre : ∀ p ∈ pre, p.1 < t) (hpost : ∀ p ∈ q :: post, t < p.1) :
    eval (ofPoints (pre ++ q :: post)) t = .ok q.2 := by
  obtain ⟨s, hfirst, hst⟩ : ∃ s, firstItem? ((pre ++ q :: post).map Prod.fst) = .ok s ∧ s < t := by
    obtain ⟨r, rest, rfl⟩ := exists_cons_of_ne_nil hne
    exact ⟨r.1, rfl, hpre r mem_cons_self⟩
  obtain ⟨e, hlast, hte⟩ : ∃ e, lastItem? ((pre ++ q :: post).map Prod.fst) = .ok e ∧ t < e := by
    rcases eq_nil_or_concat (q :: post) with h | ⟨init, r, h⟩
    · cases h
    · rw [concat_eq_append] at h
      exact ⟨r.1, by simp [h, ← append_assoc], hpost r (by simp [h])⟩
  have hk := bisectLeft_points hpre fun p hp => (hpost p hp).le
  simp only [eval, times_ofPoints, values_ofPoints, hlast, hfirst, hk, item?_append, ok_bind, ge_eq,
    le_eq, same_eq, decide_eq_true_eq, if_neg hte.not_ge, if_neg hst.not_ge,
    if_neg (hpost q mem_cons_self).ne']

/-- **Steps before and after a cut.** Between two breakpoints, the value of a series is that kept at
the later one. In a cut it is the same, if the later breakpoint lies inside the cut, and else the
value kept at the earlier one, which is that of the step. -/
theorem eval_slice_between (hcount : p.times.length = p.values.length)
    (hsorted : p.times.Pairwise (· < ·)) (hfirst : p.times.head? = some 0)
    (hlast : p.times.getLast? = some e) (ha : 0 ≤ a) (hbe : b ≤ e) (ht : 0 < t) (htb : t < b - a)
    {i : Nat} (hu : p.times[i]? = some u) (hu' : p.times[i + 1]? = some u')
    (hv : p.values[i]? = some v) (hv' : p.values[i + 1]? = some v') (hut : u < a + t)
    (htu : a + t < u') :
    p.eval (a + t) = .ok v' ∧
      ∃ q, p.slice a b = .ok q ∧ q.eval t = .ok (if u' < b then v' else v) := by
  obtain ⟨f, points, rfl, h⟩ := exists_traces .constant hcount hsorted hfirst hlast
  obtain ⟨init, rest, rfl⟩ : ∃ init rest, points = init ++ (u, v) :: (u', v') :: rest := by
    simp only [times_ofPoints, values_ofPoints, getElem?_map, Option.map_eq_some_iff] at hu hu' hv hv'
    obtain ⟨⟨_, _⟩, hp, rfl⟩ := hu
    obtain ⟨⟨_, _⟩, hp', rfl⟩ := hu'
    simp only [hp, hp', Option.some.injEq, exists_eq_left'] at hv hv'
    obtain ⟨hi, hp⟩ := List.getElem?_eq_some_iff.mp hp
    obtain ⟨hi', hp'⟩ := List.getElem?_eq_some_iff.mp hp'
    refine ⟨points.take i, points.drop (i + 2), ?_⟩
    rw [← hv, ← hv', ← hp, ← hp', getElem_cons_drop, getElem_cons_drop, take_append_drop]
  have hstep : f (a + t) = v := h.piece.2 _ ⟨hut, htu⟩
  rw [append_cons] at h ⊢
  obtain ⟨hinit, hrest, -⟩ := pairwise_append.mp (pairwise_map.mp h.sorted)
  have hleft : ∀ p ∈ init ++ [(u, v)], p.1 < a + t := by
    refine forall_mem_append.mpr ⟨fun p hp => ?_, by simpa using hut⟩
    exact ((pairwise_append.mp hinit).2.2 p hp _ (mem_singleton_self _)).trans hut
  have hright : ∀ p ∈ (u', v') :: rest, a + t < p.1 :=
    forall_mem_cons.mpr ⟨htu, fun p hp => htu.trans ((pairwise_cons.mp hrest).1 p hp)⟩
  refine ⟨eval_divided (by simp) hleft hright, ?_⟩
  -- The cut divides the points before the time, and those after it.
  obtain ⟨pre, front, hpoints, hpre, hfront⟩ := exists_divided
    (hinit.imp le_of_lt) fun x y hxy (hy : y < a) => hxy.trans_lt hy
  obtain ⟨back, q, post, hpoints', hback, hpost⟩ := h.drop.inOrder.divide
    (fun x y hxy (hy : y < b) => hxy.trans_lt hy) hbe.not_gt
  rw [hpoints] at hleft
  rw [hpoints'] at hright
  rw [hpoints, hpoints', append_assoc, ← append_assoc front] at h ⊢
  simp only [not_lt] at hfront hpost
  have hmid : ∀ p ∈ front ++ back, a ≤ p.1 ∧ p.1 < b := forall_mem_append.mpr
    ⟨fun p hp => ⟨hfront p hp, by linarith [hleft p (by simp [hp])]⟩,
      fun p hp => ⟨by linarith [hright p (by simp [hp])], hback p hp⟩⟩
  obtain ⟨r, more, hr⟩ : ∃ r more, front ++ back ++ q :: post = r :: more :=
    exists_cons_of_ne_nil (by simp)
  obtain ⟨head, x, hcut, ⟨shown, p, hshown, rfl⟩, hhead⟩ :=
    h.cut hr ha (by linarith) hpre hmid (hpost q mem_cons_self)
  refine ⟨_, slice_divided (by linarith) hpre hmid hpost hr hhead hshown, ?_⟩
  have hbefore : ∀ p ∈ (head ++ front).map fun p => (p.1 - a, p.2), p.1 < t := by
    rw [forall_mem_map, forall_mem_append]
    refine ⟨?_, fun p hp => by linarith [hleft p (by simp [hp])]⟩
    rcases hhead with ⟨-, rfl⟩ | ⟨-, _, _, -, rfl⟩
    · simp
    · simpa using ht
  cases back with
  | nil =>
    obtain ⟨rfl, -⟩ := cons.inj hpoints'
    rw [append_nil] at hshown hcut ⊢
    rw [hshown, append_assoc] at hcut
    have hp : p.1 - a < t := hbefore _ (mem_map_of_mem (by simp [hshown]))
    have hv : f (a + t) = p.2 := hcut.piece.2 _ ⟨by linarith, lt_sub_iff_add_lt'.mp htb⟩
    rw [map_append, if_neg (hpost _ mem_cons_self).not_gt, ← hstep, hv]
    exact eval_divided (by simp [hshown]) hbefore (by simpa using htb)
  | cons m back =>
    obtain ⟨rfl, -⟩ := cons.inj hpoints'
    have hne : head ++ front ≠ [] := by
      intro hnil
      obtain ⟨w, _, hbegin⟩ := hcut.begins
      rw [← append_assoc, hnil] at hbegin
      cases hbegin
      linarith
    rw [← append_assoc head, append_assoc, cons_append, map_append, map_cons,
      if_pos (hback _ mem_cons_self)]
    refine eval_divided (by simpa using hne) hbefore ?_
    rw [← map_cons (f := fun p : Breakpoint => (p.1 - a, p.2)), forall_mem_map, ← cons_append,
      forall_mem_append]
    exact ⟨fun p hp => by linarith [hright p (mem_append_left _ hp)], by simpa using htb⟩

/-- A cut that ends in the second of three steps. -/
theorem second_step_slice_between :
    let p : PiecewiseConstant Rat := ⟨[0, 1, 2, 3], [1, 2, 5, 5]⟩
    p.eval (1 / 4 + 1) = .ok 5 ∧ ∃ q, p.slice (1 / 4) (3 / 2) = .ok q ∧ q.eval 1 = .ok 2 := by
  intro p
  have hcut := @eval_slice_between p (1 / 4) (3 / 2) 3 1 1 2 2 5 rfl (by norm_num [p]) rfl rfl
    (by norm_num) (by norm_num) one_pos (by norm_num) 1 rfl rfl rfl rfl (by norm_num) (by norm_num)
  rwa [if_neg (by norm_num)] at hcut

/-- Inside the first of two steps the next value is found, but not once the step is cut out. -/
theorem first_step_changed_by_slice :
    let p : PiecewiseConstant Quantity :=
      ⟨[.decimal 0, .decimal 2, .decimal 4], [.decimal 1, .decimal 2, .decimal 2]⟩
    p.eval (.decimal 1) = .ok (.decimal 2) ∧
      (do (← p.slice (.decimal 0) (.decimal 2)).eval (.decimal 1)) = .ok (.decimal 1) := by
  with_unfolding_all exact ⟨rfl, rfl⟩

end PiecewiseConstant

end AtomArray
