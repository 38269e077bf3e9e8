import AtomArray.Proofs.Realization
import Mathlib.Data.List.Sort

/-!
Piecewise linear series of waveforms.

The operations on series are described by what they do to points that trace a function:
interpolation finds its value (`eval_ofPoints`), a cut is the part of it between two times
(`slice_ofPoints`), and appending joins two functions (`append_ofPoints`).
-/

namespace AtomArray

open List Outcome Collect Exact Series

namespace PiecewiseLinear

variable {env : Env Rat} {f : Rat → Rat} {s e t : Rat} {points : List Breakpoint}

/-! ### Interpolation -/

theorem eval_inside {init post : List Breakpoint} {p q : Breakpoint} {first last : Rat}
    (hfirst : firstItem? ((init ++ p :: q :: post).map Prod.fst) = .ok first)
    (hlast : lastItem? ((init ++ p :: q :: post).map Prod.fst) = .ok last)
    (hinit : ∀ r ∈ init ++ [p], r.1 ≤ t) (hpost : ∀ r ∈ q :: post, t < r.1)
    (hft : first < t) (htl : t < last) :
    eval (ofPoints (init ++ p :: q :: post)) t = .ok (SeriesKind.linear.value p q t) := by
  have hbisect : bisectRight ((init ++ p :: q :: post).map Prod.fst) t = .ok (init.length + 1) := by
    simpa using bisectRight_points hinit hpost
  have hne : q.1 - p.1 ≠ 0 := by
    have hp := hinit p (by simp)
    have hq := hpost q mem_cons_self
    linarith
  simp only [eval, ofPoints, hfirst, hlast, hbisect, ok_bind, ge_eq, le_eq,
    decide_eq_true_eq, if_neg hft.not_ge, if_neg htl.not_ge, Nat.add_sub_cancel,
    item?_append_succ, item?_append, sub_eq, div_of_ne_zero _ hne, mul_eq,
    add_eq, SeriesKind.value]

/-- **Interpolation.** A series has the values of the function that its points trace, and the first
and the last of them before and after. -/
theorem eval_clamped (h : Traces .linear f s e points) (hse : s < e) (t : Rat) :
    eval (ofPoints points) t = .ok (f (max s (min t e))) := by
  have hfirst := h.firstItem?_times
  have hlast := h.lastItem?_times
  rcases lt_or_ge t e with hte | het
  · rw [min_eq_left hte.le]
    rcases lt_or_ge s t with hst | hts
    · rw [max_eq_right hst.le]
      obtain ⟨pre, q, post, rfl, hpre, hpost⟩ :=
        h.inOrder.divide (fun _ _ hxy hy => hxy.trans hy) hte.not_ge
      simp only [not_le] at hpost
      obtain ⟨init, p, rfl⟩ := h.exists_before (hst.trans (hpost q mem_cons_self))
      rw [append_assoc, singleton_append] at h hfirst hlast ⊢
      rw [eval_inside hfirst hlast hpre hpost hst hte]
      refine congrArg _ (h.piece.2 t ⟨hpre p (by simp), ?_⟩).symm
      exact (hpost q mem_cons_self).le
    · obtain ⟨v, rest, rfl⟩ := h.begins
      have hv : f s = v := h.line_through hse _ mem_cons_self
      rw [map_cons] at hlast
      simp [eval, hlast, hte.not_ge, hts, hv]
  · obtain ⟨v, init, rfl⟩ := h.ends
    have hv : f e = v := h.line_through hse (e, v) (by simp)
    simp [eval, het, hv, hse.le]

theorem eval_ofPoints (h : Traces .linear f s e points) (hse : s < e) (hst : s ≤ t) (hte : t ≤ e) :
    eval (ofPoints points) t = .ok (f t) := by
  rw [eval_clamped h hse, min_eq_left hte, max_eq_right hst]

/-! ### Cuts -/

theorem cut_ofPoints (pre : List Breakpoint) {mid post rest : List Breakpoint} {q r : Breakpoint}
    {a b : Rat} (hab : a ≠ b) (hr : mid ++ q :: post = r :: rest) (v₀ v₁ : Rat) :
    ∃ x, (x = v₁ ∨ b = q.1 ∧ x = q.2) ∧
      cut (ofPoints (pre ++ (mid ++ q :: post))) a b v₀ v₁ pre.length (pre.length + mid.length) =
        .ok (((if a = r.1 then [] else [(a, v₀)]) ++ mid ++ [(b, x)]).unzip) := by
  have hfirst : item? ((pre ++ (mid ++ q :: post)).map Prod.fst) pre.length = .ok r.1 := by
    rw [hr]
    exact item?_append _ _ _ _
  simp only [cut, ofPoints, hfirst, item?_append_append, ok_bind, same_eq,
    decide_eq_true_eq, between_append, between_append_succ, unzip_eq_map]
  by_cases ha : a = r.1
  · refine ⟨v₁, .inl rfl, ?_⟩
    rw [if_pos ha, if_pos ha, if_neg (ha ▸ hab.symm)]
    simp
  · by_cases hb : b = q.1
    · exact ⟨q.2, .inr ⟨hb, rfl⟩, by simp [ha, hb]⟩
    · exact ⟨v₁, .inl rfl, by simp [ha, hb]⟩

/-- **Cuts.** The part of a series between two times traces the part of the function between them,
moved to begin at zero. -/
theorem slice_ofPoints {a b : Rat} (h : Traces .linear f s e points) (hsa : s ≤ a) (hab : a < b)
    (hbe : b ≤ e) :
    ∃ points', slice (ofPoints points) a b = .ok (ofPoints points') ∧
      Traces .linear (fun t => f (t + a)) 0 (b - a) points' ∧
      ∀ t, 0 < t → t < b - a →
        (t ∈ points'.map Prod.fst ↔ t + a ∈ points.map Prod.fst) := by
  have hse : s < e := hsa.trans_lt (hab.trans_le hbe)
  have hstart := eval_ofPoints h hse hsa (hab.le.trans hbe)
  have hstop := eval_ofPoints h hse (hsa.trans hab.le) hbe
  obtain ⟨pre, mid, q, post, rfl, hpre, hmid, hpost⟩ := h.inOrder.divide_twice a hbe
  obtain ⟨r, rest, hr⟩ : ∃ r rest, mid ++ q :: post = r :: rest :=
    exists_cons_of_ne_nil (by simp)
  obtain ⟨head, x, hcut, -, hhead⟩ := h.cut hr hsa hab hpre hmid (hpost q mem_cons_self)
  -- The values that are added are the values of the function at the two ends.
  have hthrough := hcut.line_through hab
  obtain rfl : f b = x := hthrough (b, x) (by simp)
  obtain rfl : head = if a = r.1 then [] else [(a, f a)] := by
    rcases hhead with ⟨ha, rfl⟩ | ⟨ha, init, p, -, rfl⟩
    · rw [if_pos ha]
    · rw [if_neg ha, hthrough _ mem_cons_self]
  refine ⟨_, ?_, hcut.rebase, fun t h0 ht => ?_⟩
  swap
  · have hhead : ∀ p ∈ (if a = r.1 then [] else [(a, f a)]), p.1 = a := by split <;> simp
    simp only [map_map, mem_map, mem_append, mem_singleton, Function.comp_apply]
    constructor
    · rintro ⟨p, (hp | hp) | rfl, rfl⟩
      · linarith [hhead p hp]
      · exact ⟨p, .inr (.inl hp), (sub_add_cancel _ _).symm⟩
      · exact absurd ht (lt_irrefl _)
    · rintro ⟨p, hp | hp | hp, heq⟩
      · linarith [hpre p hp]
      · exact ⟨p, .inl (.inr hp), sub_eq_of_eq_add heq⟩
      · linarith [hpost p hp]
  obtain ⟨hi, hj⟩ := bisectLeft_twice hab.le hpre hmid hpost
  obtain ⟨x, hx, hpoints⟩ := cut_ofPoints pre hab.ne hr (f a) (f b)
  obtain rfl : x = f b := by
    rcases hx with rfl | ⟨rfl, rfl⟩
    · rfl
    · exact (h.line_through hse q (by simp)).symm
  simp only [slice, decimal_eq, same_eq, decide_eq_true_eq, if_neg hab.ne,
    times_ofPoints, hi, hj, hstart, hstop, hpoints, ok_bind, unzip_eq_map, mapM_sub, stored_eq_ok]
  simp [ofPoints, Function.comp_def]

/-! ### Joins -/

/-- **Joins.** One series after another is the points of the first, and then those of the second
moved to where it ends; the first must end with the value that the second begins with. -/
theorem append_ofPoints {ps qs : List Breakpoint} {m v w : Rat} {r : PiecewiseLinear Rat} :
    append (ofPoints (ps ++ [(m, v)])) (ofPoints ((0, w) :: qs)) = .ok r ↔
      v = w ∧ ofPoints (ps ++ ((0, w) :: qs).map fun p => (p.1 + m, p.2)) = r := by
  have hseam : seam (ofPoints (ps ++ [(m, v)])) (ofPoints ((0, w) :: qs)) = .ok (v, w) := by
    simp [seam]
  have hlast : lastItem? (ofPoints (ps ++ [(m, v)])).times = .ok m := by simp
  simp only [append, hseam, mapM_add_last hlast, ok_bind, throw_eq_error,
    error_bind, refuse_eq_ok, stored_eq_ok, Except.ok.injEq]
  have hsame : ¬(!Arith.same v w) = true ↔ v = w := by simp
  rw [hsame]
  refine and_congr_right ?_
  rintro rfl
  simp [ofPoints, Function.comp_def]

/-! ### Parts of parts -/

/-- Lines that trace the same function and have the same times have the same points. -/
theorem eq_of_times {points' : List Breakpoint} (h : Traces .linear f s e points)
    (h' : Traces .linear f s e points') (hse : s < e)
    (htimes : ∀ t, s < t → t < e → (t ∈ points.map Prod.fst ↔ t ∈ points'.map Prod.fst)) :
    points = points' := by
  have hpoints : ∀ {ps : List Breakpoint}, Traces .linear f s e ps →
      ps = (ps.map Prod.fst).map fun t => (t, f t) := by
    intro ps hps
    rw [map_map]
    exact (map_id ps).symm.trans (map_congr_left fun p hp => by
      rw [id, Function.comp_apply, hps.line_through hse p hp])
  have hsub : ∀ {ps qs : List Breakpoint}, Traces .linear f s e ps → Traces .linear f s e qs →
      (∀ t, s < t → t < e → t ∈ ps.map Prod.fst → t ∈ qs.map Prod.fst) →
      ps.map Prod.fst ⊆ qs.map Prod.fst := by
    intro ps qs hps hqs htimes t ht
    obtain ⟨p, hp, rfl⟩ := mem_map.mp ht
    obtain ⟨hs, he⟩ := hps.bounds p hp
    rcases hs.eq_or_lt with hs | hs
    · obtain ⟨v, rest, rfl⟩ := hqs.begins
      simp [hs]
    rcases he.eq_or_lt with he | he
    · obtain ⟨v, init, rfl⟩ := hqs.ends
      simp [he]
    · exact htimes _ hs he ht
  have heq := Subset.antisymm_of_pairwise h.sorted h'.sorted
    (hsub h h' fun t hs he => (htimes t hs he).mp) (hsub h' h fun t hs he => (htimes t hs he).mpr)
  rw [hpoints h, heq, ← hpoints h']

theorem append_slices {m : Rat} (h : Traces .linear f 0 e points) (h0 : 0 < m) (hm : m < e) :
    ∃ l r q, slice (ofPoints points) 0 m = .ok l ∧ slice (ofPoints points) m e = .ok r ∧
      append l r = .ok q ∧ ∀ t, eval q t = eval (ofPoints points) t := by
  obtain ⟨ps, hps, hl, -⟩ := slice_ofPoints h le_rfl h0 hm.le
  obtain ⟨qs, hqs, hr, -⟩ := slice_ofPoints h h0.le hm le_rfl
  rw [sub_zero] at hl
  have hrest := sub_pos.mpr hm
  obtain ⟨v, ps, rfl⟩ := hl.ends
  obtain ⟨w, qs, rfl⟩ := hr.begins
  have hv : f (m + 0) = v := hl.line_through h0 (m, v) (by simp)
  have hw : f (0 + m) = w := hr.line_through hrest (0, w) mem_cons_self
  have hvw : v = w := by rw [← hv, ← hw, add_zero, zero_add]
  refine ⟨_, _, _, hps, hqs, append_ofPoints.mpr ⟨hvw, rfl⟩, fun t => ?_⟩
  have hjoin := hl.join hr h0 hrest fun _ => hvw
  have hback : Traces .linear f 0 e (ps ++ ((0, w) :: qs).map fun p => (p.1 + m, p.2)) := by
    rw [add_sub_cancel] at hjoin
    refine hjoin.congr fun t _ => ?_
    unfold followedBy
    split <;> simp
  rw [eval_clamped hback (h0.trans hm), eval_clamped h (h0.trans hm)]

theorem slice_slice {a b c d : Rat} (h : Traces .linear f s e points) (ha : s ≤ a) (hab : a < b)
    (hbe : b ≤ e) (hc : 0 ≤ c) (hcd : c < d) (hdb : d ≤ b - a) :
    ∃ q r, slice (ofPoints points) a b = .ok q ∧ slice q c d = .ok r ∧
      slice (ofPoints points) (a + c) (a + d) = .ok r := by
  obtain ⟨ps, hps, hq, hpstimes⟩ := slice_ofPoints h ha hab hbe
  obtain ⟨qs, hqs, hr, hqstimes⟩ := slice_ofPoints hq hc hcd hdb
  obtain ⟨rs, hrs, hr', hrstimes⟩ := slice_ofPoints (a := a + c) (b := a + d) h (by linarith)
    (by linarith) (by linarith)
  have hd : a + d - (a + c) = d - c := by ring
  have hf : (fun t => f (t + (a + c))) = fun t => f (t + c + a) := by
    funext t
    exact congrArg f (by ring)
  rw [hd, hf] at hr'
  rw [hd] at hrstimes
  have hsame : qs = rs := eq_of_times hr hr' (sub_pos.mpr hcd) fun t h0 ht => by
    rw [hqstimes t h0 ht, hrstimes t h0 ht, hpstimes (t + c) (by linarith) (by linarith), add_assoc,
      add_comm c a]
  exact ⟨_, _, hps, hqs, hsame ▸ hrs⟩

/-- **Cutting and joining again.** The parts of a series before and after a time, joined, are the
series again, and the part of a part is a part. -/
theorem parts_of_parts {p : PiecewiseLinear Rat} (hcount : p.times.length = p.values.length)
    (hsorted : p.times.Pairwise (· < ·)) (hfirst : p.times.head? = some 0)
    (hlast : p.times.getLast? = some e) :
    (∀ m, 0 < m → m < e → ∃ l r q, p.slice 0 m = .ok l ∧ p.slice m e = .ok r ∧
      append l r = .ok q ∧ ∀ t, ∃ v, p.eval t = .ok v ∧ q.eval t = .ok v) ∧
    ∀ a b c d, 0 ≤ a → a < b → b ≤ e → 0 ≤ c → c < d → d ≤ b - a →
      ∃ q r, p.slice a b = .ok q ∧ q.slice c d = .ok r ∧ p.slice (a + c) (a + d) = .ok r := by
  obtain ⟨f, points, rfl, h⟩ := exists_traces .linear hcount hsorted hfirst hlast
  refine ⟨fun m h0 hm => ?_, fun a b c d => slice_slice h⟩
  obtain ⟨l, r, q, hl, hr, hq, heval⟩ := append_slices h h0 hm
  refine ⟨l, r, q, hl, hr, hq, fun t => ?_⟩
  rw [heval t, eval_clamped h (h0.trans hm)]
  exact ⟨_, rfl, rfl⟩

/-- A ramp with a hold after it, cut inside both, and the part of a part that begins in the ramp. -/
theorem parts_of_parts_of_ramp :
    let p : PiecewiseLinear Rat := ⟨[0, 1, 3], [0, 2, 2]⟩
    (∃ l r q, p.slice 0 2 = .ok l ∧ p.slice 2 3 = .ok r ∧ append l r = .ok q ∧
      ∀ t, ∃ v, p.eval t = .ok v ∧ q.eval t = .ok v) ∧
    ∃ q r, p.slice (1 / 2) 3 = .ok q ∧ q.slice (1 / 4) 1 = .ok r ∧
      p.slice (1 / 2 + 1 / 4) (1 / 2 + 1) = .ok r := by
  intro p
  have hparts := @parts_of_parts 3 p rfl (by norm_num [p]) rfl rfl
  exact ⟨hparts.1 2 (by norm_num) (by norm_num), hparts.2 _ _ _ _ (by norm_num) (by norm_num) le_rfl
    (by norm_num) (by norm_num) (by norm_num)⟩

/-! ### Waveforms -/

theorem rules_sound : (rules : SeriesRules Rat).Sound where
  extend _ hs := by
    simp only [rules, extend] at hs
    cases hs
    exact ⟨rfl, fun h => by cases h⟩
  slice h hsa hab hbe := by
    obtain ⟨points', hpoints', h'⟩ := slice_ofPoints h hsa hab hbe
    exact ⟨points', hpoints', h'.1, trivial⟩
  join h := by
    obtain ⟨_, _, -, -, h⟩ := bind₂_eq_ok.mp h
    obtain ⟨_, -, h⟩ := bind_eq_ok.mp h
    obtain ⟨hvw, hr⟩ := append_ofPoints.mp h
    exact ⟨fun _ => hvw, hr.symm⟩

end PiecewiseLinear

end AtomArray
