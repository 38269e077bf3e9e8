import AtomArray.Proofs.Lasting
import AtomArray.Proofs.LinearSeries

/-!
Piecewise linear series without a break.

The series of a waveform should begin at zero, end after the duration, go forward in time and have
one value at each time (`Spans`). Multiples, cuts and joins keep this. What can break it are a line
that rises in no time, and samples that are further apart than the waveform is long; without them
(`Waveform.Gapless`) series are unbroken (`ofWaveform_unbroken`).
-/

namespace AtomArray

open List Outcome Collect Exact Waveform Series SeriesRules

variable {points : List Breakpoint} {a b d e s v x : Rat}

/-- One point is not after another, and has its value if it is at the same time. -/
def Breakpoint.Leads (p q : Breakpoint) : Prop := p.1 ≤ q.1 ∧ (p.1 = q.1 → p.2 = q.2)

theorem Breakpoint.Leads.of_lt {p q : Breakpoint} (h : p.1 < q.1) : Leads p q :=
  ⟨h.le, fun heq => absurd heq h.ne⟩

/-- The points go from one time to another in order, with one value at each time. -/
structure Spans (s e : Rat) (points : List Breakpoint) : Prop where
  first : (points.map Prod.fst).head? = some s
  last : (points.map Prod.fst).getLast? = some e
  ordered : points.Pairwise Breakpoint.Leads

namespace Spans

theorem begins (h : Spans s e points) : ∃ v rest, points = (s, v) :: rest := by
  cases points with
  | nil => cases h.first
  | cons p rest => exact ⟨p.2, rest, by rw [← Option.some.inj h.first]⟩

theorem ends (h : Spans s e points) : ∃ v init, points = init ++ [(e, v)] := by
  rcases eq_nil_or_concat points with rfl | ⟨init, p, rfl⟩
  · cases h.last
  · obtain rfl : p.1 = e := by simpa using h.last
    exact ⟨p.2, init, concat_eq_append⟩

theorem inOrder (h : Spans s e points) : InOrder e points := by
  obtain ⟨v, init, hend⟩ := h.ends
  exact ⟨h.ordered.imp And.left, v, by simp [hend]⟩

theorem line (hd : 0 ≤ d) (hab : d = 0 → a = b) : Spans 0 d [(0, a), (d, b)] :=
  ⟨rfl, rfl, by simpa using ⟨hd, fun h => hab h.symm⟩⟩

/-- Points can be moved in time, and their values changed alike. -/
theorem map (h : Spans s e points) (x : Rat) (f : Rat → Rat) :
    Spans (s + x) (e + x) (points.map fun p => (p.1 + x, f p.2)) := by
  obtain ⟨v, rest, hbegin⟩ := h.begins
  obtain ⟨w, init, hend⟩ := h.ends
  refine ⟨by simp [hbegin], by simp [hend], pairwise_map.mpr (h.ordered.imp fun hpq => ?_)⟩
  exact ⟨by simpa using hpq.1, fun heq => congrArg f (hpq.2 (by simpa using heq))⟩

theorem cons (h : Spans s e points) (has : a < s) (v : Rat) : Spans a e ((a, v) :: points) := by
  obtain ⟨w, rest, rfl⟩ := h.begins
  refine ⟨rfl, h.last, pairwise_cons.mpr ⟨forall_mem_cons.mpr ⟨.of_lt has, fun p hp => ?_⟩, h.ordered⟩⟩
  exact .of_lt (has.trans_le ((pairwise_cons.mp h.ordered).1 p hp).1)

theorem join {ps qs : List Breakpoint} {m : Rat} (h : Spans s m (ps ++ [(m, v)]))
    (h' : Spans m e ((m, v) :: qs)) : Spans s e (ps ++ (m, v) :: qs) := by
  obtain ⟨hps, -, hlast⟩ := pairwise_append.mp h.ordered
  refine ⟨by simpa using h.first, by simpa using h'.last,
    pairwise_append.mpr ⟨hps, h'.ordered, fun p hp => ?_⟩⟩
  obtain ⟨hpm, hpv⟩ := hlast p hp _ (mem_singleton_self _)
  refine forall_mem_cons.mpr ⟨⟨hpm, hpv⟩, fun q hq => ?_⟩
  obtain ⟨hmq, hvq⟩ := (pairwise_cons.mp h'.ordered).1 q hq
  exact ⟨hpm.trans hmq, fun heq => (hpv (by linarith)).trans (hvq (by linarith))⟩

/-- What is between two times, with an end added at the later one and, unless there is a point
already, at the earlier one. -/
theorem cut {pre mid post rest : List Breakpoint} {q r : Breakpoint}
    (h : (pre ++ (mid ++ q :: post)).Pairwise Breakpoint.Leads)
    (hr : mid ++ q :: post = r :: rest) (hab : a < b) (hmid : ∀ p ∈ mid, a ≤ p.1 ∧ p.1 < b)
    (hbq : b ≤ q.1) (v w : Rat) :
    Spans a b ((if a = r.1 then [] else [(a, v)]) ++ mid ++ [(b, w)]) := by
  have hend : Spans b b [(b, w)] := ⟨rfl, rfl, pairwise_singleton _ _⟩
  cases mid with
  | nil =>
    obtain ⟨rfl, -⟩ := cons.inj hr
    rw [if_neg (hab.trans_le hbq).ne]
    exact hend.cons hab v
  | cons m mid =>
    obtain ⟨rfl, -⟩ := cons.inj hr
    have hstart : Spans m.1 b (m :: mid ++ [(b, w)]) := by
      refine ⟨rfl, ?_, pairwise_append.mpr ⟨?_, hend.ordered, ?_⟩⟩
      · rw [map_append]
        exact getLast?_concat ..
      · exact (pairwise_append.mp (pairwise_append.mp h).2.1).1
      · rintro p hp q hq
        obtain rfl := mem_singleton.mp hq
        exact .of_lt (hmid p hp).2
    split
    · rename_i ha
      rw [ha]
      exact hstart
    · rename_i ha
      exact hstart.cons ((hmid m mem_cons_self).1.lt_of_ne ha) v

end Spans

/-- Waveforms in which nothing takes a negative time, a line that takes none is level, and what is
sampled takes a whole step or no time. -/
inductive Waveform.Gapless (env : Env Rat) : Waveform Rat → Prop where
  | linear {a b d : Scalar Rat} {x : Rat} : d.eval env = .ok x → 0 ≤ x →
      (x = 0 → a.eval env = b.eval env) → Gapless env (.linear a b d)
  | constant {v d : Scalar Rat} {x : Rat} : d.eval env = .ok x → 0 ≤ x → Gapless env (.constant v d)
  | poly {cs : List (Scalar Rat)} {d : Scalar Rat} {x : Rat} :
      d.eval env = .ok x → 0 ≤ x → Gapless env (.poly cs d)
  | neg {w : Waveform Rat} : Gapless env w → Gapless env (.neg w)
  | scale {c : Scalar Rat} {w : Waveform Rat} : Gapless env w → Gapless env (.scale c w)
  | slice {w : Waveform Rat} {i : Interval Rat} {x : Rat} :
      Gapless env w → (Waveform.slice w i).length env = .ok x → Gapless env (.slice w i)
  | append {ws : List (Waveform Rat)} : (∀ w ∈ ws, Gapless env w) → Gapless env (.append ws)
  | record {w : Waveform Rat} {name : String} : Gapless env w → Gapless env (.record w name)
  | sample {w : Waveform Rat} {i : Interpolation} {dt : Scalar Rat} {d x : Rat} :
      w.length env = .ok d → dt.eval env = .ok x → 0 < x → x ≤ d ∨ d = 0 →
      Gapless env (.sample w i dt)

namespace PiecewiseLinear

variable {env : Env Rat} {w : Waveform Rat} {ws : List (Waveform Rat)} {p q : PiecewiseLinear Rat}

theorem slice_spans (h : Spans 0 d points) (hab : a ≤ b) (hbd : b ≤ d)
    (hp : slice (ofPoints points) a b = .ok p) :
    ∃ points', p = ofPoints points' ∧ Spans 0 (b - a) points' := by
  rcases hab.eq_or_lt with rfl | hab
  · obtain rfl : empty = p := by simpa [slice] using hp
    exact ⟨[(0, 0), (0, 0)], rfl, by simpa using Spans.line le_rfl fun _ => rfl⟩
  obtain ⟨pre, mid, q, post, rfl, hpre, hmid, hpost⟩ := h.inOrder.divide_twice a hbd
  obtain ⟨r, rest, hr⟩ : ∃ r rest, mid ++ q :: post = r :: rest :=
    exists_cons_of_ne_nil (by simp)
  obtain ⟨hi, hj⟩ := bisectLeft_twice hab.le hpre hmid hpost
  simp only [slice, decimal_eq, same_eq, decide_eq_true_eq, if_neg hab.ne, times_ofPoints, hi, hj,
    ok_bind, bind_eq_ok] at hp
  obtain ⟨v₀, -, v₁, -, hp⟩ := hp
  obtain ⟨x, -, hpoints⟩ := cut_ofPoints pre hab.ne hr v₀ v₁
  simp only [hpoints, Except.ok.injEq, exists_eq_left', unzip_eq_map, mapM_sub, stored_eq_ok] at hp
  have hcut := (Spans.cut h.ordered hr hab hmid (hpost q mem_cons_self) v₀ x).map (-a) id
  rw [add_neg_cancel, ← sub_eq_add_neg] at hcut
  exact ⟨_, hp.symm.trans (by simp [ofPoints, sub_eq_add_neg, Function.comp_def]), hcut⟩

/-- The series goes from zero to the duration without a break. -/
def Unbroken (env : Env Rat) (w : Waveform Rat) (s : Series Rat) : Prop :=
  ∃ d points, w.length env = .ok d ∧ Spans 0 d points ∧ s = .ofPoints points

theorem joinAll_spans
    (hws : ∀ w ∈ ws, ∀ s, (rules.collect env w).run {} = .ok () s → Unbroken env w s)
    (h : Spans 0 d points) (hq : rules.joinAll env (ofPoints points) ws = .ok q) :
    ∃ e points', totalLength env ws = .ok e ∧ q = ofPoints points' ∧
      Spans 0 (d + e) points' := by
  induction ws generalizing d points with
  | nil =>
    obtain rfl : ofPoints points = q := by simpa [joinAll] using hq
    exact ⟨0, points, rfl, rfl, by simpa using h⟩
  | cons w ws ih =>
    simp only [joinAll, bind_eq_ok] at hq
    obtain ⟨p', hp', last, hlast, hq⟩ := hq
    obtain ⟨hw, hws⟩ := forall_mem_cons.mp hws
    obtain ⟨d', points', hlen, h', rfl⟩ := hw _ (ofCollected_eq_ok.mp hp')
    obtain rfl : d' = last := by
      obtain ⟨v, init, rfl⟩ := h'.ends
      simpa using hlast
    split at hq
    · rename_i hzero
      obtain rfl : d' = 0 := by simpa using hzero
      obtain ⟨e, points'', he, rfl, hspans⟩ := ih hws h hq
      exact ⟨e, points'', totalLength_cons.mpr ⟨0, e, hlen, he, (zero_add e).symm⟩, rfl,
        hspans⟩
    · obtain ⟨r, hr, hq⟩ := bind_eq_ok.mp hq
      obtain ⟨v, init, rfl⟩ := h.ends
      obtain ⟨v', rest, rfl⟩ := h'.begins
      obtain ⟨hvv', rfl⟩ := rules_sound.join hr
      obtain rfl := hvv' rfl
      have hshift := h'.map d id
      rw [map_cons, zero_add] at hshift
      obtain ⟨e, points'', he, rfl, hspans⟩ := ih hws (h.join hshift) (by simpa using hq)
      refine ⟨_, points'', totalLength_cons.mpr ⟨d', e, hlen, he, rfl⟩, rfl, ?_⟩
      rwa [← add_assoc, add_comm d]

theorem Unbroken.line (hlen : w.length env = .ok d) (hd : 0 ≤ d) (hab : d = 0 → a = b) :
    Unbroken env w ⟨[0, d], [a, b]⟩ :=
  ⟨d, [(0, a), (d, b)], hlen, .line hd hab, rfl⟩

theorem Unbroken.map {w' : Waveform Rat} {s : Series Rat} (h : Unbroken env w s) (f : Rat → Rat)
    (hlen : w'.length env = w.length env) : Unbroken env w' ⟨s.times, s.values.map f⟩ := by
  obtain ⟨d, points, hd, h, rfl⟩ := h
  refine ⟨d, _, hlen.trans hd, by simpa using h.map 0 f, ?_⟩
  simp [Series.ofPoints, Function.comp_def]

theorem collect_unbroken (hw : w.Gapless env) {s : Series Rat}
    (hs : (rules.collect env w).run {} = .ok () s) : Unbroken env w s := by
  induction hw generalizing s with
  | linear hd h0 hlevel =>
    simp only [collect, run_lift_bind_eq_ok, hd, Except.ok.injEq, exists_eq_left'] at hs
    obtain ⟨a, ha, b, hb, hs⟩ := hs
    cases hs
    exact .line (length_of_duration (by rw [duration]) hd) h0
      fun h => by simpa [ha, hb] using hlevel h
  | constant hd h0 =>
    simp only [collect, run_lift_bind_eq_ok, hd, Except.ok.injEq, exists_eq_left'] at hs
    obtain ⟨v, hv, hs⟩ := hs
    cases hs
    exact .line (length_of_duration (by rw [duration]) hd) h0 fun _ => rfl
  | poly hd h0 =>
    simp only [collect, run_lift_bind_eq_ok, hd, Except.ok.injEq, exists_eq_left'] at hs
    obtain ⟨⟨a, b⟩, hends, hs⟩ := hs
    cases hs
    exact .line (length_of_duration (by rw [duration]) hd) h0
      fun h => eq_of_lineEnds (.inr h) hends
  | neg _ ih =>
    rw [collect] at hs
    obtain ⟨r, hr, rfl⟩ := run_neg_eq_ok hs
    exact (ih hr).map (-·) (by rw [Waveform.length, Waveform.duration]; rfl)
  | scale _ ih =>
    rw [collect] at hs
    obtain ⟨r, x, hr, -, rfl⟩ := run_scale_eq_ok hs
    exact (ih hr).map (x * ·) (by rw [Waveform.length, Waveform.duration]; rfl)
  | slice _ hlen ih =>
    simp only [collect, run_lift_bind_eq_ok, run_set_eq_ok, bind_eq_ok] at hs
    obtain ⟨⟨a, b⟩, ⟨whole, hwhole, hcut⟩, p, ⟨q, hq, hslice⟩, rfl⟩ := hs
    obtain ⟨d, points, hd, h, rfl⟩ := ih (ofCollected_eq_ok.mp hq)
    obtain rfl : d = whole := by simpa [hd] using hwhole
    obtain ⟨start, stop, hstart, hstop, rfl, rfl, h0, hbd, hab⟩ := cutBounds_eq_ok.mp hcut
    obtain ⟨points', rfl, hspans⟩ := slice_spans h hab hbd hslice
    refine ⟨_, points', length_slice.mpr ⟨(length_slice.mp hlen).1, d, start, stop,
      hd, hstart, hstop, Scalar.cutLength_eq_ok.mpr ⟨h0, hbd, hab, rfl⟩⟩, hspans, rfl⟩
  | @append ws _ ih =>
    cases ws with
    | nil => cases hs
    | cons w ws =>
      simp only [collect, run_lift_bind_eq_ok, run_set_eq_ok, bind_eq_ok] at hs
      obtain ⟨q, ⟨p, hp, hq⟩, rfl⟩ := hs
      obtain ⟨hfirst, hothers⟩ := forall_mem_cons.mp ih
      obtain ⟨d, points, hd, h, rfl⟩ := hfirst (ofCollected_eq_ok.mp hp)
      obtain ⟨e, points', he, rfl, hspans⟩ := joinAll_spans (fun w hw _ => hothers w hw) h hq
      exact ⟨_, points', length_append (totalLength_cons.mpr ⟨d, e, hd, he, rfl⟩),
        hspans, rfl⟩
  | record _ ih =>
    rw [collect] at hs
    obtain ⟨d, points, hlen, hrest⟩ := ih hs
    exact ⟨d, points, by rwa [Waveform.length, Waveform.duration], hrest⟩
  | @sample w i dt d x hlen hdt hx hfit =>
    have hd : 0 ≤ d := hfit.elim hx.le.trans Eq.ge
    simp only [collect, run_refuse_eq_ok, run_lift_bind_eq_ok] at hs
    obtain ⟨-, _, hsamples, hs⟩ := hs
    cases hs
    obtain ⟨x', points, hdt', htimes, rfl, -⟩ := exists_samples hlen hd hsamples
    obtain rfl : x = x' := by simpa [hdt] using hdt'
    refine ⟨d, points, by rwa [Waveform.length, Waveform.duration], ⟨?_, ?_, ?_⟩, rfl⟩
    · rw [htimes, sampleTimes_head hx]
      exact hfit
    · rw [htimes, sampleTimes, getLast?_concat]
    · exact (pairwise_map.mp (htimes ▸ sampleTimes_sorted hd)).imp .of_lt

/-- **The series of a waveform is unbroken.** It begins at zero and ends after the duration, its
times do not decrease, and at equal times it has equal values, if no line rises in no time and what
is sampled takes a whole step or no time. -/
theorem ofWaveform_unbroken (hw : w.Gapless env) (hlen : w.length env = .ok d) (hd : 0 < d)
    (hp : ofWaveform env w = .ok p) :
    p.times.length = p.values.length ∧ 2 ≤ p.times.length ∧ p.times.head? = some 0 ∧
      p.times.getLast? = some d ∧ p.times.Pairwise (· ≤ ·) ∧
      (p.times.zip p.values).Pairwise fun q r => q.1 = r.1 → q.2 = r.2 := by
  obtain ⟨d', points, hlen', h, rfl⟩ := collect_unbroken hw (ofCollected_eq_ok.mp hp)
  obtain rfl : d' = d := by simpa [hlen'] using hlen
  refine ⟨by simp, ?_, h.first, h.last, pairwise_map.mpr (h.ordered.imp And.left), ?_⟩
  · obtain ⟨v, rest, rfl⟩ := h.begins
    cases rest with
    | nil => exact absurd (Option.some.inj h.last) hd.ne
    | cons => simp
  · simpa [zip_map'] using h.ordered.imp And.right

/-- A rise that is cut in the middle, and samples after it. -/
def sampledRise : Waveform Rat :=
  .append [.slice (.linear (.lit 0) (.lit 2) (.var "T")) ⟨some (.lit 1), none⟩,
    .sample (.constant (.lit 2) (.lit 3)) .linear (.lit 1)]

theorem sampledRise_unbroken :
    ofWaveform [("T", .number 2)] sampledRise = .ok ⟨[0, 1, 2, 3, 4], [1, 2, 2, 2, 2]⟩ ∧
      [0, 1, 2, 3, 4].getLast? = some (4 : Rat) ∧
      [0, 1, 2, 3, 4].Pairwise ((· ≤ ·) : Rat → Rat → Prop) := by
  have hp : ofWaveform [("T", .number 2)] sampledRise = .ok ⟨[0, 1, 2, 3, 4], [1, 2, 2, 2, 2]⟩ := by
    with_unfolding_all rfl
  have hw : sampledRise.Gapless [("T", .number 2)] := by
    refine .append (forall_mem_cons.mpr ⟨?_, forall_mem_singleton.mpr ?_⟩)
    · exact .slice (.linear (x := 2) rfl (by norm_num) (by simp)) (by with_unfolding_all rfl)
    · exact .sample (by with_unfolding_all rfl) rfl one_pos (.inl (by norm_num))
  obtain ⟨-, -, -, hlast, hsorted, -⟩ := ofWaveform_unbroken (d := 4) hw (by with_unfolding_all rfl)
    (by norm_num) hp
  exact ⟨hp, hlast, hsorted⟩

/-- A waveform sampled in steps that are longer than it is, and a line that rises in no time. -/
theorem broken_series :
    let coarse : Waveform Quantity := .sample (.constant (.const 3) (.const 1)) .linear (.const 2)
    let steep : Waveform Quantity :=
      .append [.linear (.const 0) (.const 1) (.const 0), .constant (.const 1) (.const 1)]
    ofWaveform [] coarse = .ok ⟨[.decimal 1], [.decimal 3]⟩ ∧
      ofWaveform [] steep = .ok ⟨[.decimal 0, .decimal 0, .decimal 1],
        [.decimal 0, .decimal 1, .decimal 1]⟩ := by
  with_unfolding_all exact ⟨rfl, rfl⟩

end PiecewiseLinear

end AtomArray
