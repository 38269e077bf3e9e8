import AtomArray.Proofs.Meaning
import AtomArray.Proofs.SampleGrid

/-!
Waveforms in which nothing takes a negative time (`Waveform.Lasting`).

Their evaluation and their length are taken apart here, one lemma per kind (`Waveform.eval_linear`
and its siblings), so that later proofs open neither.

* `Waveform.Lasting.exists_length`: such a waveform has a length, and it is not negative.
* `Waveform.Lasting.eval_after`: after its end it is zero.
-/

namespace AtomArray

open Outcome Exact Waveform Scalar Except

theorem Scalar.greater_keeps {env : Env Rat} {a b : Scalar Rat} {x y : Rat}
    (ha : eval env a = .ok x) (hb : eval env b = .ok y) :
    ∃ e, greater a b = .ok e ∧ eval env e = .ok (Max.max x y) := by
  refine canon_keeps _ _ (eval_max.mpr (extremal_termSet.mpr ⟨?_, ?_⟩))
  · rcases le_total x y with h | h
    · exact ⟨b, by simp, by rwa [max_eq_right h]⟩
    · exact ⟨a, by simp, by rwa [max_eq_left h]⟩
  · intro e he
    rcases List.mem_pair.mp he with rfl | rfl
    · exact ⟨x, ha, le_max_left x y⟩
    · exact ⟨y, hb, le_max_right x y⟩

/-- A name, free or bound to a number: what a profile takes for a parameter. -/
def Scalar.IsName (e : Scalar Rat) : Prop :=
  (∃ n, e = .var n) ∨ ∃ n v, e = .assigned n v

theorem Scalar.IsName.eq_of_same {a b : Scalar Rat} (ha : a.IsName)
    (h : a.same b) : a = b := by
  rcases ha with ⟨n, rfl⟩ | ⟨n, x, rfl⟩ <;> cases b <;> simp_all [same]

namespace Waveform

variable {env : Env Rat} {w w' : Waveform Rat} {vs ws ws' : List (Waveform Rat)} {c d e t v : Rat}

/-- Waveforms in which every instruction and every cut takes a time that is not negative. -/
inductive Lasting (env : Env Rat) : Waveform Rat → Prop where
  | linear {a b d : Scalar Rat} {x : Rat} : d.eval env = .ok x → 0 ≤ x → Lasting env (.linear a b d)
  | constant {v d : Scalar Rat} {x : Rat} : d.eval env = .ok x → 0 ≤ x → Lasting env (.constant v d)
  | poly {cs : List (Scalar Rat)} {d : Scalar Rat} {x : Rat} :
      d.eval env = .ok x → 0 ≤ x → Lasting env (.poly cs d)
  | profile {fn : Profile} {d : Scalar Rat} {ps : List (Scalar Rat)} {defaults : List (String × Rat)}
      {x : Rat} : d.eval env = .ok x →
      d.eval (Env.extend (defaults.map fun kv => (kv.1, Param.number kv.2)) env) = .ok x → 0 ≤ x →
      (∀ p ∈ ps, p.IsName) → Lasting env (.profile fn d ps defaults)
  | smooth {r : Scalar Rat} {k : Kernel} {w : Waveform Rat} :
      Lasting env w → Lasting env (.smooth r k w)
  | slice {w : Waveform Rat} {i : Interval Rat} {x : Rat} :
      Lasting env w → (Waveform.slice w i).length env = .ok x → Lasting env (.slice w i)
  | append {ws : List (Waveform Rat)} : (∀ w ∈ ws, Lasting env w) → Lasting env (.append ws)
  | neg {w : Waveform Rat} : Lasting env w → Lasting env (.neg w)
  | scale {s : Scalar Rat} {w : Waveform Rat} : Lasting env w → Lasting env (.scale s w)
  | add {a b : Waveform Rat} : Lasting env a → Lasting env b → Lasting env (.add a b)
  | record {w : Waveform Rat} {name : String} : Lasting env w → Lasting env (.record w name)
  | sample {w : Waveform Rat} {i : Interpolation} {dt : Scalar Rat} :
      Lasting env w → Lasting env (.sample w i dt)
  | aligned {w : Waveform Rat} {a : Alignment} {v : AlignedValue Rat} :
      Lasting env w → Lasting env (.aligned w a v)

/-! ### Taking an evaluation apart -/

variable {s : Scalar Rat} {times : List Rat}

theorem eval_linear {a b : Scalar Rat} : eval env (.linear a b s) t = .ok v ↔
      ∃ x y d, a.eval env = .ok x ∧ b.eval env = .ok y ∧ s.eval env = .ok d ∧
        (if d < t then v = 0 else d ≠ 0 ∧ v = (y - x) / d * t + x) := by
  simp only [eval, bind_eq_ok, gt_eq, ok_bind, sub_eq, mul_eq, add_eq, decide_eq_true_eq]
  constructor
  · rintro ⟨x, hx, y, hy, d, hd, h⟩
    refine ⟨x, y, d, hx, hy, hd, ?_⟩
    split at h
    · rename_i hlt
      simpa [hlt] using h.symm
    · rename_i hle
      obtain ⟨_, hdiv, h⟩ := bind_eq_ok.mp h
      obtain ⟨hne, rfl⟩ := div_eq_ok.mp hdiv
      rw [if_neg hle]
      exact ⟨hne, by simpa using h.symm⟩
  · rintro ⟨x, y, d, hx, hy, hd, h⟩
    refine ⟨x, hx, y, hy, d, hd, ?_⟩
    split at h
    · rename_i hlt
      simp [hlt, h]
    · rename_i hle
      rw [if_neg hle, div_of_ne_zero _ h.1, ok_bind, h.2]

theorem eval_constant {a : Scalar Rat} : eval env (.constant a s) t = .ok v ↔
      ∃ x d, a.eval env = .ok x ∧ s.eval env = .ok d ∧ v = if d < t then 0 else x := by
  simp only [eval, bind_eq_ok, gt_eq, ok_bind, decide_eq_true_eq,
    zero_eq, pure_eq_ok, ← apply_ite (@ok Fault Rat), ok.injEq,
    eq_comm (a := v)]
  constructor
  · rintro ⟨x, hx, d, hd, h⟩
    exact ⟨x, d, hx, hd, h⟩
  · rintro ⟨x, d, hx, hd, h⟩
    exact ⟨x, hx, d, hd, h⟩

theorem eval_poly {cs : List (Scalar Rat)} : eval env (.poly cs s) t = .ok v ↔
      ∃ d, s.eval env = .ok d ∧ (if d < t then v = 0 else polyValue env t 0 1 cs = .ok v) := by
  simp only [eval, bind_eq_ok, gt_eq, ok_bind, decide_eq_true_eq, zero_eq, one_eq, pure_eq_ok]
  refine exists_congr fun d => and_congr_right fun _ => ?_
  split <;> simp [eq_comm]

theorem eval_slice {i : Interval Rat} : eval env (.slice w i) t = .ok v ↔
      ∃ d, (slice w i).length env = .ok d ∧
        (if d < t then v = 0 else ∃ start, evalBound env i.start = .ok start ∧
          eval env w (t + start.getD 0) = .ok v) := by
  simp only [eval, bind_eq_ok, gt_eq, ok_bind, decide_eq_true_eq, zero_eq, add_eq, pure_eq_ok]
  refine exists_congr fun d => and_congr_right fun _ => ?_
  split
  · simp [eq_comm]
  · exact bind_eq_ok

theorem eval_neg : eval env (.neg w) t = .ok v ↔ ∃ x, eval env w t = .ok x ∧ v = -x := by
  simp only [eval, bind_eq_ok, neg_eq, ok.injEq]
  exact exists_congr fun x => and_congr_right fun _ => eq_comm

theorem eval_scale : eval env (.scale s w) t = .ok v ↔
      ∃ f x, s.eval env = .ok f ∧ eval env w t = .ok x ∧ v = f * x := by
  exact both_eq_ok

theorem eval_add {a b : Waveform Rat} : eval env (.add a b) t = .ok v ↔
      ∃ x y, eval env a t = .ok x ∧ eval env b t = .ok y ∧ v = x + y := by
  simp only [eval, measuredAt, decimal_eq, measured_eq, bind_eq_ok,
    pure_eq_ok, add_eq, ok.injEq]
  constructor
  · rintro ⟨_, ⟨x, hx, rfl⟩, _, ⟨y, hy, rfl⟩, rfl⟩
    exact ⟨x, y, hx, hy, rfl⟩
  · rintro ⟨x, y, hx, hy, rfl⟩
    exact ⟨x, ⟨x, hx, rfl⟩, y, ⟨y, hy, rfl⟩, rfl⟩

theorem eval_record {name : String} :
    eval env (.record w name) t = .ok v ↔ eval env w t = .ok v := by
  simp [eval, measuredAt, bind_eq_ok]

theorem eval_smooth_ne_ok {r : Scalar Rat} {k : Kernel} : eval env (.smooth r k w) t ≠ .ok v := by
  intro h
  simp only [eval, bind_eq_ok] at h
  obtain ⟨_, -, _, -, _, -, _, -, h⟩ := h
  cases h

/-! ### Lengths -/

/-- The time that pieces take one after the other. -/
def totalLength (env : Env Rat) (ws : List (Waveform Rat)) : Outcome Rat := sumOf (length env) ws

theorem totalLength_cons : totalLength env (w :: ws) = .ok e ↔
      ∃ x y, w.length env = .ok x ∧ totalLength env ws = .ok y ∧ e = x + y :=
  sumOf_cons

theorem durationAfter_keeps (h : totalLength env ws = .ok e) (hs : s.eval env = .ok c) :
    ∃ s', durationAfter s ws = .ok s' ∧ s'.eval env = .ok (c + e) := by
  induction ws generalizing s c e with
  | nil =>
    obtain rfl := sumOf_nil.mp h
    exact ⟨s, by rw [durationAfter], by rwa [add_zero]⟩
  | cons w ws ih =>
    obtain ⟨x, y, hx, hy, rfl⟩ := totalLength_cons.mp h
    obtain ⟨r, hr, hrx⟩ := length_eq_ok.mp hx
    obtain ⟨sum, hsum, hsumx⟩ := plus_keeps hs hrx
    obtain ⟨s', hs', hval⟩ := ih hy hsumx
    refine ⟨s', ?_, by rwa [← add_assoc]⟩
    rw [durationAfter, hr, ok_bind, hsum, ok_bind, hs']

theorem length_append (h : totalLength env ws = .ok e) :
    (append ws).length env = .ok e := by
  obtain ⟨s, hs, hval⟩ := durationAfter_keeps h eval_zeroLit
  rw [zero_add] at hval
  exact length_of_duration (by rw [duration, hs]) hval

theorem length_add {a b : Waveform Rat} (ha : a.length env = .ok c) (hb : b.length env = .ok d) :
    (add a b).length env = .ok (max c d) := by
  obtain ⟨r, hr, hrc⟩ := length_eq_ok.mp ha
  obtain ⟨s, hs, hsd⟩ := length_eq_ok.mp hb
  obtain ⟨m, hm, hmd⟩ := greater_keeps hrc hsd
  refine length_of_duration ?_ hmd
  rw [duration, hr, ok_bind, hs, ok_bind, hm]

theorem exists_totalLength (h : ∀ w ∈ ws, ∃ d, 0 ≤ d ∧ w.length env = .ok d) :
    ∃ e, 0 ≤ e ∧ totalLength env ws = .ok e := by
  induction ws with
  | nil => exact ⟨0, le_rfl, rfl⟩
  | cons w ws ih =>
    obtain ⟨x, hx0, hx⟩ := h w List.mem_cons_self
    obtain ⟨y, hy0, hy⟩ := ih fun u hu => h u (List.mem_cons_of_mem _ hu)
    exact ⟨x + y, add_nonneg hx0 hy0, totalLength_cons.mpr ⟨x, y, hx, hy, rfl⟩⟩

/-- A waveform in which nothing takes a negative time has a length, and it is not negative. -/
theorem Lasting.exists_length (h : Lasting env w) : ∃ d, 0 ≤ d ∧ w.length env = .ok d := by
  induction h with
  | linear hd h0 | constant hd h0 | poly hd h0 | profile hd _ h0 _ =>
    exact ⟨_, h0, length_of_duration (by rw [duration]) hd⟩
  | slice _ hlen _ =>
    obtain ⟨-, whole, start, stop, -, -, -, hcut⟩ := length_slice.mp hlen
    obtain ⟨-, -, hle, rfl⟩ := cutLength_eq_ok.mp hcut
    exact ⟨_, sub_nonneg.mpr hle, hlen⟩
  | append _ ih =>
    obtain ⟨e, he0, he⟩ := exists_totalLength ih
    exact ⟨e, he0, length_append he⟩
  | add _ _ iha ihb =>
    obtain ⟨c, hc0, hc⟩ := iha
    obtain ⟨d, _, hd⟩ := ihb
    exact ⟨max c d, hc0.trans (le_max_left c d), length_add hc hd⟩
  | smooth _ ih | neg _ ih | scale _ ih | record _ ih | sample _ ih | aligned _ ih =>
    exact ih

theorem totalLength_nonneg (hws : ∀ w ∈ ws, Lasting env w) (h : totalLength env ws = .ok e) :
    0 ≤ e := by
  obtain ⟨x, hx0, hx⟩ := exists_totalLength fun w hw => (hws w hw).exists_length
  obtain rfl : x = e := by simpa [hx] using h
  exact hx0

/-! ### After the end -/

theorem interpolate_after {i : Interpolation} {values : List Rat} (h : ∀ x ∈ times, x < t) :
    interpolate i times values t = .ok 0 := by
  have hend : bisectLeft times t = .ok times.length := by
    simpa [bisectLeft] using @bisectBy_append Rat (fun m => decide (m < t)) times []
      (by simpa using h) (by simp) 0 times.length (by simp) (by simp) (by simp)
  simp [interpolate, hend]

theorem evalPieces_after (h : totalLength env ws = .ok e)
    (hws : ∀ w ∈ ws, Lasting env w) (ht : c + e < t) : evalPieces env ws c t = .ok 0 := by
  induction ws generalizing c e with
  | nil => simp [evalPieces]
  | cons w ws ih =>
    obtain ⟨x, y, hx, hy, rfl⟩ := totalLength_cons.mp h
    have hrest : ∀ u ∈ ws, Lasting env u := fun u hu => hws u (List.mem_cons_of_mem _ hu)
    have hy0 := totalLength_nonneg hrest hy
    have hstop : c + x < t := by linarith
    simp only [evalPieces, hx, ok_bind, add_eq, le_eq, decide_eq_true_eq, hstop.not_ge, if_false]
    exact ih hy hrest (by linarith)

/-- **After its end a waveform is zero**, wherever it has a value at all. -/
theorem Lasting.eval_after (h : Lasting env w) (hlen : w.length env = .ok d) (ht : d < t)
    (hv : w.eval env t = .ok v) : v = 0 := by
  induction h generalizing d t v with
  | linear hd _ =>
    obtain ⟨x, y, d', -, -, hd', hv⟩ := eval_linear.mp hv
    obtain rfl : d' = d := by simpa [length, duration, hd'] using hlen
    rwa [if_pos ht] at hv
  | constant hd _ =>
    obtain ⟨x, d', -, hd', rfl⟩ := eval_constant.mp hv
    obtain rfl : d' = d := by simpa [length, duration, hd'] using hlen
    exact if_pos ht
  | poly hd _ =>
    obtain ⟨d', hd', hv⟩ := eval_poly.mp hv
    obtain rfl : d' = d := by simpa [length, duration, hd'] using hlen
    rwa [if_pos ht] at hv
  | profile hd hd' _ _ =>
    simp only [length, duration, ok_bind, hd, ok.injEq] at hlen
    subst hlen
    simpa [eval, hd', ht, eq_comm] using hv
  | smooth _ _ => exact absurd hv eval_smooth_ne_ok
  | slice _ _ _ =>
    obtain ⟨d', hd', hv⟩ := eval_slice.mp hv
    obtain rfl : d' = d := by simpa [hd'] using hlen
    rwa [if_pos ht] at hv
  | append hws _ =>
    obtain ⟨e, -, he⟩ := exists_totalLength fun w hw => (hws w hw).exists_length
    obtain rfl : e = d := by simpa [length_append he] using hlen
    rw [eval, zero_eq, evalPieces_after he hws (by rwa [zero_add])] at hv
    simpa using hv.symm
  | neg _ ih =>
    obtain ⟨x, hx, rfl⟩ := eval_neg.mp hv
    rw [ih hlen ht hx, neg_zero]
  | scale _ ih =>
    obtain ⟨f, x, -, hx, rfl⟩ := eval_scale.mp hv
    rw [ih hlen ht hx, mul_zero]
  | add ha hb iha ihb =>
    obtain ⟨x, -, hx⟩ := ha.exists_length
    obtain ⟨y, -, hy⟩ := hb.exists_length
    obtain rfl : max x y = d := by simpa [length_add hx hy] using hlen
    obtain ⟨l, r, hl, hr, rfl⟩ := eval_add.mp hv
    rw [iha hx ((le_max_left x y).trans_lt ht) hl, ihb hy ((le_max_right x y).trans_lt ht) hr,
      add_zero]
  | record _ ih => exact ih hlen ht (eval_record.mp hv)
  | sample hw _ =>
    obtain ⟨x, hx0, hx⟩ := hw.exists_length
    obtain rfl : x = d := ok.inj (hx.symm.trans hlen)
    rw [eval_sample] at hv
    obtain ⟨p, hp, hv⟩ := bind_eq_ok.mp hv
    obtain ⟨_, points, -, htimes, rfl, -⟩ := exists_samples hx hx0 hp
    rw [interpolate_after (htimes ▸ fun y hy => (mem_sampleTimes hx0 hy).2.trans_lt ht)] at hv
    simpa using hv.symm
  | aligned _ _ => simp [eval] at hv

end Waveform

end AtomArray
