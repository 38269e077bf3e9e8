import AtomArray.Piecewise.Compile
import AtomArray.Proofs.Canonical
import Mathlib.Tactic.FieldSimp

/-!
What a waveform means, in exact arithmetic.

`Waveform.Denotes env w d f` says that `w` takes the positive time `d` and has the value `f t` at
every time `t` of it. Each kind of waveform that can be a piecewise series has its rule here.
`Waveform.Continues env ws d e f` is what is left of a join when the pieces `ws` remain at time `d`,
and `Waveform.Timed` are the waveforms of these kinds in which everything takes time.
-/

namespace AtomArray

open Outcome Exact Scalar

variable {i : Interval Rat}

theorem cutBounds_eq_ok {env : Env Rat} {whole a b : Rat} :
    cutBounds env whole i = .ok (a, b) ↔ ∃ start stop, evalBound env i.start = .ok start ∧
        evalBound env i.stop = .ok stop ∧ a = start.getD 0 ∧ b = stop.getD whole ∧
        0 ≤ a ∧ b ≤ whole ∧ a ≤ b := by
  simp only [cutBounds, bind_eq_ok, zero_eq, lt_eq, ok_bind,
    decide_eq_true_eq, throw_eq_error, error_bind, refuse_eq_ok, not_lt,
    return_eq_ok, Prod.mk.injEq]
  constructor
  · rintro ⟨start, hstart, stop, hstop, hzero, hwhole, horder, rfl, rfl⟩
    exact ⟨start, stop, hstart, hstop, rfl, rfl, hzero, hwhole, horder⟩
  · rintro ⟨start, stop, hstart, hstop, rfl, rfl, hzero, hwhole, horder⟩
    exact ⟨start, hstart, stop, hstop, hzero, hwhole, horder, rfl, rfl⟩

variable {cs : List (Scalar Rat)}

theorem eq_of_lineEnds {env : Env Rat} {k : SeriesKind} {d a b : Rat}
    (hcs : cs.length ≤ 1 ∨ d = 0) (h : lineEnds env k cs d = .ok (a, b)) : a = b := by
  match cs, hcs, h with
  | [], _, h =>
    obtain ⟨rfl, rfl⟩ : 0 = a ∧ 0 = b := by simpa [lineEnds] using h
    rfl
  | [c], _, h =>
    simp only [lineEnds, bind_eq_ok, return_eq_ok, Prod.mk.injEq] at h
    obtain ⟨v, -, rfl, rfl⟩ := h
    rfl
  | [c, slope], .inr hd, h =>
    simp only [lineEnds, mul_eq, add_eq, ok_bind, bind_eq_ok, return_eq_ok, Prod.mk.injEq] at h
    obtain ⟨v, -, m, -, rfl, rfl⟩ := h
    rw [hd, mul_zero, add_zero]

namespace Waveform

variable {env : Env Rat} {w : Waveform Rat} {ws : List (Waveform Rat)} {d e : Rat} {f g : Rat → Rat}

/-- Waveforms built from lines, constants and polynomials by changing the sign, scaling, cutting,
joining and recording, in which every instruction and every cut takes a positive time. -/
inductive Timed (env : Env Rat) : Waveform Rat → Prop where
  | linear {a b d : Scalar Rat} {x : Rat} : d.eval env = .ok x → 0 < x → Timed env (.linear a b d)
  | constant {v d : Scalar Rat} {x : Rat} : d.eval env = .ok x → 0 < x → Timed env (.constant v d)
  | poly {cs : List (Scalar Rat)} {d : Scalar Rat} {x : Rat} :
      d.eval env = .ok x → 0 < x → Timed env (.poly cs d)
  | neg {w : Waveform Rat} : Timed env w → Timed env (.neg w)
  | scale {c : Scalar Rat} {w : Waveform Rat} : Timed env w → Timed env (.scale c w)
  | slice {w : Waveform Rat} {i : Interval Rat} {x : Rat} :
      Timed env w → (Waveform.slice w i).length env = .ok x → 0 < x → Timed env (.slice w i)
  | append {ws : List (Waveform Rat)} :
      ws ≠ [] → (∀ w ∈ ws, Timed env w) → Timed env (.append ws)
  | record {w : Waveform Rat} {name : String} : Timed env w → Timed env (.record w name)

/-- The waveform takes the time `d`, in which it is the function `f`. -/
structure Denotes (env : Env Rat) (w : Waveform Rat) (d : Rat) (f : Rat → Rat) : Prop where
  pos : 0 < d
  length : w.length env = .ok d
  value : ∀ t, 0 ≤ t → t ≤ d → w.eval env t = .ok (f t)

theorem length_eq_ok : w.length env = .ok d ↔ ∃ s, w.duration = .ok s ∧ s.eval env = .ok d :=
  bind_eq_ok

theorem length_of_duration {s : Scalar Rat} (hw : w.duration = .ok s) (hs : s.eval env = .ok d) :
    w.length env = .ok d :=
  length_eq_ok.mpr ⟨s, hw, hs⟩

/-- The length of a cut is that between its bounds, one of which is there. -/
theorem length_slice : (Waveform.slice w i).length env = .ok d ↔
      (i.start.isSome ∨ i.stop.isSome) ∧ ∃ whole start stop, w.length env = .ok whole ∧
        evalBound env i.start = .ok start ∧ evalBound env i.stop = .ok stop ∧
        cutLength whole start stop = .ok d := by
  simp only [length_eq_ok, duration, throw_eq_error, error_bind,
    refuse_eq_ok, bind_eq_ok, return_eq_ok,
    Bool.and_eq_true, Option.isNone_iff_eq_none, not_and_or, ← Option.isSome_iff_ne_none]
  constructor
  · rintro ⟨s, ⟨hbound, r, hr, rfl⟩, hs⟩
    obtain ⟨whole, start, stop, hwhole, hstart, hstop, hcut⟩ := eval_slice.mp hs
    exact ⟨hbound, whole, start, stop, ⟨r, hr, hwhole⟩, hstart, hstop, hcut⟩
  · rintro ⟨hbound, whole, start, stop, ⟨r, hr, hwhole⟩, hstart, hstop, hcut⟩
    exact ⟨_, ⟨hbound, r, hr, rfl⟩,
      eval_slice.mpr ⟨whole, start, stop, hwhole, hstart, hstop, hcut⟩⟩

attribute [local simp] duration eval

namespace Denotes

/-! ### Lines -/

variable {s : Scalar Rat} {x : Rat} {y : Rat}

theorem linear {a b : Scalar Rat} (hs : s.eval env = .ok d)
    (ha : a.eval env = .ok x) (hb : b.eval env = .ok y) (hd : 0 < d) :
    Denotes env (.linear a b s) d fun t => (y - x) / d * t + x := by
  refine ⟨hd, length_of_duration (by rw [duration]) hs, fun t _ htd => ?_⟩
  simp [eval, hs, ha, hb, div_of_ne_zero _ hd.ne', htd.not_gt]

theorem constant {v : Scalar Rat} (hs : s.eval env = .ok d) (hv : v.eval env = .ok x)
    (hd : 0 < d) : Denotes env (.constant v s) d fun t => (x - x) / d * t + x := by
  refine ⟨hd, length_of_duration (by rw [duration]) hs, fun t _ htd => ?_⟩
  simp [eval, hs, hv, htd.not_gt]

/-- A polynomial of order one at most is the line between its ends. -/
theorem poly {k : SeriesKind}
    (hs : s.eval env = .ok d) (hends : lineEnds env k cs d = .ok (x, y)) (hd : 0 < d) :
    Denotes env (.poly cs s) d fun t => (y - x) / d * t + x := by
  refine ⟨hd, length_of_duration (by rw [duration]) hs, fun t _ htd => ?_⟩
  have heval : eval env (.poly cs s) t = polyValue env t 0 1 cs := by
    simp [eval, hs, htd.not_gt]
  rw [heval]
  match cs, hends with
  | [], hends =>
    obtain ⟨rfl, rfl⟩ : 0 = x ∧ 0 = y := by simpa [lineEnds] using hends
    simp [polyValue]
  | [c], hends =>
    simp only [lineEnds, bind_eq_ok, return_eq_ok, Prod.mk.injEq] at hends
    obtain ⟨v, hv, rfl, rfl⟩ := hends
    simp [polyValue, hv]
  | [c, slope], hends =>
    simp only [lineEnds, bind_eq_ok, pure_eq_ok, mul_eq, add_eq,
      Except.ok.injEq, Prod.mk.injEq, exists_eq_left'] at hends
    obtain ⟨v, hv, m, hm, rfl, rfl⟩ := hends
    simp only [polyValue, hv, hm, ok_bind, mul_eq, add_eq, Except.ok.injEq]
    field_simp
    ring
  | _ :: _ :: _ :: _, hends => simp [lineEnds] at hends

/-! ### Signs, multiples and names -/

theorem neg (h : Denotes env w d f) : Denotes env (.neg w) d fun t => -f t := by
  refine ⟨h.pos, ?_, fun t h0 htd => ?_⟩
  · rw [Waveform.length, duration]
    exact h.length
  · simp [eval, h.value t h0 htd]

theorem scale {c : Scalar Rat} (hc : c.eval env = .ok x) (h : Denotes env w d f) :
    Denotes env (.scale c w) d fun t => x * f t := by
  refine ⟨h.pos, ?_, fun t h0 htd => ?_⟩
  · rw [Waveform.length, duration]
    exact h.length
  · simp [eval, hc, h.value t h0 htd]

theorem record {name : String} (h : Denotes env w d f) : Denotes env (.record w name) d f := by
  refine ⟨h.pos, ?_, fun t h0 htd => ?_⟩
  · rw [Waveform.length, duration]
    exact h.length
  · simp [eval, measuredAt, h.value t h0 htd]

/-! ### Cuts -/

/-- A cut that takes time is the function between its two ends, moved to begin at zero. -/
theorem slice {a b : Rat} (h : Denotes env w d f)
    (hlen : (Waveform.slice w i).length env = .ok x) (hx : 0 < x)
    (hcut : cutBounds env d i = .ok (a, b)) :
    (0 ≤ a ∧ a < b ∧ b ≤ d) ∧ Denotes env (.slice w i) (b - a) fun t => f (t + a) := by
  obtain ⟨start, stop, hstart, hstop, rfl, rfl, h0, hbd, -⟩ := cutBounds_eq_ok.mp hcut
  -- The length of the cut is read off its duration, which evaluates the same two bounds.
  have hx' : x = stop.getD d - start.getD 0 := by
    obtain ⟨-, whole, start', stop', hwhole, hstart', hstop', hlen'⟩ := length_slice.mp hlen
    obtain rfl : d = whole := by simpa [h.length] using hwhole
    obtain rfl : start = start' := by simpa [hstart] using hstart'
    obtain rfl : stop = stop' := by simpa [hstop] using hstop'
    exact (cutLength_eq_ok.mp hlen').2.2.2
  subst hx'
  refine ⟨⟨h0, sub_pos.mp hx, hbd⟩, hx, hlen, fun t ht htx => ?_⟩
  have hvalue := h.value (t + start.getD 0) (by linarith) (by linarith)
  simp [eval, hlen, htx.not_gt, hstart, hvalue]

end Denotes

/-! ### Joins -/

/-- From the time `d` on, the pieces go on to the time `e` with the values of `f`. -/
structure Continues (env : Env Rat) (ws : List (Waveform Rat)) (d e : Rat) (f : Rat → Rat) :
    Prop where
  le : d ≤ e
  duration : ∀ s : Scalar Rat, s.eval env = .ok d →
    ∃ s', durationAfter s ws = .ok s' ∧ s'.eval env = .ok e
  value : ∀ t, d < t → t ≤ e → evalPieces env ws d t = .ok (f t)

theorem Continues.nil : Continues env [] d d f where
  le := le_rfl
  duration s hs := ⟨s, by rw [durationAfter], hs⟩
  value _ hdt htd := absurd hdt htd.not_gt

theorem Continues.cons {c : Rat} (hws : Continues env ws (c + d) e f) (h : Denotes env w d g)
    (hfg : ∀ t, c < t → t ≤ c + d → f t = g (t - c)) : Continues env (w :: ws) c e f where
  le := (le_add_of_nonneg_right h.pos.le).trans hws.le
  duration s hs := by
    obtain ⟨r, hr, hrd⟩ := length_eq_ok.mp h.length
    obtain ⟨sum, hsum, hsumd⟩ := plus_keeps hs hrd
    obtain ⟨s', hs', hse⟩ := hws.duration sum hsumd
    exact ⟨s', by simp [durationAfter, hr, hsum, hs'], hse⟩
  value t hct hte := by
    simp only [evalPieces, h.length, ok_bind, add_eq, le_eq, decide_eq_true_eq, sub_eq]
    split
    · rename_i htd
      rw [h.value (t - c) (by linarith) (by linarith), hfg t hct htd]
    · rename_i htd
      exact hws.value t (not_le.mp htd) hte

theorem Denotes.append (h : Denotes env w d g) (hws : Continues env ws d e f)
    (hfg : ∀ t, t ≤ d → f t = g t) : Denotes env (.append (w :: ws)) e f := by
  have hall : Continues env (w :: ws) 0 e f := by
    refine .cons (by rwa [zero_add]) h fun t _ htd => ?_
    rw [zero_add] at htd
    rw [sub_zero, hfg t htd]
  obtain ⟨s, hs, hse⟩ := hall.duration zeroLit eval_zeroLit
  refine ⟨h.pos.trans_le hws.le, length_of_duration (by rw [duration, hs]) hse, fun t h0 hte => ?_⟩
  rw [eval, zero_eq]
  rcases h0.lt_or_eq with h0 | rfl
  · exact hall.value t h0 hte
  · simp [evalPieces, h.length, h.pos.le, h.value 0 le_rfl h.pos.le, hfg 0 h.pos.le]

end Waveform

end AtomArray
