import AtomArray.Proofs.Lasting
import AtomArray.Waveform.Analysis

/-!
Waveforms that are found to be constant.

The analysis asks of every part whether it is constant, and takes the value at the end. If the answer
is yes, one value at one time is the value at all times (`Waveform.Lasting.steady`).
-/

namespace AtomArray

open List Outcome Exact Waveform

namespace Waveform

variable {env : Env Rat} {w : Waveform Rat} {ws : List (Waveform Rat)} {c d e s t : Rat}

/-- What follows something that is not constant is not found to be constant. -/
theorem staysConstant_false : ∀ w : Waveform Rat, staysConstant env false w ≠ .ok true
  | constant .. | profile .. | append [] => by simp [staysConstant, piecesConstant]
  | linear .. | poly .. | append (_ :: _) => by simp [staysConstant, piecesConstant, bind_eq_ok]
  | add a b => by
    intro h
    simp only [staysConstant, bind_eq_ok] at h
    obtain ⟨_, -, _, -, h⟩ := h
    split at h
    · obtain ⟨own, ha, hb⟩ := bind_eq_ok.mp h
      cases own with
      | true => exact staysConstant_false a ha
      | false => exact staysConstant_false b hb
    · cases h
  | aligned w _ _ | neg w | record w _ | sample w _ _ | scale _ w | slice w _ | smooth _ _ w =>
    staysConstant_false w

/-- Coefficients that are zero add nothing to a polynomial. -/
theorem polyValue_zeros {cs : List (Scalar Rat)} {vs : List Rat} {acc power : Rat}
    (hvs : Scalar.evalAll env cs = .ok vs) (hzero : ∀ v ∈ vs, v = 0) :
    polyValue env t acc power cs = .ok acc := by
  induction cs generalizing vs acc power with
  | nil => rfl
  | cons x xs ih =>
    obtain ⟨v, us, hv, hus, rfl⟩ := both_eq_ok.mp hvs
    obtain ⟨rfl, hus0⟩ := forall_mem_cons.mp hzero
    simp [polyValue, hv, ih hus hus0]

/-! ### Samples -/

variable {i : Interpolation}

/-- Between samples of one value, that value is interpolated. -/
theorem interpolate_same {points : List Breakpoint} (h : InOrder d points)
    (hc : ∀ p ∈ points, p.2 = c) (ht : t ≤ d) :
    interpolate i (points.map Prod.fst) (points.map Prod.snd) t = .ok c := by
  obtain ⟨pre, q, post, rfl, hpre, hpost⟩ :=
    h.divide (fun _ _ hxy hy => hxy.trans_lt hy) ht.not_gt
  rw [interpolate_divided hpre fun p hp => not_lt.mp (hpost p hp)]
  have hcq := hc q (by simp)
  cases hlast : pre.getLast? with
  | none => rw [hcq]
  | some p =>
    have hcp := hc p (mem_append_left _ (mem_of_getLast? hlast))
    cases i <;> simp [SeriesKind.value, hcp, hcq]

/-! ### Constant waveforms -/

/-- Until the end, what is found at any time is what is found at the start. -/
def Steady (env : Env Rat) (w : Waveform Rat) : Prop :=
  ∀ ⦃d t⦄, w.length env = .ok d → 0 ≤ t → t ≤ d → w.eval env t = w.eval env 0

theorem evalPieces_steady {value : Option Rat}
    (ih : ∀ w ∈ ws, staysConstant env true w = .ok true → w.Steady env)
    (h : piecesConstant env true value ws = .ok true) (he : totalLength env ws = .ok e) :
    ∃ v, (∀ x ∈ value, x = v) ∧
      ∀ t, s ≤ t → t ≤ s + e → ws ≠ [] → evalPieces env ws s t = .ok v := by
  induction ws generalizing value s e with
  | nil => exact ⟨value.getD 0, by simp +contextual, by simp⟩
  | cons w ws hrec =>
    obtain ⟨ihw, ih⟩ := forall_mem_cons.mp ih
    obtain ⟨x, y, hx, hy, rfl⟩ := totalLength_cons.mp he
    obtain ⟨own, hown, h⟩ := bind_eq_ok.mp h
    simp only [finalConstant, hx, ok_bind, bind_eq_ok, decimal_eq] at h
    obtain ⟨_, ⟨v, hv, ⟨⟩⟩, h⟩ := h
    split at h
    · rename_i hnow
      rw [hnow] at h
      simp only [Bool.true_and, Bool.and_eq_true, same_eq, decide_eq_true_eq] at hnow
      obtain ⟨rfl, hvalue⟩ := hnow
      rw [← hvalue] at h
      obtain ⟨_, heq, hrest⟩ := hrec (s := s + x) ih h hy
      obtain rfl := heq v rfl
      refine ⟨v, ?_, fun t hst ht _ => ?_⟩
      · rintro u rfl
        exact hvalue.symm
      · simp only [evalPieces, hx, ok_bind, add_eq, sub_eq, le_eq, decide_eq_true_eq]
        split
        · rw [ihw hown hx (by linarith) (by linarith), ← hv, ihw hown hx (by linarith) le_rfl]
        · refine hrest t (by linarith) (by linarith) ?_
          rintro rfl
          have := sumOf_nil.mp hy
          linarith
    · cases h

theorem sample_steady {dt : Scalar Rat} (hw : w.Steady env) : (sample w i dt).Steady env := by
  intro d t hd ht0 ht
  have hlen : w.length env = .ok d := by simpa only [length, duration] using hd
  have hd0 := ht0.trans ht
  rw [eval_sample, eval_sample]
  apply (Agree.self (R := Eq) fun _ _ => rfl).results.bind_eq
  rintro p _ ⟨rfl, hsamples, -⟩
  obtain ⟨x, points, -, htimes, rfl, hvalues⟩ := exists_samples hlen hd0 hsamples
  have hsorted : (points.map Prod.fst).Pairwise (· < ·) := htimes ▸ sampleTimes_sorted hd0
  obtain ⟨⟨_, c⟩, hc, rfl⟩ : ∃ p ∈ points, p.1 = d := by
    rw [← mem_map, htimes]
    simp [sampleTimes]
  have hsame : ∀ p ∈ points, p.2 = c := by
    intro p hp
    obtain ⟨hp0, hpd⟩ := mem_sampleTimes hd0 (htimes ▸ mem_map_of_mem hp)
    have hvalue := hvalues p hp
    rw [hw hlen hp0 hpd, ← hw hlen hd0 le_rfl, hvalues _ hc] at hvalue
    exact (Except.ok.inj hvalue).symm
  have horder : InOrder _ points := ⟨(pairwise_map.mp hsorted).imp le_of_lt, c, hc⟩
  rw [interpolate_same horder hsame ht, interpolate_same horder hsame hd0]

/-- **What is found to be constant is steady**, by induction on its parts. -/
theorem Lasting.steady (hw : Lasting env w) (h : staysConstant env true w = .ok true) :
    w.Steady env := by
  induction hw with
  | linear =>
    intro d t hd ht0 ht
    simp only [length, duration, ok_bind] at hd
    simp only [staysConstant, sub_eq, bind_eq_ok, ok_bind, return_eq_ok, isDecimal_zero] at h
    obtain ⟨y, hy, x, hx, hxy⟩ := h
    have hyx : y = x := by simpa [sub_eq_zero] using hxy
    simp only [eval, hx, hy, hd, hyx, ok_bind, gt_eq, decide_eq_true_eq, if_neg ht.not_gt,
      if_neg (ht0.trans ht).not_gt, sub_eq, sub_self]
    cases hslope : Arith.div (0 : Rat) d with
    | error => rfl
    | ok q =>
      obtain ⟨-, rfl⟩ := div_eq_ok.mp hslope
      simp
  | constant =>
    intro d t hd ht0 ht
    simp only [length, duration, ok_bind] at hd
    simp [eval, hd, ht.not_gt, (ht0.trans ht).not_gt]
  | @poly cs =>
    intro d t hd ht0 ht
    simp only [length, duration, ok_bind] at hd
    simp only [staysConstant, bind_eq_ok, return_eq_ok] at h
    obtain ⟨vs, hvs, hzero⟩ := h
    simp only [eval, hd, ok_bind, gt_eq, decide_eq_true_eq, if_neg ht.not_gt,
      if_neg (ht0.trans ht).not_gt]
    cases cs with
    | nil => rfl
    | cons x xs =>
      obtain ⟨v, us, hv, hus, rfl⟩ := both_eq_ok.mp hvs
      have hus0 : ∀ u ∈ us, u = 0 := by simpa using hzero
      simp only [polyValue, hv, mul_eq, add_eq, ok_bind, polyValue_zeros hus hus0]
  | profile => simp [staysConstant] at h
  | smooth => exact fun d t _ _ _ => rfl
  | slice _ _ ih =>
    intro d t hd ht0 ht
    obtain ⟨-, whole, a, b, hwhole, ha, hb, hcut⟩ := length_slice.mp hd
    obtain ⟨ha0, hb1, hab, rfl⟩ := Scalar.cutLength_eq_ok.mp hcut
    simp only [eval, hd, ha, ok_bind, gt_eq, add_eq, decide_eq_true_eq, if_neg ht.not_gt,
      if_neg (ht0.trans ht).not_gt, zero_eq]
    exact (ih h hwhole (by linarith) (by linarith)).trans
      (ih h hwhole (by linarith) (by linarith)).symm
  | @append ws hws ih =>
    intro d t hd ht0 ht
    obtain ⟨e, -, he⟩ := exists_totalLength fun w hw => (hws w hw).exists_length
    obtain rfl : e = d := by simpa [length_append he] using hd
    obtain ⟨v, -, hv⟩ := evalPieces_steady (s := 0) ih h he
    cases ws with
    | nil => rfl
    | cons w ws =>
      simp only [eval, zero_eq]
      rw [hv t ht0 (by linarith) (by simp), hv 0 le_rfl (by linarith) (by simp)]
  | neg _ ih | scale _ ih | record _ ih =>
    intro d t hd ht0 ht
    simp only [eval, measuredAt, decimal_eq, ih h hd ht0 ht]
  | @add a b ha hb iha ihb =>
    intro d t hd ht0 ht
    obtain ⟨x, -, hx⟩ := ha.exists_length
    obtain ⟨y, -, hy⟩ := hb.exists_length
    simp only [staysConstant, hx, hy, ok_bind, same_eq, decide_eq_true_eq] at h
    split at h
    · rename_i hxy
      obtain rfl : x = d := by simpa [length_add hx hy, hxy] using hd
      obtain ⟨own, hown, h⟩ := bind_eq_ok.mp h
      cases own with
      | false => exact absurd h (staysConstant_false b)
      | true =>
        simp only [eval, measuredAt, decimal_eq, iha hown hx ht0 ht, ihb h hy ht0 (hxy ▸ ht)]
    · cases h
  | sample _ ih => exact sample_steady (ih h)
  | aligned => exact fun d t _ _ _ => rfl

/-- **What is found to be constant is constant**: the constant that is given lasts as long, and has
the value of the waveform from the start to the end. -/
theorem constancy_sound (hw : Lasting env w) {u : Waveform Rat}
    (h : w.constancy env = .ok (true, u)) :
    ∃ c d, u = .constant (.lit c) (.lit d) ∧ 0 ≤ d ∧ w.length env = .ok d ∧
      ∀ t, 0 ≤ t → t ≤ d → w.eval env t = .ok c := by
  obtain ⟨d, hd0, hd⟩ := hw.exists_length
  simp only [constancy, finalConstant, hd, ok_bind, bind_eq_ok, decimal_eq] at h
  obtain ⟨_, hstays, _, ⟨c, hc, ⟨⟩⟩, ⟨⟩⟩ := h
  refine ⟨c, d, rfl, hd0, hd, fun t ht0 ht => ?_⟩
  rw [hw.steady hstays hd ht0 ht, ← hc, hw.steady hstays hd hd0 le_rfl]

def cutLevel : Waveform Rat :=
  .neg (.slice (.append [.constant (.var "a") (.lit 1), .poly [.lit 3, .lit 0] (.lit 2)])
    ⟨none, some (.lit 2)⟩)

theorem cutLevel_constant : Lasting [("a", .number 3)] cutLevel ∧
    cutLevel.constancy [("a", .number 3)] = .ok (true, .constant (.lit (-3)) (.lit 2)) ∧
    ∀ t, 0 ≤ t → t ≤ 2 → cutLevel.eval [("a", .number 3)] t = .ok (-3) := by
  have hw : Lasting [("a", .number 3)] cutLevel :=
    .neg (.slice (.append (by simpa using ⟨.constant rfl zero_le_one, .poly rfl zero_le_two⟩))
      (by with_unfolding_all rfl))
  have h : cutLevel.constancy [("a", .number 3)] =
      .ok (true, .constant (.lit (-3)) (.lit 2)) := by with_unfolding_all rfl
  obtain ⟨c, d, heq, -, -, hvalue⟩ := constancy_sound hw h
  cases heq
  exact ⟨hw, h, hvalue⟩

/-- Twice a join of a recorded one and a one is found to be two; but the recorded one is a binary
number, of which there is no double. -/
theorem scaled_join_fails : let one : Waveform Quantity := .constant (.const 1) (.const 1)
    let w : Waveform Quantity := .scale (.const 2) (.append [.record one "x", one])
    (w.constancy []).map Prod.fst = .ok true ∧ w.eval [] (.decimal 2) = .ok (.decimal 2) ∧
      w.eval [] (.decimal 1) = .error .type := by
  with_unfolding_all exact ⟨rfl, rfl, rfl⟩

end Waveform

end AtomArray
