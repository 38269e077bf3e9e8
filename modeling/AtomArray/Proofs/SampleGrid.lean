import AtomArray.Proofs.Breakpoints
import AtomArray.Waveform.Eval
import Mathlib.Data.Rat.Floor

/-!
The times at which a waveform is sampled.

They are the multiples of the step before the last whole step, and the end (`sampleTimes`). A
waveform that is shorter than a step is sampled at its end only: zero is missing then, and nowhere
else (`Waveform.samples_grid`).
-/

namespace AtomArray

open List Outcome Exact

/-- The times at which a waveform of duration `d` is sampled in steps of `x`. -/
def sampleTimes (d x : Rat) : List Rat := ((range ⌊d / x⌋₊).map fun k : Nat => k * x) ++ [d]

variable {d x : Rat}

theorem gridTimes_eq {n fuel : Nat} {clock : Rat} (hfuel : n < fuel)
    (hfit : ∀ k < n, clock + k * x ≤ d - x) (hstop : d - x < clock + n * x) :
    gridTimes x (d - x) fuel clock = .ok ((range n).map fun k : Nat => clock + k * x) := by
  induction n generalizing fuel clock with
  | zero =>
    obtain ⟨fuel, rfl⟩ := Nat.exists_eq_succ_of_ne_zero hfuel.ne'
    have hlt : ¬clock ≤ d - x := by simpa using hstop
    simp [gridTimes, hlt]
  | succ n ih =>
    obtain ⟨fuel, rfl⟩ := Nat.exists_eq_succ_of_ne_zero (Nat.ne_zero_of_lt hfuel)
    have hfirst : clock ≤ d - x := by simpa using hfit 0 n.succ_pos
    have hrest := @ih fuel (clock + x) (by omega)
      (fun k hk => by have := hfit (k + 1) (by omega); push_cast at this; linarith)
      (by push_cast at hstop; linarith)
    simp only [gridTimes, le_eq, add_eq, ok_bind, hfirst, decide_true, if_true, hrest, pure_eq_ok,
      range_succ_eq_map, map_cons, map_map, Nat.cast_zero, zero_mul, add_zero]
    have hshift : ∀ k ∈ range n, clock + x + k * x = clock + (k.succ : Rat) * x := by
      intro k _
      push_cast
      ring
    exact congrArg (fun times => Except.ok (clock :: times)) (map_congr_left hshift)

/-- No step is left out before the last whole one, and none fits after it. -/
theorem floor_steps (hd : 0 ≤ d) (hx : 0 < x) :
    (∀ k < ⌊d / x⌋₊, (k : Rat) * x ≤ d - x) ∧ d - x < ⌊d / x⌋₊ * x := by
  have hlow := (le_div_iff₀ hx).mp (Nat.floor_le (div_nonneg hd hx.le))
  have hhigh := (div_lt_iff₀ hx).mp (Nat.lt_floor_add_one (d / x))
  refine ⟨fun k hk => ?_, by linarith⟩
  have hle : ((k : Rat) + 1) * x ≤ ⌊d / x⌋₊ * x :=
    mul_le_mul_of_nonneg_right (by exact_mod_cast hk) hx.le
  linarith

theorem floor_of_not_pos (hd : 0 ≤ d) (hx : ¬0 < x) : ⌊d / x⌋₊ = 0 :=
  Nat.floor_of_nonpos (div_nonpos_of_nonneg_of_nonpos hd (not_lt.mp hx))

/-- The loop ends by itself: all its times are there. -/
theorem gridTimes_sampleTimes (hd : 0 ≤ d) : gridTimes x (d - x) (Arith.stepBound d x) 0 =
      .ok ((range ⌊d / x⌋₊).map fun k : Nat => k * x) := by
  by_cases hx : 0 < x
  · obtain ⟨hfit, hstop⟩ := floor_steps hd hx
    have hfuel : ⌊d / x⌋₊ < Arith.stepBound d x := by
      rw [show Arith.stepBound d x = ⌊d / x⌋.toNat + 2 from if_neg hx.not_ge, Int.floor_toNat]
      omega
    simpa using @gridTimes_eq d x _ _ 0 hfuel (by simpa using hfit) (by simpa using hstop)
  · rw [show Arith.stepBound d x = 0 from if_pos (not_lt.mp hx), floor_of_not_pos hd hx]
    rfl

theorem mem_sampleTimes (hd : 0 ≤ d) {t : Rat} (ht : t ∈ sampleTimes d x) : 0 ≤ t ∧ t ≤ d := by
  rcases mem_append.mp ht with ht | ht
  · obtain ⟨k, hk, rfl⟩ := mem_map.mp ht
    have hx : 0 < x := not_not.mp fun hx => by simp [floor_of_not_pos hd hx] at hk
    have hfit := (floor_steps hd hx).1 k (mem_range.mp hk)
    exact ⟨by positivity, by linarith⟩
  · obtain rfl := mem_singleton.mp ht
    exact ⟨hd, le_rfl⟩

theorem sampleTimes_sorted (hd : 0 ≤ d) : (sampleTimes d x).Pairwise (· < ·) := by
  by_cases hx : 0 < x
  · rw [sampleTimes, pairwise_append]
    refine ⟨pairwise_map.mpr (pairwise_lt_range.imp fun hij => ?_), pairwise_singleton _ d, ?_⟩
    · exact mul_lt_mul_of_pos_right (by exact_mod_cast hij) hx
    · rintro _ ht _ (_ | ⟨_, ⟨⟩⟩)
      obtain ⟨k, hk, rfl⟩ := mem_map.mp ht
      linarith [(floor_steps hd hx).1 k (mem_range.mp hk)]
  · simp [sampleTimes, floor_of_not_pos hd hx]

theorem sampleTimes_head (hx : 0 < x) : (sampleTimes d x).head? = some 0 ↔ x ≤ d ∨ d = 0 := by
  rcases Nat.eq_zero_or_pos ⌊d / x⌋₊ with h0 | hpos
  · have hlt : d / x < 1 := Nat.floor_eq_zero.mp h0
    rw [div_lt_one hx] at hlt
    simp [sampleTimes, h0, hlt.not_ge]
  · have hle : x ≤ d := (one_le_div hx).mp (Nat.floor_pos.mp hpos)
    obtain ⟨n, hn⟩ := Nat.exists_eq_succ_of_ne_zero hpos.ne'
    simp [sampleTimes, hn, range_succ_eq_map, hle]

namespace Waveform

variable {env : Env Rat} {w : Waveform Rat} {dt : Scalar Rat} {i : Interpolation} {t : Rat}

theorem samples_eq (hlen : w.length env = .ok d) (hd : 0 ≤ d) : w.samples env dt = do
      let x ← dt.eval env
      return (sampleTimes d x, ← (sampleTimes d x).mapM (w.eval env)) := by
  simp only [samples, hlen, ok_bind, sub_eq, foldedZero_eq, gridTimes_sampleTimes hd]
  rfl

theorem exists_samples {p : List Rat × List Rat} (hlen : w.length env = .ok d) (hd : 0 ≤ d)
    (h : w.samples env dt = .ok p) :
    ∃ (x : Rat) (points : List Breakpoint), dt.eval env = .ok x ∧
      points.map Prod.fst = sampleTimes d x ∧
      p = (points.map Prod.fst, points.map Prod.snd) ∧ ∀ q ∈ points, w.eval env q.1 = .ok q.2 := by
  rw [samples_eq hlen hd] at h
  obtain ⟨x, values, hx, hvalues, h⟩ := bind₂_eq_ok.mp h
  cases h
  obtain ⟨hcount, hmem⟩ := forall₂_iff_zip.mp (mapM_eq_ok_iff.mp hvalues)
  have htimes := map_fst_zip hcount.le
  exact ⟨x, (sampleTimes d x).zip values, hx, htimes, by rw [htimes, map_snd_zip hcount.ge],
    fun q hq => hmem hq⟩

theorem eval_sample : (Waveform.sample w i dt).eval env t =
    w.samples env dt >>= fun p => interpolate i p.1 p.2 t := by
  simp only [samples, eval, bind_assoc]
  rfl

variable {q : Breakpoint}

/-- Between two samples that are neighbours. -/
theorem interpolate_divided {pre post : List Breakpoint}
    (hpre : ∀ p ∈ pre, p.1 < t) (hpost : ∀ p ∈ q :: post, t ≤ p.1) :
    interpolate i ((pre ++ q :: post).map Prod.fst) ((pre ++ q :: post).map Prod.snd) t =
      .ok (match pre.getLast?, i with
        | none, _ => q.2
        | some p, .constant => p.2
        | some p, .linear => SeriesKind.linear.value p q t) := by
  rw [interpolate, bisectLeft_points hpre hpost, ok_bind]
  rcases eq_nil_or_concat pre with rfl | ⟨init, p, rfl⟩
  · simp
  · rw [concat_eq_append, append_assoc, singleton_append] at *
    have hpq : q.1 - p.1 ≠ 0 :=
      (sub_pos.mpr ((hpre p (by simp)).trans_le (hpost q mem_cons_self))).ne'
    cases i <;> simp [div_of_ne_zero _ hpq, SeriesKind.value]

end Waveform

end AtomArray
