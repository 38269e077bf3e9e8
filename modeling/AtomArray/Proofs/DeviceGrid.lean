import AtomArray.Hardware.Spec
import AtomArray.Proofs.Exact
import Mathlib.Algebra.Order.Ring.Abs

/-!
Moving a task specification to the grid of a device.

In exact arithmetic a number goes to the nearest multiple of a resolution, and from the middle
between two multiples to the even one. So a specification has one place on the grid and stays there
(`TaskSpec.discretize_nearest`).

The local times of the specification that is moved are changed in place. It is as it was before
exactly if they were on the grid (`TaskSpec.afterDiscretize_eq_self_iff`).
-/

namespace AtomArray

open List Outcome Exact

/-! ### Rounding -/

/-- The second number is the multiple of a resolution nearest to the first one, the even one of
two that are equally near. -/
def Nearest (r x y : Rat) : Prop :=
  ∃ n : Int, y = n * r ∧ |y - x| ≤ r / 2 ∧ (|y - x| = r / 2 → Even n)

theorem Exact.round_nearest (a : Rat) : Nearest 1 a (Exact.round a) := by
  have hlow := Rat.floor_le a
  have hhigh := Rat.lt_floor_add_one a
  push_cast at hhigh
  refine ⟨Exact.round a, (mul_one _).symm, ?_⟩
  simp only [Exact.round]
  split
  · rw [abs_of_nonpos (by linarith)]
    exact ⟨by linarith, fun h => by linarith⟩
  split
  · push_cast
    rw [abs_of_pos (by linarith)]
    exact ⟨by linarith, fun h => by linarith⟩
  split
  · rw [abs_of_nonpos (by linarith)]
    exact ⟨by linarith, fun _ => Int.even_iff.mpr ‹_›⟩
  · push_cast
    rw [abs_of_pos (by linarith)]
    exact ⟨by linarith, fun _ => Int.even_iff.mpr (by omega)⟩

theorem Exact.round_mono {a b : Rat} (h : a ≤ b) : Exact.round a ≤ Exact.round b := by
  by_contra hlt
  have hstep : (Exact.round b : Rat) + 1 ≤ Exact.round a := by
    exact_mod_cast Int.add_one_le_iff.mpr (not_le.mp hlt)
  obtain ⟨-, -, ha, -⟩ := round_nearest a
  obtain ⟨-, -, hb, -⟩ := round_nearest b
  -- the two numbers would be in the middle between the same two integers
  obtain rfl : a = b := by linarith [(abs_le.mp ha).2, (abs_le.mp hb).1]
  exact hlt le_rfl

/-- The multiple of a resolution that a number is moved to. -/
def gridPoint (r x : Rat) : Rat := Exact.round (x / r) * r

section Grid

variable {r : Rat} (hr : 0 < r)

include hr

theorem gridPoint_nearest (x : Rat) : Nearest r x (gridPoint r x) := by
  obtain ⟨n, hn, hhalf, htie⟩ := round_nearest (x / r)
  obtain rfl : Exact.round (x / r) = n := by simpa using hn
  have hdist : |gridPoint r x - x| = |(Exact.round (x / r) : Rat) - x / r| * r := by
    rw [gridPoint, ← abs_of_pos hr, ← abs_mul, abs_of_pos hr, sub_mul, div_mul_cancel₀ x hr.ne']
  refine ⟨Exact.round (x / r), rfl, ?_, fun h => htie ?_⟩ <;> rw [hdist] at *
  · linarith [mul_le_mul_of_nonneg_right hhalf hr.le]
  · exact mul_right_cancel₀ hr.ne' (by linarith)

theorem gridPoint_mono {x y : Rat} (h : x ≤ y) : gridPoint r x ≤ gridPoint r y :=
  mul_le_mul_of_nonneg_right
    (Int.cast_le.mpr (round_mono (div_le_div_of_nonneg_right h hr.le))) hr.le

theorem gridPoint_eq_self_iff {x : Rat} : gridPoint r x = x ↔ ∃ n : Int, x = n * r := by
  constructor
  · exact fun h => ⟨_, h.symm⟩
  · rintro ⟨n, rfl⟩
    rw [gridPoint, mul_div_cancel_right₀ _ hr.ne']
    simp [Exact.round]

theorem gridPoint_gridPoint (x : Rat) : gridPoint r (gridPoint r x) = gridPoint r x :=
  (gridPoint_eq_self_iff hr).mpr ⟨_, rfl⟩

theorem discretizeList_eq (xs : List Rat) : discretizeList r xs = .ok (xs.map (gridPoint r)) := by
  refine mapM_eq_ok fun x _ => ?_
  simp only [discretizeTo, decimal_eq, measured_eq, div_of_ne_zero x hr.ne', ok_bind, mul_eq,
    ofInt_eq]
  rfl

end Grid

/-! ### Specifications -/

/-- Every resolution of a device is positive. -/
structure Capabilities.Resolves (c : Capabilities Rat) : Prop where
  position : 0 < c.lattice.positionResolution
  time : 0 < c.global.timeResolution
  rabi : 0 < c.global.rabiResolution
  phase : 0 < c.global.phaseResolution
  detuning : 0 < c.global.detuningResolution
  localTime : 0 < c.local_.timeResolution

/-- Times moved to the nearest points of a grid, in the order they had. -/
def NearestTimes (r : Rat) (ts ts' : List Rat) : Prop :=
  Forall₂ (Nearest r) ts ts' ∧ (ts.Pairwise (· ≤ ·) → ts'.Pairwise (· ≤ ·))

theorem nearestTimes_gridPoint {r : Rat} (hr : 0 < r) (ts : List Rat) :
    NearestTimes r ts (ts.map (gridPoint r)) :=
  ⟨forall₂_map_right_iff.mpr (forall₂_same.mpr fun t _ => gridPoint_nearest hr t),
    fun h => h.map _ fun _ _ => gridPoint_mono hr⟩

/-- The second series is the first one, moved to the grid of a time and a value resolution. -/
def TimeSeries.Nearest (time value : Rat) (s s' : TimeSeries Rat) : Prop :=
  NearestTimes time s.times s'.times ∧ Forall₂ (AtomArray.Nearest value) s.values s'.values

/-- The second specification is the first one, moved to the grid of a device. -/
structure TaskSpec.Nearest (c : Capabilities Rat) (s s' : TaskSpec Rat) : Prop where
  shots : s'.shots = s.shots
  filling : s'.filling = s.filling
  sites : Forall₂ (fun p q => AtomArray.Nearest c.lattice.positionResolution p.1 q.1 ∧
    AtomArray.Nearest c.lattice.positionResolution p.2 q.2) s.sites s'.sites
  amplitude : s.amplitude.Nearest c.global.timeResolution c.global.rabiResolution s'.amplitude
  phase : s.phase.Nearest c.global.timeResolution c.global.phaseResolution s'.phase
  detuning : s.detuning.Nearest c.global.timeResolution c.global.detuningResolution s'.detuning
  localDetuning : Option.Rel (fun l l' => NearestTimes c.local_.timeResolution l.times l'.times ∧
    l'.values = l.values ∧ l'.coefficients = l.coefficients) s.localDetuning s'.localDetuning

def TimeSeries.onGrid (time value : Rat) (s : TimeSeries Rat) : TimeSeries Rat :=
  ⟨s.times.map (gridPoint time), s.values.map (gridPoint value)⟩

section Series

variable {time value : Rat} (ht : 0 < time) (hv : 0 < value) (s : TimeSeries Rat)

include ht hv

theorem TimeSeries.discretize_eq : s.discretize time value = .ok (s.onGrid time value) := by
  simp [discretize, onGrid, discretizeList_eq ht, discretizeList_eq hv]

theorem TimeSeries.onGrid_nearest : s.Nearest time value (s.onGrid time value) :=
  ⟨nearestTimes_gridPoint ht s.times, (nearestTimes_gridPoint hv s.values).1⟩

end Series

def LocalSeries.onGrid (time : Rat) (l : LocalSeries Rat) : LocalSeries Rat :=
  { l with times := l.times.map (gridPoint time) }

namespace TaskSpec

def onGrid (c : Capabilities Rat) (s : TaskSpec Rat) : TaskSpec Rat where
  shots := s.shots
  sites := s.sites.map (Prod.map (gridPoint c.lattice.positionResolution)
    (gridPoint c.lattice.positionResolution))
  filling := s.filling
  amplitude := s.amplitude.onGrid c.global.timeResolution c.global.rabiResolution
  phase := s.phase.onGrid c.global.timeResolution c.global.phaseResolution
  detuning := s.detuning.onGrid c.global.timeResolution c.global.detuningResolution
  localDetuning := s.localDetuning.map (LocalSeries.onGrid c.local_.timeResolution)

section

variable {c : Capabilities Rat} (hc : c.Resolves) (s : TaskSpec Rat)

include hc

theorem discretizeLocal_eq : s.discretizeLocal c = .ok (s.onGrid c).localDetuning := by
  cases h : s.localDetuning <;>
    simp [discretizeLocal, h, onGrid, LocalSeries.discretize, LocalSeries.onGrid,
      discretizeList_eq hc.localTime]

theorem discretize_eq : s.discretize c = .ok (s.onGrid c) := by
  refine bind_eq_ok.mpr ⟨(s.onGrid c).sites, mapM_eq_ok fun p _ => ?_, ?_⟩
  · simp only [discretizeList_eq hc.position, ok_bind]
    rfl
  · simp only [TimeSeries.discretize_eq hc.time hc.rabi, TimeSeries.discretize_eq hc.time hc.phase,
      TimeSeries.discretize_eq hc.time hc.detuning, discretizeLocal_eq hc s]
    rfl

theorem afterDiscretize_eq :
    s.afterDiscretize c = { s with localDetuning := (s.onGrid c).localDetuning } := by
  simp [afterDiscretize, discretizeList_eq hc.position, mapM_eq_ok fun _ _ => rfl,
    TimeSeries.discretize_eq hc.time hc.rabi, TimeSeries.discretize_eq hc.time hc.phase,
    discretizeLocal_eq hc s]

theorem onGrid_nearest : s.Nearest c (s.onGrid c) where
  shots := rfl
  filling := rfl
  sites := forall₂_map_right_iff.mpr (forall₂_same.mpr fun p _ =>
    ⟨gridPoint_nearest hc.position p.1, gridPoint_nearest hc.position p.2⟩)
  amplitude := s.amplitude.onGrid_nearest hc.time hc.rabi
  phase := s.phase.onGrid_nearest hc.time hc.phase
  detuning := s.detuning.onGrid_nearest hc.time hc.detuning
  localDetuning := by
    cases h : s.localDetuning <;> simp only [onGrid, h] <;> constructor
    exact ⟨nearestTimes_gridPoint hc.localTime _, rfl, rfl⟩

theorem onGrid_onGrid : (s.onGrid c).onGrid c = s.onGrid c := by
  cases h : s.localDetuning <;>
    simp [onGrid, TimeSeries.onGrid, LocalSeries.onGrid, h, Function.comp_def,
      gridPoint_gridPoint, hc.position, hc.time, hc.rabi, hc.phase, hc.detuning, hc.localTime]

end

/-- Every number of a specification goes to the nearest point of the grid of a device, times keep
their order, and the specification on the grid stays as it is. -/
theorem discretize_nearest (c : Capabilities Rat) (hc : c.Resolves) (s : TaskSpec Rat) :
    ∃ s', s.discretize c = .ok s' ∧ s.Nearest c s' ∧ s'.discretize c = .ok s' := by
  refine ⟨s.onGrid c, discretize_eq hc s, onGrid_nearest hc s, ?_⟩
  rw [discretize_eq hc, onGrid_onGrid hc]

end TaskSpec

theorem Capabilities.reported_pos {c : Nat} (hc : 0 < c) (e : Int) : 0 < (reported c e : Rat) := by
  show 0 < Decimal.toRat (.finite false c e)
  by_cases he : 0 ≤ e <;> simp only [Decimal.toRat, he, if_true, if_false]
  · simpa using hc
  · exact div_pos (Nat.cast_pos.mpr hc) (by simp)

theorem Capabilities.standard_resolves : (standard : Capabilities Rat).Resolves := by
  constructor <;> exact reported_pos (by decide) _

namespace TaskSpec

/-- A specification with numbers in the middle between points of the standard grid. -/
def halfway : TaskSpec Rat where
  shots := 1
  sites := [(0, 1 / 20000000)]
  filling := [1]
  amplitude := ⟨[0, 1 / 400000000], [200, 600]⟩
  phase := ⟨[], []⟩
  detuning := ⟨[], []⟩
  localDetuning := some ⟨[0, 3 / 2000000000], [0, 7], [1 / 3]⟩

theorem halfway_discretize_nearest :
    ∃ s', halfway.discretize .standard = .ok s' ∧ halfway.Nearest .standard s' ∧
      s'.discretize .standard = .ok s' :=
  halfway.discretize_nearest .standard Capabilities.standard_resolves

/-! ### The specification that was moved -/

/-- In every arithmetic, nothing but the times of the local series can change. -/
theorem afterDiscretize_frame {N : Type} [Arith N] (c : Capabilities N) (s : TaskSpec N) :
    ∃ l, s.afterDiscretize c = { s with localDetuning := l } ∧
      Option.Rel (fun l l' => l'.values = l.values ∧ l'.coefficients = l.coefficients)
        s.localDetuning l := by
  simp only [afterDiscretize]
  split
  · rename_i l hl
    refine ⟨l, rfl, ?_⟩
    obtain ⟨-, -, hl⟩ := bind_eq_ok.mp hl
    obtain ⟨-, -, -, -, hl⟩ := bind₂_eq_ok.mp hl
    cases h : s.localDetuning with
    | none =>
      obtain rfl : none = l := by simpa [discretizeLocal, h] using hl
      exact .none
    | some x =>
      obtain ⟨ts, -, rfl⟩ : ∃ ts, discretizeList c.local_.timeResolution x.times = .ok ts ∧
          some { x with times := ts } = l := by
        simpa [discretizeLocal, h, LocalSeries.discretize, bind_eq_ok] using hl
      exact .some ⟨rfl, rfl⟩
  · refine ⟨s.localDetuning, rfl, ?_⟩
    cases s.localDetuning with
    | none => exact .none
    | some x => exact .some ⟨rfl, rfl⟩

/-- A specification after it was moved to the grid of a device. In exact arithmetic it is as it was
exactly if its local times were on the grid, and a second device gets what it would have got at
first exactly if the way over the first grid does not show on the second one. -/
theorem afterDiscretize_eq_self_iff (a : Capabilities Rat) (ha : a.Resolves) (s : TaskSpec Rat) :
    (s.afterDiscretize a = s ↔ ∀ l ∈ s.localDetuning, ∀ t ∈ l.times,
      ∃ n : Int, t = n * a.local_.timeResolution) ∧
    (∀ b : Capabilities Rat, b.Resolves →
      ((s.afterDiscretize a).discretize b = s.discretize b ↔
        ∀ l ∈ s.localDetuning, ∀ t ∈ l.times,
          gridPoint b.local_.timeResolution (gridPoint a.local_.timeResolution t) =
            gridPoint b.local_.timeResolution t)) ∧
    ∀ {N : Type} [Arith N] (c : Capabilities N) (s : TaskSpec N),
      ∃ l, s.afterDiscretize c = { s with localDetuning := l } ∧
        Option.Rel (fun l l' => l'.values = l.values ∧ l'.coefficients = l.coefficients)
          s.localDetuning l := by
  rw [afterDiscretize_eq ha]
  refine ⟨?_, fun b hb => ?_, afterDiscretize_frame⟩
  · simp only [← gridPoint_eq_self_iff ha.localTime]
    obtain ⟨_, _, _, _, _, _, _ | ⟨ts, vs, cs⟩⟩ := s
    · simp [onGrid]
    · simpa [onGrid, LocalSeries.onGrid] using map_inj_left (l := ts) (g := id)
  · rw [discretize_eq hb, discretize_eq hb]
    obtain ⟨_, _, _, _, _, _, _ | l⟩ := s <;> simp [onGrid, LocalSeries.onGrid]

theorem halfway_second_device : (halfway.afterDiscretize .standard).discretize .standard =
    halfway.discretize .standard :=
  have h := Capabilities.standard_resolves
  ((halfway.afterDiscretize_eq_self_iff .standard h).2.1 .standard h).mpr
    fun _ _ t _ => gridPoint_gridPoint h.localTime t

theorem halfway_changed_in_place : halfway.afterDiscretize .standard =
    { halfway with localDetuning := some ⟨[0, 1 / 500000000], [0, 7], [1 / 3]⟩ } := by
  have htimes : [0, 3 / 2000000000].map (gridPoint Capabilities.standard.local_.timeResolution) =
      [0, 1 / 500000000] := by decide +kernel
  rw [afterDiscretize_eq Capabilities.standard_resolves, ← htimes]
  rfl

end TaskSpec

end AtomArray
