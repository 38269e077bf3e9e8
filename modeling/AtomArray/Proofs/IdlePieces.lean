import AtomArray.Proofs.ConstantSeries
import AtomArray.Proofs.LinearSeries
import AtomArray.Proofs.StackedJoins

/-!
Pieces of a join that take no time.

A join passes over a further piece whose series ends at zero (`joinAll_pass`), but the series of its
first piece is taken as it is, and stays in front of all others (`joinAll_times`). So a constant
that takes no time can be put anywhere in a join but in front (`idle_piece_neutral_iff`).
-/

namespace AtomArray

open List Outcome Collect Exact

variable {env : Env Rat} {z : Waveform Rat} {v d : Scalar Rat} {x : Rat}
  {ws ws' : List (Waveform Rat)}

namespace SeriesRules

variable {k : SeriesRules Rat} {p q : Series Rat}

theorem joinAll_pass (hz : k.ofWaveform env z = .ok q) (hq : lastItem? q.times = .ok 0) :
    k.joinAll env p (ws ++ z :: ws') = k.joinAll env p (ws ++ ws') := by
  rw [ofWaveform] at hz
  induction ws generalizing p with
  | nil => simp [joinAll, hz, hq]
  | cons w ws ih => simp [joinAll, ih]

theorem joinAll_times (hk : ∀ {p q r}, k.join p q = .ok r → p.times <+: r.times)
    (h : k.joinAll env p ws = .ok q) : p.times <+: q.times := by
  induction ws generalizing p with
  | nil =>
    obtain rfl : p = q := by simpa [joinAll] using h
    exact prefix_rfl
  | cons w ws ih =>
    simp only [joinAll, bind_eq_ok] at h
    obtain ⟨_, -, _, -, h⟩ := h
    split at h
    · exact ih h
    · obtain ⟨r, hr, h⟩ := bind_eq_ok.mp h
      exact (hk hr).trans (ih h)

theorem Sound.idle_piece_iff (hk : k.Sound) (hstores : k.Stores)
    (htimes : ∀ {p q r}, k.join p q = .ok r → p.times <+: r.times)
    (hextend : (k.extend none x x 0).run {} = .ok () ⟨[0, 0], [x, x]⟩) (hd : d.eval env = .ok 0)
    (hv : v.eval env = .ok x) (hws : ws = [] → ∀ w ∈ ws', w.Timed env)
    (hp : k.ofWaveform env (.append (ws ++ ws')) = .ok p) :
    k.ofWaveform env (.append (ws ++ .constant v d :: ws')) = .ok p ↔ ws ≠ [] := by
  have hz : k.ofWaveform env (.constant v d) = .ok ⟨[0, 0], [x, x]⟩ := by
    simp only [ofWaveform, ofCollected_eq_ok, collect, run_lift_bind_eq_ok, hd, hv, Except.ok.injEq,
      exists_eq_left', hextend]
  cases ws with
  | nil =>
    refine iff_of_false (fun h => ?_) (by simp)
    have hne : ws' ≠ [] := by
      rintro rfl
      cases hp
    obtain ⟨_, _, _, -, ht, -, rfl⟩ := hk.realizes (.append hne (hws rfl)) hp
    rw [nil_append, hstores.ofWaveform_append, hz, ok_bind] at h
    obtain ⟨ts, hts⟩ := joinAll_times htimes h
    have hsorted := ht.sorted
    rw [← Series.times_ofPoints, ← hts] at hsorted
    simp at hsorted
  | cons w ws =>
    refine iff_of_true ?_ (by simp)
    rw [cons_append, hstores.ofWaveform_append] at hp ⊢
    simpa only [joinAll_pass hz rfl] using hp

end SeriesRules

theorem PiecewiseLinear.times_join {p q r : PiecewiseLinear Rat} (h : join p q = .ok r) :
    p.times <+: r.times := by
  simp only [join, append, bind_eq_ok, throw_eq_error, error_bind, refuse_eq_ok,
    Series.stored_eq_ok] at h
  obtain ⟨_, -, _, -, _, -, _, -, _, _, -, h⟩ := h
  cases h
  exact prefix_append _ _

namespace PiecewiseConstant

theorem rules_stores : (rules : SeriesRules Rat).Stores := fun _ => by simp [Series.IsStored]

theorem times_append {p q r : PiecewiseConstant Rat} (h : append p q = .ok r) :
    p.times <+: r.times := by
  simp only [append, bind_eq_ok, Series.stored_eq_ok] at h
  obtain ⟨_, -, h⟩ := h
  cases h
  exact prefix_append _ _

end PiecewiseConstant

/-- **A constant that takes no time is neutral in a join, but not in front.** Behind the first piece
it leaves the series as it is, whatever the pieces are; in front of pieces that take time it changes
the series. This holds of both kinds of series. -/
theorem idle_piece_neutral_iff (hd : d.eval env = .ok 0) (hv : v.eval env = .ok x)
    (hws : ws = [] → ∀ w ∈ ws', w.Timed env) :
    (∀ p, PiecewiseLinear.ofWaveform env (.append (ws ++ ws')) = .ok p →
      (PiecewiseLinear.ofWaveform env (.append (ws ++ .constant v d :: ws')) = .ok p ↔ ws ≠ [])) ∧
    ∀ p, PiecewiseConstant.ofWaveform env (.append (ws ++ ws')) = .ok p →
      (PiecewiseConstant.ofWaveform env (.append (ws ++ .constant v d :: ws')) = .ok p ↔ ws ≠ []) :=
  ⟨fun _ => PiecewiseLinear.rules_sound.idle_piece_iff PiecewiseLinear.rules_stores
      PiecewiseLinear.times_join rfl hd hv hws,
    fun _ => PiecewiseConstant.rules_sound.idle_piece_iff PiecewiseConstant.rules_stores
      PiecewiseConstant.times_append rfl hd hv hws⟩

/-- A constant of another value, which takes the time that a parameter is bound to, between two. -/
theorem scanned_piece_neutral :
    let one : Waveform Rat := .constant (.lit 1) (.lit 1)
    let idle : Waveform Rat := .constant (.lit 7) (.var "t")
    (PiecewiseLinear.ofWaveform [("t", .number 0)] (.append [one, idle, one])) =
        .ok ⟨[0, 1, 2], [1, 1, 1]⟩ ∧
      (PiecewiseConstant.ofWaveform [("t", .number 0)] (.append [one, idle, one])) =
        .ok ⟨[0, 1, 2], [1, 1, 1]⟩ := by
  intro one idle
  obtain ⟨hlinear, hconstant⟩ := @idle_piece_neutral_iff [("t", .number 0)] (.lit 7) (.var "t") 7
    [one] [one] rfl rfl (by simp)
  exact ⟨(hlinear _ (by with_unfolding_all rfl)).mpr (by simp),
    (hconstant _ (by with_unfolding_all rfl)).mpr (by simp)⟩

/-- In front of a constant of the same value, one that takes no time adds a point. -/
theorem idle_first_piece_stays :
    let one : Waveform Quantity := .constant (.const 1) (.const 1)
    let idle : Waveform Quantity := .constant (.const 1) (.const 0)
    PiecewiseLinear.ofWaveform [] (.append [one]) =
        .ok ⟨[.decimal 0, .decimal 1], [.decimal 1, .decimal 1]⟩ ∧
      PiecewiseLinear.ofWaveform [] (.append [idle, one]) =
        .ok ⟨[.decimal 0, .decimal 0, .decimal 1], [.decimal 1, .decimal 1, .decimal 1]⟩ ∧
      PiecewiseConstant.ofWaveform [] (.append [idle, one]) =
        .ok ⟨[.decimal 0, .decimal 0, .decimal 1], [.decimal 1, .decimal 1, .decimal 1]⟩ := by
  with_unfolding_all exact ⟨rfl, rfl, rfl⟩

end AtomArray
