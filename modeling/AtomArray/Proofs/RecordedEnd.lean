import AtomArray.Proofs.LinearSeries
import AtomArray.Proofs.ScriptedBinding

/-!
Continuing a waveform from its recorded final value.

`Waveform.continued u x b d` records the final value of `u` under the name `x` and goes on from there
with a line; `PiecewiseLinear.ofRecorded` is its series. The recorded value is computed from the
slope of the last line, while the series of `u` ends at the value that the line was given. The two
are compared (`Waveform.ofRecorded_continued`) and need not be equal, since the slope is rounded.
-/

namespace AtomArray

open Outcome Arith Arith.StoresOnce

theorem getLast?_of_lastItem? {α : Type} {xs : List α} {x : α} (h : lastItem? xs = .ok x) :
    xs.getLast? = some x := by
  unfold lastItem? at h
  split at h
  · rename_i y hy
    rw [hy, Except.ok.inj h]
  · cases h

variable {N : Type} [Arith N] (m : Env N)

namespace Waveform

/-- A waveform whose final value is recorded, and after it a line that starts there. -/
def continued (u : Waveform N) (x : String) (b d : Decimal) : Waveform N :=
  .append [.record u x, .linear (.var x) (.const b) (.const d)]

def recordedValue (w : Waveform N) (name : String) : Outcome N := do
  match (← w.scanRecords m).lookup name with
  | some p => p.stored?
  | none => .error (.unassigned name)

end Waveform

namespace PiecewiseLinear

/-- The series of a waveform in which the recorded values are found and bound first. -/
def ofRecorded (w : Waveform N) : Outcome (PiecewiseLinear N) := do
  let found ← w.scanRecords m
  ofWaveform [] (← w.assign found)

/-- When a series ends that is continued for a further duration. -/
def endAfter (p : PiecewiseLinear N) (d : N) : Outcome N := do
  Arith.stored (← Arith.add d (← lastItem? p.times))

end PiecewiseLinear

namespace Waveform

open PiecewiseLinear (ofWaveform rules rules_stores ofRecorded checkContinuity)

variable {m found : Env N} {u : Waveform N} {x : String} {b d : Decimal}

theorem scanRecords_continued (u : Waveform N) (x : String) (b d : Decimal) :
    (u.continued x b d).scanRecords m = (do
      let env ← u.scanRecords m
      let v ← u.eval env (← u.length env)
      return env.insert x (.number v)) := by
  simp [continued, scanRecords, scanRecordsAll]

variable [Arith.StoresOnce N]

theorem ofWaveform_line {r : N} (hr : Arith.stored r = .ok r) :
    ofWaveform [] (.linear (.assigned x r) (.const b) (.const d)) =
      .ok ⟨[zero, Arith.ofDecimal d], [r, Arith.ofDecimal b]⟩ := by
  have hfresh : (rules.collect [] (.linear (.assigned x r) (.const b) (.const d))).fresh =
      .ok ⟨[zero, Arith.ofDecimal d], [r, Arith.ofDecimal b]⟩ := rfl
  rw [ofWaveform, SeriesRules.ofWaveform, ofCollected, hfresh]
  simp [Series.stored, hr, zero, stored_ofDecimal]

variable {p : PiecewiseLinear N}

/-- Joining a line is checking that it starts where the series ends, and appending it. -/
theorem joinAll_line {y r : N} (hr : Arith.stored r = .ok r)
    (hd : isDecimal 0 (Arith.ofDecimal d : N) = false) (hy : lastItem? p.values = .ok y) :
    rules.joinAll [] p [.linear (.assigned x r) (.const b) (.const d)] = checkContinuity y r >>= fun _ =>
        p.append ⟨[zero, Arith.ofDecimal d], [r, Arith.ofDecimal b]⟩ := by
  have hline := ofWaveform_line (x := x) (b := b) (d := d) hr
  have hlast : lastItem? [zero, (Arith.ofDecimal d : N)] = .ok (Arith.ofDecimal d) := rfl
  have hfirst : firstItem? [r, Arith.ofDecimal b] = .ok r := rfl
  rw [ofWaveform, SeriesRules.ofWaveform] at hline
  simp only [SeriesRules.joinAll, hline, hlast, hd, ok_bind, Bool.false_eq_true, if_false]
  simp only [rules, PiecewiseLinear.join, hfirst, hy, ok_bind, bind_assoc]
  exact bind_congr fun _ => bind_pure _

theorem ofWaveform_assign_continued (hm : m.Storable) (hu : Scripted m u)
    (hext : m.Extends found) {v : Param N} (hv : found.lookup x = some v) :
    ((u.continued x b d).assign found >>= ofWaveform []) =
      v.stored? >>= fun r => ofWaveform m u >>= fun p =>
        rules.joinAll [] p [.linear (.assigned x r) (.const b) (.const d)] := by
  have hrecord : Scripted m (.record u x) := .record hu
  obtain ⟨u', hu'⟩ := hrecord.exists_settled hm hext
  have hstart : Scalar.assign found (.var x) = v.stored? >>= fun r => .ok (.assigned x r) := by
    simp [Scalar.assign, Scalar.substitute, hv, Scalar.canon]
  rw [assign, continued, substitute, substituteAll, substituteAll, substituteAll,
    hu'.substituted, substitute, hstart]
  cases v.stored? with
  | error fault => rfl
  | ok r =>
    have hstack : Stacked (.append [u', .linear (.assigned x r) (.const b) (.const d)]) :=
      .join hu'.stacked (by simp [isPiece])
    obtain ⟨w', hw', hsame⟩ := hstack.exists_canon
    calc canon (.append [u', .linear (.assigned x r) (.const b) (.const d)]) >>= ofWaveform []
        = ofWaveform [] (.append [u', .linear (.assigned x r) (.const b) (.const d)]) := by
          rw [hw', ok_bind, hsame]
      _ = _ := by
          rw [ofWaveform, rules_stores.ofWaveform_append, SeriesRules.ofWaveform, hu'.collected,
            SeriesRules.collect]
          rfl

/-- **Continuing from a recorded value.** The series of the continuation is that of the waveform
with the line appended, if the recorded value passes for the end of the series. -/
theorem ofRecorded_continued {y : N} (hm : m.Storable) (hu : Scripted m u)
    (hfresh : ∀ name ∈ x :: u.recorded, m.has name = false)
    (hd : isDecimal 0 (Arith.ofDecimal d : N) = false) (hp : ofWaveform m u = .ok p)
    (hy : lastItem? p.values = .ok y) :
    ofRecorded m (u.continued x b d) =
      (u.continued x b d).recordedValue m x >>= fun r => checkContinuity y r >>= fun _ =>
        p.append ⟨[zero, Arith.ofDecimal d], [r, Arith.ofDecimal b]⟩ := by
  obtain hfresh := List.forall_mem_cons.mp hfresh
  rw [ofRecorded, recordedValue, scanRecords_continued]
  cases hinner : u.scanRecords m with
  | error fault => rfl
  | ok inner =>
    simp only [ok_bind, bind_assoc, pure_eq_ok]
    refine bind_congr fun e => bind_congr fun v => ?_
    have hext : m.Extends (inner.insert x (.number v)) :=
      (extends_scanRecords hfresh.2 hinner).insert hfresh.1
    have hx : (inner.insert x (.number v)).lookup x = some (.number v) := by
      rw [Env.lookup_insert, if_pos rfl]
    rw [ofWaveform_assign_continued hm hu hext hx]
    simp only [hx]
    cases hr : (Param.number v).stored? with
    | error fault => rfl
    | ok r =>
      simp only [ok_bind, hp]
      exact joinAll_line (stored_again hr) hd hy

theorem append_line {y r t : N} (hp : p.IsStored)
    (hy : lastItem? p.values = .ok y) (hsame : Arith.same y r)
    (ht : p.endAfter (Arith.ofDecimal d) = .ok t) :
    p.append ⟨[zero, Arith.ofDecimal d], [r, Arith.ofDecimal b]⟩ =
      .ok ⟨p.times ++ [t], p.values ++ [Arith.ofDecimal b]⟩ := by
  have hseam : p.seam ⟨[zero, Arith.ofDecimal d], [r, Arith.ofDecimal b]⟩ = .ok (y, r) := by
    rw [PiecewiseLinear.seam, getLast?_of_lastItem? hy]
    rfl
  obtain ⟨e, t', he, ht', hstored⟩ := bind₂_eq_ok.mp ht
  simp only [Series.IsStored, Series.stored, bind_eq_ok,
    return_eq_ok] at hp
  obtain ⟨times, htimes, values, hvalues, rfl⟩ := hp
  simp only at htimes hvalues he
  simp [PiecewiseLinear.append, hseam, hsame, he, ht', Series.stored, htimes, hvalues,
    hstored, stored_ofDecimal]

end Waveform

/-! ### In decimal arithmetic -/

theorem Decimal.sameValue_zero_of_pos {d : Decimal} (h : Decimal.lt .zero d = .ok true) :
    d.sameValue 0 = false := by
  cases d with
  | nan => cases h
  | infinite s => cases s <;> rfl
  | finite s c e =>
    by_cases hc : c = 0
    · subst hc
      cases h
    · cases s <;> simp [sameValue, compare?, hc, OfNat.ofNat]

namespace PiecewiseLinear

theorem checkContinuity_eq_ok {a b : N} : checkContinuity a b = .ok () ↔ Arith.same a b := by
  rw [checkContinuity]
  cases Arith.same a b with
  | true => exact ⟨fun _ => rfl, fun _ => rfl⟩
  | false => simp [bind_eq_ok]

theorem checkContinuity_jump {a b gap : N} (h : Arith.same a b = false)
    (hgap : (do Arith.abs (← sub a b)) = .ok gap) :
    checkContinuity a b = .error (.jump (text gap)) := by
  obtain ⟨difference, hsub, habs⟩ := bind_eq_ok.mp hgap
  simp [checkContinuity, h, hsub, habs]

end PiecewiseLinear

namespace Waveform

open PiecewiseLinear

/-- **A line continues a waveform from the recorded value** exactly when that is the value at which
the compiled waveform ends. Otherwise the jump between the two is reported. -/
theorem continued_accepted_iff {m : Env Quantity} {u : Waveform Quantity} {x : String}
    {b d : Decimal} {p : PiecewiseLinear Quantity} {y t : Quantity} (hm : m.Storable)
    (hu : Scripted m u) (hfresh : ∀ name ∈ x :: u.recorded, m.has name = false)
    (hd : Decimal.lt .zero d = .ok true) (hp : ofWaveform m u = .ok p)
    (hy : lastItem? p.values = .ok y) (ht : p.endAfter (.decimal d) = .ok t) :
    (∀ q, ofRecorded m (u.continued x b d) = .ok q ↔
      q = ⟨p.times ++ [t], p.values ++ [.decimal b]⟩ ∧
        ∃ r, (u.continued x b d).recordedValue m x = .ok r ∧ Arith.same y r = true) ∧
    ∀ r gap, (u.continued x b d).recordedValue m x = .ok r → Arith.same y r = false →
      (do Arith.abs (← Arith.sub y r)) = .ok gap →
      ofRecorded m (u.continued x b d) = .error (.jump (Arith.text gap)) := by
  have hline : Arith.isDecimal 0 (Arith.ofDecimal d : Quantity) = false :=
    Decimal.sameValue_zero_of_pos hd
  rw [ofRecorded_continued hm hu hfresh hline hp hy]
  refine ⟨fun q => ⟨fun h => ?_, ?_⟩, fun r gap hr hne hgap => ?_⟩
  · obtain ⟨r, _, hr, hcheck, h⟩ := Outcome.bind₂_eq_ok.mp h
    have hsame := checkContinuity_eq_ok.mp hcheck
    rw [append_line (SeriesRules.isStored_of_ofWaveform hp) hy hsame ht] at h
    exact ⟨(Except.ok.inj h).symm, r, hr, hsame⟩
  · rintro ⟨rfl, r, hr, hsame⟩
    rw [hr, Outcome.ok_bind, checkContinuity_eq_ok.mpr hsame, Outcome.ok_bind,
      append_line (SeriesRules.isStored_of_ofWaveform hp) hy hsame ht]
    rfl
  · rw [hr, Outcome.ok_bind, checkContinuity_jump hne hgap, Outcome.error_bind]

/-- A ramp to one more than a parameter, recorded at its end, and a hold there. -/
def rampAndHold : Waveform Quantity :=
  .append [.record (.linear (.const 0) (.add (.var "a") (.const 1)) (.const 4)) "k",
    .scale (.const 2) (.constant (.const 1) (.const 1))]

theorem storable_one : Env.Storable [("a", .number (Quantity.decimal 1))] := by
  intro p hp
  obtain rfl := List.mem_singleton.mp hp
  exact fun y hy => hy

theorem scripted_rampAndHold : rampAndHold.Scripted [("a", .number (.decimal 1))] := by
  have hconst : ∀ d, (Scalar.const d : Scalar Quantity).Supplied [("a", .number (.decimal 1))] :=
    fun d => ⟨_, .lit _⟩
  have hsum : Scalar.Kept [("a", .number (Quantity.decimal 1))] (.add (.var "a") (.const 1)) :=
    ⟨by decide, _, rfl, by with_unfolding_all rfl⟩
  have hvalue := fun d => (hconst d).kept storable_one
  refine .append (.record (.linear (hvalue 0) hsum (hconst 4))) ?_ (by simp [isJoin])
  simpa using Scripted.scale (hvalue 2) (.constant (hvalue 1) (hconst 1))

theorem rampAndHold_continued :
    ofRecorded [("a", .number (.decimal 1))] (rampAndHold.continued "x" 0 1) =
      .ok ⟨[.decimal 0, .decimal 4, .decimal 5, .decimal 6],
        [.decimal 0, .decimal 2, .decimal 2, .decimal 0]⟩ := by
  have hp : ofWaveform [("a", .number (.decimal 1))] rampAndHold =
      .ok ⟨[.decimal 0, .decimal 4, .decimal 5], [.decimal 0, .decimal 2, .decimal 2]⟩ := by
    with_unfolding_all rfl
  have hfresh : ∀ name ∈ "x" :: rampAndHold.recorded,
      Env.has [("a", Param.number (Quantity.decimal 1))] name = false := by
    decide
  refine ((continued_accepted_iff storable_one scripted_rampAndHold hfresh rfl hp rfl rfl).1 _).mpr ⟨rfl, ?_⟩
  exact ⟨.decimal (.finite false 2 0), by with_unfolding_all rfl, by with_unfolding_all rfl⟩

def rampOfThree : Waveform Quantity := .linear (.const 0) (.const 1) (.const 3)

/-- A third of one, taken three times, is less than one: the value recorded at the end of the ramp is
not the one at which its series ends, and a line from there is refused. -/
theorem rampOfThree_jumps :
    ofWaveform [] rampOfThree = .ok ⟨[.decimal 0, .decimal 3], [.decimal 0, .decimal 1]⟩ ∧
      (rampOfThree.continued "x" 0 1).recordedValue [] "x" =
        .ok (.decimal (.finite false 9999999999999999999999999999 (-28))) ∧
      ofRecorded [] (rampOfThree.continued "x" 0 1) = .error (.jump "1E-28") := by
  refine ⟨?_, ?_, ?_⟩ <;> with_unfolding_all rfl

end Waveform

end AtomArray
