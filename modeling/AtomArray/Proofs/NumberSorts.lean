import AtomArray.Proofs.Exact
import AtomArray.Waveform.Eval
import Mathlib.Tactic.Ring

/-!
Which waveforms can be evaluated, and what their values are.

`Waveform.valueAt` composes the value of a waveform from those of its parts, in rational numbers.
Evaluation meets two sorts of numbers, however, which do not combine: a sum and a recorded waveform
have binary values, and a factor is a decimal. Where the value has a sort (`Waveform.sortAt`)
evaluation gives both, and only there (`Waveform.eval_composes`).
-/

namespace AtomArray

open List Outcome ExactQuantity Arith

namespace ExactQuantity

variable {k : NumberSort} {x y : Rat}

@[simp] theorem add_eq : Arith.add (⟨k, x⟩ : ExactQuantity) ⟨k, y⟩ = .ok ⟨k, x + y⟩ := by
  simp [Arith.add, combine, Except.map]

@[simp] theorem sub_eq : sub (⟨k, x⟩ : ExactQuantity) ⟨k, y⟩ = .ok ⟨k, x - y⟩ := by
  simp [sub, combine, Except.map]

@[simp] theorem mul_eq : mul (⟨k, x⟩ : ExactQuantity) ⟨k, y⟩ = .ok ⟨k, x * y⟩ := by
  simp [mul, combine, Except.map]

theorem div_eq (hy : y ≠ 0) : div (⟨k, x⟩ : ExactQuantity) ⟨k, y⟩ = .ok ⟨k, x / y⟩ := by
  simp [div, combine, hy, Except.map]

@[simp] theorem neg_eq : Arith.neg (⟨k, x⟩ : ExactQuantity) = .ok ⟨k, -x⟩ := rfl

variable (a b : ExactQuantity)

@[simp] theorem gt_eq : gt a b = .ok (decide (b.value < a.value)) := rfl

@[simp] theorem lt_eq : Arith.lt a b = .ok (decide (a.value < b.value)) := rfl

@[simp] theorem le_eq : Arith.le a b = .ok (decide (a.value ≤ b.value)) := rfl

@[simp] theorem zero_eq : (zero : ExactQuantity) = ⟨.decimal, 0⟩ :=
  congrArg (mk .decimal) Exact.zero_eq

@[simp] theorem one_eq : (one : ExactQuantity) = ⟨.decimal, 1⟩ :=
  congrArg (mk .decimal) Exact.one_eq

@[simp] theorem decimal_eq (a : ExactQuantity) : decimal a = ⟨.decimal, a.value⟩ := rfl

@[simp] theorem measured_eq (a : ExactQuantity) : measured a = ⟨.binary, a.value⟩ := rfl

theorem sort_of_sub {a b c : ExactQuantity} (h : sub a b = .ok c) : b.sort = c.sort := by
  by_cases hsort : a.sort = b.sort
  · have hc : c = ⟨a.sort, a.value - b.value⟩ := by
      simpa [sub, combine, hsort, Except.map, eq_comm] using h
    rw [hc, hsort]
  · simp [sub, combine, hsort] at h

/-- The number that a computation gives; zero if it gives none. -/
def reading : Outcome ExactQuantity → Rat
  | .ok q => q.value
  | .error _ => 0

def GivesDecimal (r : Outcome ExactQuantity) : Prop := ∃ x, r = .ok ⟨.decimal, x⟩

theorem GivesDecimal.eq_ok {r : Outcome ExactQuantity} (h : GivesDecimal r) :
    r = .ok ⟨.decimal, reading r⟩ := by
  obtain ⟨x, rfl⟩ := h
  rfl

/-- The outcome for a value with its sort; without a sort, numbers that do not combine are met. -/
def answer : Option NumberSort → Rat → Outcome ExactQuantity
  | some k, x => .ok ⟨k, x⟩
  | none, _ => .error .type

end ExactQuantity

open ExactQuantity (reading GivesDecimal answer)

/-! ### What a waveform is composed to -/

/-- The sort found is there, and it is the decimal one if decimals only are promised. -/
def NumberSort.Keeps (promised : NumberSort) (found : Option NumberSort) : Prop :=
  ∃ k, found = some k ∧ (promised = .decimal → k = .decimal)

def polynomialAt (env : Env ExactQuantity) (t : Rat) : List (Scalar ExactQuantity) → Rat
  | [] => 0
  | c :: cs => reading (c.eval env) + t * polynomialAt env t cs

def Scalar.ofRat (x : Rat) : Scalar ExactQuantity := .lit ⟨.decimal, x⟩

theorem Scalar.givesDecimal_ofRat {env : Env ExactQuantity} (x : Rat) :
    GivesDecimal ((ofRat x).eval env) := by
  refine ⟨x, ?_⟩
  rw [ofRat, eval]

def Interval.startIn (env : Env ExactQuantity) (i : Interval ExactQuantity) : Rat :=
  match i.start with
  | some e => reading (e.eval env)
  | none => 0

namespace Waveform

variable (env : Env ExactQuantity)

mutual

/-- The value of a waveform at a time, composed of those of its parts. -/
def valueAt : Waveform ExactQuantity → Rat → Rat
  | linear start stop d, t =>
    let a := reading (start.eval env)
    let b := reading (stop.eval env)
    let d := reading (d.eval env)
    if d < t then 0 else (b - a) / d * t + a
  | constant value d, t => if reading (d.eval env) < t then 0 else reading (value.eval env)
  | poly coeffs d, t => if reading (d.eval env) < t then 0 else polynomialAt env t coeffs
  | slice w i, t =>
    if reading ((slice w i).length env) < t then 0 else valueAt w (t + i.startIn env)
  | append ws, t => valueInPieces ws t
  | neg w, t => -valueAt w t
  | scale s w, t => reading (s.eval env) * valueAt w t
  | add a b, t => valueAt a t + valueAt b t
  | record w _, t => valueAt w t
  | _, _ => 0

/-- The value of the piece that a time falls into, the time counted from its beginning. -/
def valueInPieces : List (Waveform ExactQuantity) → Rat → Rat
  | [], _ => 0
  | w :: ws, t =>
    let d := reading (w.length env)
    if t ≤ d then valueAt w t else valueInPieces ws (t - d)

end

mutual

/-- The sort of the value at a time. There is none if a binary value is to be scaled. -/
def sortAt : Waveform ExactQuantity → Rat → Option NumberSort
  | linear .., _ => some .decimal
  | constant .., _ => some .decimal
  | poly .., _ => some .decimal
  | slice w i, t =>
    if reading ((slice w i).length env) < t then some .decimal else sortAt w (t + i.startIn env)
  | append ws, t => sortInPieces ws t
  | neg w, t => sortAt w t
  | scale _ w, t =>
    match sortAt w t with
    | some .decimal => some .decimal
    | _ => none
  | add a b, t =>
    match sortAt a t, sortAt b t with
    | some _, some _ => some .binary
    | _, _ => none
  | record w _, t => (sortAt w t).map fun _ => .binary
  | _, _ => none

/-- The sort of the value of the piece that a time falls into. -/
def sortInPieces : List (Waveform ExactQuantity) → Rat → Option NumberSort
  | [], _ => some .decimal
  | w :: ws, t =>
    let d := reading (w.length env)
    if t ≤ d then sortAt w t else sortInPieces ws (t - d)

end

/-- Waveforms of lines, constants and polynomials that are joined, cut, negated, scaled, added and
recorded, in which the scalars and the durations that matter are decimals and no line is without
duration. -/
inductive Determined : Waveform ExactQuantity → Prop where
  | linear {a b d : Scalar ExactQuantity} : GivesDecimal (a.eval env) →
      GivesDecimal (b.eval env) → GivesDecimal (d.eval env) → reading (d.eval env) ≠ 0 →
      Determined (.linear a b d)
  | constant {v d : Scalar ExactQuantity} : GivesDecimal (v.eval env) →
      GivesDecimal (d.eval env) → Determined (.constant v d)
  | poly {cs : List (Scalar ExactQuantity)} {d : Scalar ExactQuantity} :
      (∀ c ∈ cs, GivesDecimal (c.eval env)) → GivesDecimal (d.eval env) → Determined (.poly cs d)
  | slice {w : Waveform ExactQuantity} {i : Interval ExactQuantity} : Determined w →
      GivesDecimal ((Waveform.slice w i).length env) → Determined (.slice w i)
  | append {ws : List (Waveform ExactQuantity)} : (∀ w ∈ ws, Determined w) →
      (∀ w ∈ ws, GivesDecimal (w.length env)) → Determined (.append ws)
  | neg {w : Waveform ExactQuantity} : Determined w → Determined (.neg w)
  | scale {s : Scalar ExactQuantity} {w : Waveform ExactQuantity} : GivesDecimal (s.eval env) →
      Determined w → Determined (.scale s w)
  | add {a b : Waveform ExactQuantity} : Determined a → Determined b → Determined (.add a b)
  | record {w : Waveform ExactQuantity} {name : String} : Determined w →
      Determined (.record w name)

/-! ### Evaluation -/

variable {env}

theorem polyValue_determined {cs : List (Scalar ExactQuantity)} {t acc power : Rat}
    (hcs : ∀ c ∈ cs, GivesDecimal (c.eval env)) :
    polyValue env ⟨.decimal, t⟩ ⟨.decimal, acc⟩ ⟨.decimal, power⟩ cs =
      .ok ⟨.decimal, acc + power * polynomialAt env t cs⟩ := by
  induction cs generalizing acc power with
  | nil => simp [polyValue, polynomialAt]
  | cons c cs ih =>
    obtain ⟨hc, hcs⟩ := forall_mem_cons.mp hcs
    rw [polyValue, hc.eq_ok]
    simp only [ok_bind, mul_eq, add_eq, ih hcs, polynomialAt]
    congr 2
    ring

theorem sort_cutLength {whole len : ExactQuantity} {start stop : Option ExactQuantity}
    (h : cutLength whole start stop = .ok len) : (start.getD zero).sort = len.sort := by
  simp only [cutLength, lt_eq, ok_bind, decide_eq_true_eq,
    throw_eq_error, error_bind, refuse_eq_ok, bind_eq_ok,
    return_eq_ok] at h
  obtain ⟨-, -, _, hsub, -, rfl⟩ := h
  exact sort_of_sub hsub

variable {i : Interval ExactQuantity}

theorem value_start {start : Option ExactQuantity} (h : Scalar.evalBound env i.start = .ok start) :
    (start.getD zero).value = i.startIn env := by
  unfold Interval.startIn
  cases hi : i.start with
  | none =>
    obtain rfl : none = start := by simpa [hi, Scalar.evalBound] using h
    simp
  | some e =>
    rw [hi, Scalar.evalBound] at h
    obtain ⟨x, hx, h⟩ := bind_eq_ok.mp h
    obtain rfl : some x = start := Except.ok.inj h
    simp [hx, reading]

variable {w : Waveform ExactQuantity}

/-- A cut that has a length has a beginning of the same sort. -/
theorem evalBound_start (h : GivesDecimal ((slice w i).length env)) :
    ∃ start, Scalar.evalBound env i.start = .ok start ∧
      start.getD zero = ⟨.decimal, i.startIn env⟩ := by
  obtain ⟨len, h⟩ := h
  simp only [length, duration, throw_eq_error, error_bind,
    bind_eq_ok, refuse_eq_ok, return_eq_ok] at h
  obtain ⟨_, ⟨-, _, -, rfl⟩, h⟩ := h
  simp only [Scalar.eval, bind_eq_ok] at h
  obtain ⟨_, -, start, hstart, _, -, hcut⟩ := h
  refine ⟨start, hstart, ?_⟩
  calc start.getD zero
      = ⟨(start.getD zero).sort, (start.getD zero).value⟩ := rfl
    _ = ⟨.decimal, i.startIn env⟩ := by rw [sort_cutLength hcut, value_start hstart]

variable {ws : List (Waveform ExactQuantity)}

/-- Joined pieces, of which the first begins at `start`, `t` after that. -/
theorem evalPieces_determined {start t : Rat} (hlengths : ∀ w ∈ ws, GivesDecimal (w.length env))
    (heval : ∀ w ∈ ws, ∀ s, eval env w ⟨.decimal, s⟩ = answer (sortAt env w s) (valueAt env w s)) :
    evalPieces env ws ⟨.decimal, start⟩ ⟨.decimal, start + t⟩ =
      answer (sortInPieces env ws t) (valueInPieces env ws t) := by
  induction ws generalizing start t with
  | nil => simp [evalPieces, sortInPieces, valueInPieces, answer]
  | cons w ws ih =>
    obtain ⟨hd, hlengths⟩ := forall_mem_cons.mp hlengths
    obtain ⟨hw, heval⟩ := forall_mem_cons.mp heval
    rw [evalPieces, hd.eq_ok, sortInPieces, valueInPieces]
    simp only [ok_bind, add_eq, le_eq, add_le_add_iff_left,
      decide_eq_true_eq]
    -- The code compares with the clock time at which the piece ends, the composed value with its
    -- length: the clock `start` is on both sides of the first comparison.
    by_cases ht : t ≤ reading (w.length env)
    · rw [if_pos ht, if_pos ht, if_pos ht, sub_eq, ok_bind, add_sub_cancel_left, hw]
    · have hrest : start + t =
          start + reading (w.length env) + (t - reading (w.length env)) := by ring
      rw [if_neg ht, if_neg ht, if_neg ht, hrest, ih hlengths heval]

theorem measuredAt_answer {t : Rat} {k : Option NumberSort} {x : Rat}
    (h : eval env w ⟨.decimal, t⟩ = answer k x) :
    measuredAt (eval env w) ⟨.decimal, t⟩ = answer (k.map fun _ => .binary) x := by
  rw [measuredAt, decimal_eq, h]
  cases k <;> rfl

/-- Evaluation gives the composed value with its sort, or meets numbers that do not combine. -/
theorem Determined.eval_answers (hw : Determined env w) (t : Rat) :
    eval env w ⟨.decimal, t⟩ = answer (sortAt env w t) (valueAt env w t) := by
  induction hw generalizing t with
  | linear ha hb hd hne =>
    rw [eval, ha.eq_ok, hb.eq_ok, hd.eq_ok, sortAt, valueAt]
    simp only [ok_bind, gt_eq, decide_eq_true_eq]
    split
    · simp [answer]
    · simp [answer, div_eq hne]
  | constant hv hd =>
    rw [eval, hv.eq_ok, hd.eq_ok, sortAt, valueAt]
    simp only [ok_bind, gt_eq, decide_eq_true_eq]
    split <;> simp [answer]
  | poly hcs hd =>
    rw [eval, hd.eq_ok, sortAt, valueAt]
    simp only [ok_bind, gt_eq, decide_eq_true_eq]
    split
    · simp [answer]
    · simp [answer, polyValue_determined hcs]
  | slice _ hd ih =>
    obtain ⟨start, hstart, hzero⟩ := evalBound_start hd
    rw [eval, hd.eq_ok, sortAt, valueAt, hstart]
    simp only [ok_bind, gt_eq, decide_eq_true_eq]
    split
    · simp [answer]
    · rw [hzero, add_eq, ok_bind, ih]
  | append _ hlengths ih =>
    rw [eval, sortAt, valueAt, ← evalPieces_determined hlengths ih, zero_eq, zero_add]
  | @neg w _ ih =>
    rw [eval, ih, sortAt, valueAt]
    cases sortAt env w t <;> rfl
  | @scale s w hs _ ih =>
    rw [eval, hs.eq_ok, ih, sortAt, valueAt]
    rcases sortAt env w t with _ | _ | _
    · rfl
    · simp [answer]
    -- the factor is a decimal and the value is not
    · rfl
  | @add a b _ _ iha ihb =>
    -- both values are measured before they are added, so that sums never meet two sorts
    rw [eval, measuredAt_answer (iha t), measuredAt_answer (ihb t), sortAt, valueAt]
    cases sortAt env a t with
    | none => rfl
    | some j =>
      cases sortAt env b t with
      | none => rfl
      | some k => simp [answer]
  | record _ ih => rw [eval, measuredAt_answer (ih t), sortAt, valueAt]

/-! ### Sorts without evaluation -/

/-- A waveform whose values at all times have a sort: decimals only, or numbers of either sort. A
scaled waveform has to have decimals only. -/
inductive HasSort {N : Type} : Waveform N → NumberSort → Prop where
  | linear {a b d : Scalar N} : HasSort (.linear a b d) .decimal
  | constant {v d : Scalar N} : HasSort (.constant v d) .decimal
  | poly {cs : List (Scalar N)} {d : Scalar N} : HasSort (.poly cs d) .decimal
  | slice {w : Waveform N} {i : Interval N} {k : NumberSort} :
      HasSort w k → HasSort (.slice w i) k
  | append {ws : List (Waveform N)} {k : NumberSort} :
      (∀ w ∈ ws, HasSort w k) → HasSort (.append ws) k
  | neg {w : Waveform N} {k : NumberSort} : HasSort w k → HasSort (.neg w) k
  | scale {s : Scalar N} {w : Waveform N} : HasSort w .decimal → HasSort (.scale s w) .decimal
  | add {a b : Waveform N} {j k : NumberSort} :
      HasSort a j → HasSort b k → HasSort (.add a b) .binary
  | record {w : Waveform N} {name : String} {k : NumberSort} :
      HasSort w k → HasSort (.record w name) .binary
  | either {w : Waveform N} : HasSort w .decimal → HasSort w .binary

variable {k : NumberSort}

theorem keeps_sortInPieces (h : ∀ w ∈ ws, ∀ t, k.Keeps (sortAt env w t))
    (t : Rat) : k.Keeps (sortInPieces env ws t) := by
  induction ws generalizing t with
  | nil => exact ⟨.decimal, by rw [sortInPieces], fun _ => rfl⟩
  | cons w ws ih =>
    obtain ⟨hw, hws⟩ := forall_mem_cons.mp h
    rw [sortInPieces]
    by_cases ht : t ≤ reading (w.length env)
    · simpa [ht] using hw t
    · simpa [ht] using ih hws _

theorem HasSort.keeps_sortAt (hw : HasSort w k) (t : Rat) : k.Keeps (sortAt env w t) := by
  induction hw generalizing t with
  | linear | constant | poly => exact ⟨.decimal, by rw [sortAt], fun _ => rfl⟩
  | @slice w i k _ ih =>
    rw [sortAt]
    by_cases ht : reading ((Waveform.slice w i).length env) < t
    · exact ⟨.decimal, if_pos ht, fun _ => rfl⟩
    · simpa [ht] using ih _
  | append _ ih =>
    rw [sortAt]
    exact keeps_sortInPieces ih t
  | neg _ ih =>
    rw [sortAt]
    exact ih t
  | scale _ ih =>
    obtain ⟨j, hj, hdecimal⟩ := ih t
    obtain rfl := hdecimal rfl
    exact ⟨.decimal, by rw [sortAt, hj], fun _ => rfl⟩
  | add _ _ iha ihb =>
    obtain ⟨j, hj, -⟩ := iha t
    obtain ⟨k, hk, -⟩ := ihb t
    exact ⟨.binary, by rw [sortAt, hj, hk], NumberSort.noConfusion⟩
  | record _ ih =>
    obtain ⟨j, hj, -⟩ := ih t
    exact ⟨.binary, by rw [sortAt, hj]; rfl, NumberSort.noConfusion⟩
  | either _ ih =>
    obtain ⟨j, hj, -⟩ := ih t
    exact ⟨j, hj, NumberSort.noConfusion⟩

/-- At every time evaluation gives the composed value with its sort, or meets numbers that do not
combine if there is no sort. It never does so if the waveform keeps to the rules for sorts. -/
theorem eval_composes {w : Waveform ExactQuantity} (hw : Determined env w) (t : Rat) :
    eval env w ⟨.decimal, t⟩ = answer (sortAt env w t) (valueAt env w t) ∧
      ∀ k, HasSort w k → ∃ j, eval env w ⟨.decimal, t⟩ = .ok ⟨j, valueAt env w t⟩ := by
  have heval := hw.eval_answers t
  refine ⟨heval, ?_⟩
  intro k hk
  obtain ⟨j, hj, -⟩ := hk.keeps_sortAt t
  exact ⟨j, by rw [heval, hj, answer]⟩

open Scalar (ofRat givesDecimal_ofRat)

/-- A ramp on a plateau, recorded. -/
def recordedSum : Waveform ExactQuantity :=
  .record (.add (.constant (ofRat 1) (ofRat 1)) (.linear (ofRat 0) (ofRat 1) (ofRat 1))) "end"

/-- The second half of a ramp, the opposite of a scaled polynomial, and a recorded sum. -/
def threeParts : Waveform ExactQuantity :=
  .append [.slice (.linear (ofRat 0) (ofRat 4) (ofRat 2)) ⟨some (ofRat 1), none⟩,
    .neg (.scale (ofRat 3) (.poly [ofRat 1, ofRat 1] (ofRat 1))), recordedSum]

theorem length_recordedSum : recordedSum.length [] = .ok ⟨.decimal, 1⟩ := by
  simp [recordedSum, ofRat, length, duration, Scalar.greater, Scalar.canon, Scalar.canonAll,
    Scalar.ofTerms, Scalar.termSet, Scalar.insertTerm, Scalar.same, Arith.same, Scalar.eval]

theorem determined_threeParts : Determined [] threeParts := by
  have hline : ∀ x y d : Rat, d ≠ 0 → Determined [] (.linear (ofRat x) (ofRat y) (ofRat d)) := by
    intro x y d hd
    exact .linear (givesDecimal_ofRat x) (givesDecimal_ofRat y) (givesDecimal_ofRat d) hd
  have hslice : GivesDecimal ((slice (.linear (ofRat 0) (ofRat 4) (ofRat 2))
      ⟨some (ofRat 1), none⟩).length []) := ⟨1, by with_unfolding_all rfl⟩
  refine .append ?_ ?_
  · simp only [forall_mem_cons, not_mem_nil, false_imp_iff, implies_true, and_true]
    refine ⟨.slice (hline _ _ _ (by norm_num)) hslice, ?_, ?_⟩
    · refine .neg (.scale (givesDecimal_ofRat 3) (.poly ?_ (givesDecimal_ofRat 1)))
      simp [givesDecimal_ofRat]
    · exact .record (.add (.constant (givesDecimal_ofRat 1) (givesDecimal_ofRat 1))
        (hline _ _ _ (by norm_num)))
  · simp only [forall_mem_cons, not_mem_nil, false_imp_iff, implies_true, and_true]
    exact ⟨hslice, ⟨1, by with_unfolding_all rfl⟩, ⟨1, length_recordedSum⟩⟩

theorem hasSort_threeParts : HasSort threeParts .binary := by
  refine .append ?_
  simp only [forall_mem_cons, not_mem_nil, false_imp_iff, implies_true, and_true]
  exact ⟨.either (.slice .linear), .either (.neg (.scale .poly)), .record (.add .constant .linear)⟩

/-- The three parts have their composed values, decimal ones and in the end binary ones. -/
theorem threeParts_composes : Determined [] threeParts ∧ HasSort threeParts .binary ∧
      eval [] threeParts ⟨.decimal, 3 / 2⟩ = .ok ⟨.decimal, -9 / 2⟩ ∧
      ∃ k, eval [] threeParts ⟨.decimal, 5 / 2⟩ = .ok ⟨k, valueAt [] threeParts (5 / 2)⟩ := by
  refine ⟨determined_threeParts, hasSort_threeParts, ?_, ?_⟩
  · rw [(eval_composes determined_threeParts _).1]
    with_unfolding_all rfl
  · exact (eval_composes determined_threeParts _).2 .binary hasSort_threeParts

/-- A recorded constant cannot be doubled: its value is a binary number, and two is a decimal. -/
theorem scaled_record_fails : eval [] (.scale (.lit (.decimal 2))
      (.record (.constant (.lit (.decimal 1)) (.lit (.decimal 1))) "x")) (Quantity.decimal 0) =
      .error .type := by
  with_unfolding_all rfl

end Waveform

end AtomArray
