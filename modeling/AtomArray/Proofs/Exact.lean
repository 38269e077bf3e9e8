import AtomArray.Number.Exact
import AtomArray.Proofs.Outcome
import Mathlib.Tactic.Linarith

/-!
Exact arithmetic, operation by operation.

At the rational numbers every operation but division succeeds, and measuring, storing and reading
a number as a decimal change nothing. The lemmas are tagged for `simp`, which therefore carries a
computation over `Arith Rat` to one over the rationals.

`sumOf f xs` is the sum of `f` over a list, which has a value when every summand has one.
-/

namespace AtomArray

open List Outcome Decimal

namespace Exact

@[simp] theorem ofDecimal_zero : (Arith.ofDecimal 0 : Rat) = 0 := by
  show toRat (ofInt 0) = 0
  simp [toRat, ofInt]

@[simp] theorem ofDecimal_one : (Arith.ofDecimal 1 : Rat) = 1 := by
  show toRat (ofInt 1) = 1
  simp [toRat, ofInt]

theorem ofInt_eq (i : Int) : (Arith.ofInt i : Rat) = i := by
  show toRat (ofInt i) = i
  rcases lt_or_ge i 0 with hi | hi
  · simp [toRat, ofInt, hi, abs_of_neg (Int.cast_lt_zero.mpr hi)]
  · simp [toRat, ofInt, hi.not_gt, abs_of_nonneg (Int.cast_nonneg hi)]

@[simp] theorem zero_eq : (Arith.zero : Rat) = 0 := ofDecimal_zero

@[simp] theorem one_eq : (Arith.one : Rat) = 1 := ofDecimal_one

@[simp] theorem foldedZero_eq : (Arith.foldedZero : Rat) = 0 := by
  simp [Arith.foldedZero, Arith.ofDecimal, toRat]

variable (a : Rat)

@[simp] theorem neg_eq : Arith.neg a = .ok (-a) := rfl

variable (a b : Rat)

@[simp] theorem add_eq : Arith.add a b = .ok (a + b) := rfl

@[simp] theorem sub_eq : Arith.sub a b = .ok (a - b) := rfl

@[simp] theorem mul_eq : Arith.mul a b = .ok (a * b) := rfl

@[simp] theorem lt_eq : Arith.lt a b = .ok (decide (a < b)) := rfl

@[simp] theorem le_eq : Arith.le a b = .ok (decide (a ≤ b)) := rfl

@[simp] theorem gt_eq : Arith.gt a b = .ok (decide (b < a)) := rfl

@[simp] theorem ge_eq : Arith.ge a b = .ok (decide (b ≤ a)) := rfl

@[simp] theorem same_eq : Arith.same a b = decide (a = b) := rfl

@[simp] theorem decimal_eq : Arith.decimal a = a := rfl

@[simp] theorem measured_eq : Arith.measured a = a := rfl

@[simp] theorem stored_eq : Arith.stored a = .ok a := rfl

@[simp] theorem isDecimal_zero : Arith.isDecimal 0 a = decide (a = 0) := by
  simp [Arith.isDecimal]

@[simp] theorem isDecimal_one : Arith.isDecimal 1 a = decide (a = 1) := by
  simp [Arith.isDecimal]

/-- Division is the one operation that can fail. -/
theorem div_eq_ok {a b v : Rat} : Arith.div a b = .ok v ↔ b ≠ 0 ∧ v = a / b := by
  show (if b = 0 then Except.error (Fault.plain .divisionByZero) else .ok (a / b)) = .ok v ↔ _
  split
  · simp_all
  · simp_all [eq_comm]

theorem div_of_ne_zero {b : Rat} (hb : b ≠ 0) : Arith.div a b = .ok (a / b) :=
  div_eq_ok.mpr ⟨hb, rfl⟩

variable (xs : List Rat)

@[simp] theorem mapM_stored : xs.mapM (Arith.stored : Rat → Outcome Rat) = .ok xs := by
  simpa using mapM_eq_ok fun x (_ : x ∈ xs) => stored_eq x

@[simp] theorem mapM_sub (a : Rat) : xs.mapM (fun x => Arith.sub x a) = .ok (xs.map (· - a)) :=
  mapM_eq_ok fun x _ => sub_eq x a

@[simp] theorem mapM_neg : xs.mapM (Arith.neg : Rat → Outcome Rat) = .ok (xs.map (-·)) :=
  mapM_eq_ok fun x _ => neg_eq x

@[simp] theorem mapM_mul (a : Rat) : xs.mapM (Arith.mul a) = .ok (xs.map (a * ·)) :=
  mapM_eq_ok fun x _ => mul_eq a x

theorem minimum_spec (best : Rat) :
    ∃ m, Arith.minimum best xs = .ok m ∧ m ∈ best :: xs ∧ ∀ x ∈ best :: xs, m ≤ x := by
  induction xs generalizing best with
  | nil => exact ⟨best, rfl, by simp, by simp⟩
  | cons y ys ih =>
    simp only [Arith.minimum, lt_eq, ok_bind, decide_eq_true_eq]
    split
    · rename_i hlt
      obtain ⟨m, hm, hmem, hle⟩ := ih y
      exact ⟨m, hm, mem_cons_of_mem _ hmem,
        forall_mem_cons.mpr ⟨(hle y mem_cons_self).trans hlt.le, hle⟩⟩
    · rename_i hge
      obtain ⟨m, hm, hmem, hle⟩ := ih best
      obtain ⟨hbest, hys⟩ := forall_mem_cons.mp hle
      refine ⟨m, hm, cons_subset_cons best (subset_cons_self y ys) hmem, ?_⟩
      exact forall_mem_cons.mpr ⟨hbest, forall_mem_cons.mpr ⟨hbest.trans (not_lt.mp hge), hys⟩⟩

theorem maximum_eq_minimum (best : Rat) :
    Arith.maximum best xs = (Arith.minimum (-best) (xs.map (-·))).map (-·) := by
  induction xs generalizing best with
  | nil => simp [Arith.maximum, Arith.minimum, Except.map]
  | cons y ys ih =>
    simp only [Arith.maximum, Arith.minimum, map_cons, lt_eq, ok_bind,
      decide_eq_true_eq, neg_lt_neg_iff]
    split
    · exact ih y
    · exact ih best

theorem maximum_spec (best : Rat) :
    ∃ m, Arith.maximum best xs = .ok m ∧ m ∈ best :: xs ∧ ∀ x ∈ best :: xs, x ≤ m := by
  obtain ⟨m, hm, hmem, hle⟩ := minimum_spec (xs.map (-·)) (-best)
  rw [← map_cons (f := fun x : Rat => -x)] at hmem hle
  refine ⟨-m, by rw [maximum_eq_minimum, hm]; rfl, ?_, ?_⟩
  · obtain ⟨x, hx, rfl⟩ := mem_map.mp hmem
    simpa using hx
  · intro x hx
    have := hle (-x) (mem_map.mpr ⟨x, hx, rfl⟩)
    linarith

end Exact

/-! ### Sums -/

/-- The sum of what `f` gives for the items of a list. -/
def sumOf {α : Type} (f : α → Outcome Rat) : List α → Outcome Rat
  | [] => .ok 0
  | x :: xs => do return (← f x) + (← sumOf f xs)

section Sums

variable {α β : Type} {f g : α → Outcome Rat} {xs ys : List α} {x : α} {a b v : Rat}

@[simp] theorem sumOf_nil : sumOf f [] = .ok v ↔ v = 0 := by
  simp [sumOf, eq_comm]

theorem sumOf_cons :
    sumOf f (x :: xs) = .ok v ↔ ∃ a b, f x = .ok a ∧ sumOf f xs = .ok b ∧ v = a + b :=
  both_eq_ok

theorem sumOf_append :
    sumOf f (xs ++ ys) = .ok v ↔ ∃ a b, sumOf f xs = .ok a ∧ sumOf f ys = .ok b ∧ v = a + b := by
  induction xs generalizing v with
  | nil => simp
  | cons x xs ih =>
    simp only [cons_append, sumOf_cons, ih]
    constructor
    · rintro ⟨a, _, ha, ⟨b, c, hb, hc, rfl⟩, rfl⟩
      exact ⟨a + b, c, ⟨a, b, ha, hb, rfl⟩, hc, (add_assoc a b c).symm⟩
    · rintro ⟨_, c, ⟨a, b, ha, hb, rfl⟩, hc, rfl⟩
      exact ⟨a, b + c, ha, ⟨b, c, hb, hc, rfl⟩, add_assoc a b c⟩

theorem sumOf_singleton : sumOf f [x] = .ok v ↔ f x = .ok v := by
  simp [sumOf_cons]

theorem exists_of_mem_sumOf (h : sumOf f xs = .ok v) (hx : x ∈ xs) : ∃ a, f x = .ok a := by
  induction xs generalizing v with
  | nil => cases hx
  | cons y ys ih =>
    obtain ⟨a, b, ha, hb, -⟩ := sumOf_cons.mp h
    rcases mem_cons.mp hx with rfl | hx
    · exact ⟨a, ha⟩
    · exact ih hb hx

end Sums

end AtomArray
