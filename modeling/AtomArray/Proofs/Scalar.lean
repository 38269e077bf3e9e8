import AtomArray.Scalar.Eval
import AtomArray.Proofs.Exact

/-!
Scalar expressions in exact arithmetic.

Evaluating a compound expression succeeds exactly when its parts do (`Scalar.eval_add` and its
siblings); later proofs take an evaluation apart by these. A minimum or maximum is described by the
set of its terms' values (`Scalar.Extremal`). Main statement: expressions which compare as equal
have the same values (`Scalar.alike_of_same`).
-/

namespace AtomArray

open List Outcome Exact

namespace Scalar

variable {env : Env Rat}

/-! ### Taking an evaluation apart -/

variable {v : Rat}

attribute [local simp] eval same

@[simp] theorem eval_lit {x : Rat} : eval env (lit x) = .ok v ↔ x = v := by
  simp

variable {e : Scalar Rat}

theorem eval_neg : eval env (neg e) = .ok v ↔ ∃ x, eval env e = .ok x ∧ v = -x := by
  simp only [eval, bind_eq_ok, neg_eq, Except.ok.injEq]
  exact exists_congr fun x => and_congr_right fun _ => eq_comm

variable {a b : Scalar Rat}

theorem eval_add :
    eval env (add a b) = .ok v ↔ ∃ x y, eval env a = .ok x ∧ eval env b = .ok y ∧ v = x + y := by
  simp only [eval, bind₂_eq_ok, add_eq, Except.ok.injEq, eq_comm (a := v)]

theorem eval_mul :
    eval env (mul a b) = .ok v ↔ ∃ x y, eval env a = .ok x ∧ eval env b = .ok y ∧ v = x * y := by
  simp only [eval, bind₂_eq_ok, mul_eq, Except.ok.injEq, eq_comm (a := v)]

theorem eval_div : eval env (div a b) = .ok v ↔
      ∃ x y, eval env a = .ok x ∧ eval env b = .ok y ∧ y ≠ 0 ∧ v = x / y := by
  simp only [eval, bind₂_eq_ok, div_eq_ok]

theorem eval_slice {start stop : Option (Scalar Rat)} : eval env (slice e start stop) = .ok v ↔
      ∃ whole a b, eval env e = .ok whole ∧ evalBound env start = .ok a ∧
        evalBound env stop = .ok b ∧ cutLength whole a b = .ok v := by
  simp only [eval, bind_eq_ok, exists_and_left]

/-- A cut lies inside the whole, and its length is what is between the bounds. -/
theorem cutLength_eq_ok {whole : Rat} {start stop : Option Rat} :
    cutLength whole start stop = .ok v ↔
      0 ≤ start.getD 0 ∧ stop.getD whole ≤ whole ∧ start.getD 0 ≤ stop.getD whole ∧
        v = stop.getD whole - start.getD 0 := by
  simp only [cutLength, zero_eq, lt_eq, sub_eq, ok_bind, decide_eq_true_eq, throw_eq_error,
    error_bind, refuse_eq_ok, not_lt, sub_nonneg, return_eq_ok, eq_comm (a := v)]

variable {ts : List (Scalar Rat)}

theorem evalAll_eq_mapM : evalAll env ts = ts.mapM (eval env) := by
  induction ts with
  | nil => rfl
  | cons t ts ih => rw [evalAll, ih, mapM_cons]

/-- Every term has a value, `m` is one of them, and `m` is `before` all of them. -/
def Extremal (before : Rat → Rat → Prop) (env : Env Rat) (ts : List (Scalar Rat)) (m : Rat) :
    Prop :=
  (∃ t ∈ ts, eval env t = .ok m) ∧ ∀ t ∈ ts, ∃ v, eval env t = .ok v ∧ before m v

variable {before : Rat → Rat → Prop} {m : Rat}

/-- Picking among the values of the terms one that is `before` them all gives the extremal one. -/
theorem pick_eq_ok (hanti : ∀ a b, before a b → before b a → a = b) {pick : List Rat → Outcome Rat}
    (hnil : ∀ m, pick [] ≠ .ok m)
    (hpick : ∀ xs best, ∃ m, pick (best :: xs) = .ok m ∧ m ∈ best :: xs ∧ ∀ x ∈ best :: xs, before m x) : (evalAll env ts >>= pick) = .ok m ↔ Extremal before env ts m := by
  have hchosen : ∀ {best : Rat} {xs : List Rat}, evalAll env ts = .ok (best :: xs) →
      ∃ m, pick (best :: xs) = .ok m ∧ Extremal before env ts m := by
    intro best xs hvs
    rw [evalAll_eq_mapM, mapM_eq_ok_iff] at hvs
    obtain ⟨m, hm, hmem, hbefore⟩ := hpick xs best
    refine ⟨m, hm, exists_of_mem_forall₂ hvs.flip hmem, fun t ht => ?_⟩
    obtain ⟨v, hv, htv⟩ := exists_of_mem_forall₂ hvs ht
    exact ⟨v, htv, hbefore v hv⟩
  constructor
  · intro h
    obtain ⟨vs, hvs, hm⟩ := bind_eq_ok.mp h
    cases vs with
    | nil => exact absurd hm (hnil m)
    | cons best xs =>
      obtain ⟨m', hm', hextremal⟩ := hchosen hvs
      obtain rfl : m' = m := by simpa [hm'] using hm
      exact hextremal
  · rintro ⟨⟨t, ht, htm⟩, hall⟩
    obtain ⟨vs, hvs, hall₂⟩ := exists_mapM_eq_ok hall
    rw [← evalAll_eq_mapM] at hvs
    cases vs with
    | nil =>
      cases hall₂
      cases ht
    | cons best xs =>
      -- Two extremal values are each before the other.
      obtain ⟨m', hm', ⟨t', ht', htm'⟩, hall'⟩ := hchosen hvs
      obtain ⟨v, hv, hmv⟩ := hall t' ht'
      obtain ⟨v', hv', hmv'⟩ := hall' t ht
      obtain rfl : m' = v := by simpa [htm'] using hv
      obtain rfl : m = v' := by simpa [htm] using hv'
      rw [hvs, ok_bind, hanti m m' hmv hmv']
      exact hm'

theorem eval_min : eval env (min ts) = .ok m ↔ Extremal (· ≤ ·) env ts m := by
  rw [eval]
  exact pick_eq_ok (fun _ _ hab hba => le_antisymm hab hba) (fun m => by simp) minimum_spec

theorem eval_max : eval env (max ts) = .ok m ↔ Extremal (· ≥ ·) env ts m := by
  rw [eval]
  exact pick_eq_ok (fun _ _ hab hba => le_antisymm hba hab) (fun m => by simp) maximum_spec

/-! ### Equality of expressions -/

/-- Two expressions have the same values. -/
def Alike (env : Env Rat) (a b : Scalar Rat) : Prop := ∀ v, eval env a = .ok v ↔ eval env b = .ok v

theorem Alike.refl (a : Scalar Rat) : Alike env a a := fun _ => Iff.rfl

/-- Whatever value `a` has in the first environment, `b` has it in the second. -/
def Follows (env env' : Env Rat) (a b : Scalar Rat) : Prop :=
  ∀ v, eval env a = .ok v → eval env' b = .ok v

/-- The same for bounds, which are both there or both open. -/
def BoundFollows (env env' : Env Rat) (a b : Option (Scalar Rat)) : Prop :=
  a.isSome = b.isSome ∧ ∀ v, evalBound env a = .ok v → evalBound env' b = .ok v

/-- Term lists that cover each other have the same extremal values. -/
theorem extremal_congr {xs ys : List (Scalar Rat)} (hxy : ∀ x ∈ xs, ∃ y ∈ ys, Alike env x y)
    (hyx : ∀ y ∈ ys, ∃ x ∈ xs, Alike env x y) (m : Rat) :
    Extremal before env xs m ↔ Extremal before env ys m := by
  have hcovered : ∀ {xs ys}, (∀ x ∈ xs, ∃ y ∈ ys, Alike env x y) →
      (∀ y ∈ ys, ∃ x ∈ xs, Alike env x y) → Extremal before env xs m → Extremal before env ys m := by
    rintro xs ys hxy hyx ⟨⟨x, hx, hm⟩, hall⟩
    constructor
    · obtain ⟨y, hy, halike⟩ := hxy x hx
      exact ⟨y, hy, (halike m).mp hm⟩
    · intro y hy
      obtain ⟨x, hx, halike⟩ := hyx y hy
      obtain ⟨v, hv, hbefore⟩ := hall x hx
      exact ⟨v, (halike v).mp hv, hbefore⟩
  refine ⟨hcovered hxy hyx, hcovered ?_ ?_⟩
  · exact fun y hy => (hyx y hy).imp fun _ h => ⟨h.1, fun v => (h.2 v).symm⟩
  · exact fun x hx => (hxy x hx).imp fun _ h => ⟨h.1, fun v => (h.2 v).symm⟩

variable {N : Type}

theorem anySame_eq_true [Arith N] {x : Scalar N} {ys : List (Scalar N)} :
    anySame x ys ↔ ∃ y ∈ ys, same x y := by
  induction ys with
  | nil => simp [anySame]
  | cons y ys ih => simp [anySame, ih]

theorem allIn_eq_true [Arith N] {xs ys : List (Scalar N)} :
    allIn xs ys ↔ ∀ x ∈ xs, ∃ y ∈ ys, same x y := by
  induction xs with
  | nil => simp [allIn]
  | cons x xs ih => simp [allIn, anySame_eq_true, ih]

theorem isIn_eq_true [Arith N] {xs : List (Scalar N)} {y : Scalar N} :
    isIn xs y ↔ ∃ x ∈ xs, same x y := by
  induction xs with
  | nil => simp [isIn]
  | cons x xs ih => simp [isIn, ih]

/-- Term lists that compare as equal have the same extremal values, if their terms do. -/
theorem extremal_of_same {xs ys : List (Scalar Rat)}
    (hterms : ∀ x ∈ xs, ∀ y, same x y → Alike env x y) (hxy : allIn xs ys)
    (hyx : ∀ y ∈ ys, isIn xs y) (m : Rat) :
    Extremal before env xs m ↔ Extremal before env ys m := by
  refine extremal_congr (fun x hx => ?_) (fun y hy => ?_) m
  · obtain ⟨y, hy, h⟩ := allIn_eq_true.mp hxy x hx
    exact ⟨y, hy, hterms x hx y h⟩
  · obtain ⟨x, hx, h⟩ := isIn_eq_true.mp (hyx y hy)
    exact ⟨x, hx, hterms x hx y h⟩

mutual

theorem alike_of_same : ∀ (a b : Scalar Rat), same a b → Alike env a b
  | lit x, b, h | var n, b, h => by
    cases b <;> simp at h
    obtain rfl := h
    exact .refl _
  | assigned n x, b, h => by
    cases b <;> simp at h
    obtain ⟨rfl, rfl⟩ := h
    exact .refl _
  | neg a, b, h => by
    cases b <;> simp at h
    have ih := alike_of_same a _ h
    intro v
    simp only [eval_neg, ih _]
  | add a c, b, h | mul a c, b, h | div a c, b, h => by
    cases b <;> simp at h
    have ih₁ := alike_of_same a _ h.1
    have ih₂ := alike_of_same c _ h.2
    intro v
    simp only [eval_add, eval_mul, eval_div, ih₁ _, ih₂ _]
  | min xs, b, h | max xs, b, h => by
    cases b <;> simp at h
    intro v
    simp only [eval_min, eval_max]
    exact extremal_of_same (alike_of_mem xs) h.1.2 h.2 v
  | slice a s t, b, h => by
    cases b <;> simp at h
    have ih := alike_of_same a _ h.1.1
    have ihs := evalBound_of_sameBound s _ h.1.2
    have iht := evalBound_of_sameBound t _ h.2
    intro v
    simp only [eval_slice, ih _, ihs _, iht _]

theorem evalBound_of_sameBound : ∀ (s t : Option (Scalar Rat)), sameBound s t →
    ∀ v, evalBound env s = .ok v ↔ evalBound env t = .ok v
  | none, none, _ => fun _ => Iff.rfl
  | none, some _, h | some _, none, h => by simp [sameBound] at h
  | some a, some b, h => by
    have ih := alike_of_same a b (by simpa [sameBound] using h)
    intro v
    simp only [evalBound, bind_eq_ok, ih _]

theorem alike_of_mem : ∀ (xs : List (Scalar Rat)), ∀ x ∈ xs, ∀ y, same x y → Alike env x y
  | [] => by simp
  | z :: zs => forall_mem_cons.mpr ⟨alike_of_same z, alike_of_mem zs⟩

end

theorem follows_of_same (h : same a b) : Follows env env a b :=
  fun v => (alike_of_same a b h v).mp

theorem boundFollows_of_sameBound {a b : Option (Scalar Rat)} (h : sameBound a b) :
    BoundFollows env env a b := by
  refine ⟨?_, fun v => (evalBound_of_sameBound a b h v).mp⟩
  cases a <;> cases b <;> simp [sameBound] at h ⊢

end Scalar

end AtomArray
