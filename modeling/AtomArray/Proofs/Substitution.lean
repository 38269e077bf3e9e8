import AtomArray.Proofs.Canonical
import AtomArray.Proofs.Lookup

/-!
Binding parameters in scalar expressions, in exact arithmetic.

An environment is split in two: `Scalar.assign` binds the names of the first part, and the result is
evaluated in the second. A minimum, a maximum or a cut anywhere in an expression makes it fail,
whatever its value.
-/

namespace AtomArray

open Outcome

variable {N : Type} [Arith N]

/-! ### Environments -/

/-- What is stored for a supplied value is the number that it writes. Only a text or a binary number
that writes an infinity, or no number at all, is not stored as such. -/
def Param.Storable (p : Param N) : Prop := ∀ x, p.number? = .ok x → p.stored? = .ok x

def Env.Storable (env : Env N) : Prop := ∀ p ∈ env, p.2.Storable

/-- No name is bound in both environments. -/
def Env.Apart (m n : Env N) : Prop := (m.map Prod.fst).Disjoint (n.map Prod.fst)

theorem Param.storable_number (x : Rat) : (Param.number x).Storable := by
  intro y hy
  simpa [Param.number?, Param.stored?] using hy

variable {name : String} {env : Env N}

theorem Env.Storable.of_lookup {p : Param N} (h : env.Storable)
    (hp : env.lookup name = some p) : p.Storable :=
  h (name, p) (mem_of_lookup hp)

theorem Env.has_eq_false {env : Env Rat} : env.has name = false ↔ env.lookup name = none := by
  simp [Env.has]

theorem Env.Apart.has_eq_false {m n : Env Rat} {p : Param Rat} (h : m.Apart n)
    (hp : m.lookup name = some p) : n.has name = false :=
  Env.has_eq_false.mpr (lookup_eq_none.mpr (h (List.mem_map_of_mem (mem_of_lookup hp))))

namespace Scalar

/-- Is the expression made of literals and parameters by arithmetic alone? -/
def isArithmetic : Scalar N → Bool
  | lit _ | var _ | assigned .. => true
  | neg e => isArithmetic e
  | add a b => isArithmetic a && isArithmetic b
  | mul a b => isArithmetic a && isArithmetic b
  | div a b => isArithmetic a && isArithmetic b
  | min _ | max _ | slice .. => false

/-! ### What can be substituted in -/

/-- Substitution reaches every part of an expression, so it succeeds in arithmetic only. -/
theorem isArithmetic_of_substitute {e e' : Scalar N}
    (h : e.substitute env = .ok e') : e.isArithmetic := by
  fun_induction substitute env e generalizing e' with
  | case1 | case2 | case3 | case4 | case5 => rfl
  | case6 a ih =>
    obtain ⟨a', ha, -⟩ := bind_eq_ok.mp h
    exact ih ha
  | case7 a b iha ihb | case8 a b iha ihb | case9 a b iha ihb =>
    obtain ⟨a', b', ha, hb, -⟩ := bind₂_eq_ok.mp h
    rw [isArithmetic, iha ha, ihb hb]
    rfl
  | case10 | case11 | case12 => cases h

variable {m n : Env Rat}

variable {v : Rat}

/-- A parameter of the first environment becomes bound, one of the second stays free. -/
theorem substitute_var_keeps (hm : m.Storable) (hmn : m.Apart n)
    (hv : eval (m ++ n) (var name) = .ok v) :
    ∃ e, substitute m (var name) = .ok e ∧ eval n e = .ok v := by
  rw [eval, List.lookup_append] at hv
  rw [substitute]
  cases hp : m.lookup name with
  | none =>
    rw [hp, Option.none_or] at hv
    exact ⟨var name, rfl, by rwa [eval]⟩
  | some p =>
    rw [hp, Option.some_or] at hv
    refine ⟨assigned name v, ?_, ?_⟩
    · simp [hm.of_lookup hp v hv]
    · simp [eval, hmn.has_eq_false hp]

theorem substitute_assigned_keeps {x : Rat} (hv : eval (m ++ n) (assigned name x) = .ok v) :
    ∃ e, substitute m (assigned name x) = .ok e ∧ eval n e = .ok v := by
  simp only [eval, refuse_eq_ok, Bool.not_eq_true, Env.has_eq_false, List.lookup_append,
    Option.or_eq_none_iff] at hv
  obtain ⟨⟨hm, hn⟩, hx⟩ := hv
  refine ⟨assigned name x, ?_, ?_⟩
  · simp [substitute, Env.has, hm]
  · simpa [eval, Env.has, hn] using hx

/-- **Substitution keeps the value** of arithmetic. -/
theorem substitute_keeps (hm : m.Storable) (hmn : m.Apart n) : ∀ (e : Scalar Rat) (v : Rat),
    e.isArithmetic → eval (m ++ n) e = .ok v →
      ∃ e', e.substitute m = .ok e' ∧ eval n e' = .ok v
  | lit x, v, _, hv => ⟨lit x, rfl, by simpa using hv⟩
  | var name, v, _, hv => substitute_var_keeps hm hmn hv
  | assigned name x, v, _, hv => substitute_assigned_keeps hv
  | neg a, v, he, hv => by
    obtain ⟨x, hx, rfl⟩ := eval_neg.mp hv
    obtain ⟨a', ha, hax⟩ := substitute_keeps hm hmn a x he hx
    rw [substitute, ha, ok_bind]
    exact canon_keeps (neg a') (-x) (eval_neg.mpr ⟨x, hax, rfl⟩)
  | add a b, v, he, hv | mul a b, v, he, hv | div a b, v, he, hv => by
    rw [isArithmetic, Bool.and_eq_true] at he
    rw [eval] at hv
    obtain ⟨x, y, hx, hy, hop⟩ := bind₂_eq_ok.mp hv
    obtain ⟨a', ha, hax⟩ := substitute_keeps hm hmn a x he.1 hx
    obtain ⟨b', hb, hby⟩ := substitute_keeps hm hmn b y he.2 hy
    rw [substitute, ha, ok_bind, hb, ok_bind]
    refine canon_keeps _ v ?_
    rw [eval, hax, ok_bind, hby, ok_bind, hop]

theorem exists_assign (hm : m.Storable) (hmn : m.Apart n) {e : Scalar Rat}
    (he : e.isArithmetic) (hv : e.eval (m ++ n) = .ok v) :
    ∃ e', e.assign m = .ok e' ∧ e'.eval n = .ok v := by
  obtain ⟨e', he', hv'⟩ := substitute_keeps hm hmn e v he hv
  rw [assign, he', ok_bind]
  exact canon_keeps e' v hv'

theorem isArithmetic_of_assign {e e' : Scalar N} (h : e.assign env = .ok e') :
    e.isArithmetic := by
  obtain ⟨r, hr, -⟩ := bind_eq_ok.mp h
  exact isArithmetic_of_substitute hr

theorem assign_keeps (hm : m.Storable) (hmn : m.Apart n) {e e' : Scalar Rat}
    (h : e.assign m = .ok e') (hv : e.eval (m ++ n) = .ok v) : e'.eval n = .ok v := by
  obtain ⟨r, hr, hrv⟩ := exists_assign hm hmn (isArithmetic_of_assign h) hv
  obtain rfl : r = e' := Except.ok.inj (hr.symm.trans h)
  exact hrv

/-- **Binding parameters.** Of an expression that has a value, the parameters of the first
environment can be bound exactly when it is arithmetic, and then the value is kept. -/
theorem assign_keeps_value_iff (hm : m.Storable) (hmn : m.Apart n) {e : Scalar Rat} {v : Rat}
    (hv : e.eval (m ++ n) = .ok v) :
    ((∃ e', e.assign m = .ok e') ↔ e.isArithmetic = true) ∧
      ∀ e', e.assign m = .ok e' → e'.eval n = .ok v := by
  refine ⟨⟨?_, ?_⟩, ?_⟩
  · rintro ⟨e', h⟩
    exact isArithmetic_of_assign h
  · intro he
    obtain ⟨e', h, -⟩ := exists_assign hm hmn he hv
    exact ⟨e', h⟩
  · intro e' h
    exact assign_keeps hm hmn h hv

/-- A quotient over two parameters, of which one is bound. -/
def sharedSum : Scalar Rat :=
  .div (.add (.var "a") (.var "b")) (.neg (.mul (.var "a") (.lit 2)))

theorem sharedSum_keeps_value :
    sharedSum.eval ([("a", .number 1)] ++ [("b", .number 3)]) = .ok (-2) ∧
      sharedSum.isArithmetic = true ∧ ∃ e', sharedSum.assign [("a", .number 1)] = .ok e' ∧
        e'.eval [("b", .number 3)] = .ok (-2) := by
  have hm : Env.Storable [("a", .number (1 : Rat))] := by
    simpa [Env.Storable] using Param.storable_number 1
  have hmn : Env.Apart [("a", .number (1 : Rat))] [("b", .number 3)] := by
    simp [Env.Apart]
  have hv : sharedSum.eval ([("a", .number 1)] ++ [("b", .number 3)]) = .ok (-2) := by
    with_unfolding_all rfl
  obtain ⟨hiff, hkeeps⟩ := assign_keeps_value_iff hm hmn hv
  obtain ⟨e', he'⟩ := hiff.mpr rfl
  exact ⟨hv, rfl, e', he', hkeeps e' he'⟩

/-- A minimum and a cut have values, and still no parameter of theirs can be bound. -/
theorem min_slice_not_assignable :
    (eval [("a", .number 1)] (.min [.var "a", .lit 2]) = .ok (1 : Rat) ∧
      ∀ e', assign [("a", .number 1)] (.min [.var "a", .lit (2 : Rat)]) ≠ .ok e') ∧
    (eval [("a", .number 5)] (.slice (.var "a") (some (.lit 1)) none) = .ok (4 : Rat) ∧
      ∀ e', assign [("a", .number 5)] (.slice (.var "a") (some (.lit (1 : Rat))) none) ≠ .ok e') := by
  refine ⟨⟨by with_unfolding_all rfl, ?_⟩, by with_unfolding_all rfl, ?_⟩
  · intro e' h
    exact absurd (isArithmetic_of_assign h) (by simp [isArithmetic])
  · intro e' h
    exact absurd (isArithmetic_of_assign h) (by simp [isArithmetic])

end Scalar

end AtomArray
