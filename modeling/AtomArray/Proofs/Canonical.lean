import AtomArray.Proofs.Scalar
import Mathlib.Tactic.Ring

/-!
Simplifying a scalar expression keeps its value.

Each case of the definition leaves an expression as it is, gives a literal, builds a set of terms, or
goes on with a part of the expression (`Scalar.parts`). By induction over parts, an expression that
has a value has it in canonical form too (`Scalar.canon_keeps`). The converse fails: simplification
can drop a part that has no value, as in a product with zero.
-/

namespace AtomArray

namespace Scalar

variable {N : Type}

/-! ### Parts of an expression -/

/-- What simplifying may go on with: operands and terms, and what is negated twice. -/
def parts : Scalar N → List (Scalar N)
  | neg (neg e) => [e]
  | add l r | mul l r | div l r => [l, r]
  | min ts | max ts => ts
  | _ => []

theorem sizeOf_lt_of_mem_parts [SizeOf N] {e p : Scalar N} (h : p ∈ parts e) :
    sizeOf p < sizeOf e := by
  unfold parts at h
  split at h
  case h_5 | h_6 =>
    have := List.sizeOf_lt_of_mem h
    simp +arith
    omega
  all_goals grind

/-! ### Literals and opposites -/

variable {env : Env Rat} {e : Scalar Rat}

theorem isLit_zero : isLit 0 e ↔ e = lit 0 := by
  cases e <;> simp [isLit]

theorem isLit_one : isLit 1 e ↔ e = lit 1 := by
  cases e <;> simp [isLit]

variable {l r : Scalar Rat}

theorem sameOption_underNeg? :
    sameOption same l.underNeg? (some r) ↔ ∃ e, l = neg e ∧ same e r := by
  cases l <;> simp [underNeg?, sameOption]

/-! ### Canonical form keeps values -/

/-- An expression that has a value has it in canonical form too. -/
def Keeps (env : Env Rat) (e : Scalar Rat) : Prop :=
  ∀ v, eval env e = .ok v → ∃ e', canon e = .ok e' ∧ eval env e' = .ok v

@[simp] theorem eval_zeroLit : eval env zeroLit = .ok 0 := by
  simp [zeroLit, eval]

/-- An expression and its opposite cancel. -/
theorem eval_cancel {x y : Rat} (h : sameOption same l.underNeg? (some r))
    (hx : eval env l = .ok x) (hy : eval env r = .ok y) : x + y = 0 := by
  obtain ⟨e, rfl, hsame⟩ := sameOption_underNeg?.mp h
  obtain ⟨z, hz, rfl⟩ := eval_neg.mp hx
  obtain rfl : y = z := by simpa [hy] using (alike_of_same e r hsame z).mp hz
  exact neg_add_cancel y

section

variable [Arith N]

theorem insertTerm_spec (acc : List (Scalar N)) (s : Scalar N) :
    (∀ u ∈ insertTerm acc s, u ∈ acc ∨ u = s) ∧ (∀ u ∈ acc, u ∈ insertTerm acc s) ∧
      ∃ u ∈ insertTerm acc s, u = s ∨ same u s := by
  rw [insertTerm]
  split
  · rename_i hany
    obtain ⟨u, hu, hsame⟩ := List.any_eq_true.mp hany
    exact ⟨fun _ => .inl, fun _ => id, u, hu, .inr hsame⟩
  · simp +contextual

/-- Adding terms to a set keeps what it has and adds a term equal to each of them. -/
theorem foldl_insertTerm_spec (ts acc : List (Scalar N)) :
    (∀ u ∈ ts.foldl insertTerm acc, u ∈ acc ∨ u ∈ ts) ∧ (∀ u ∈ acc, u ∈ ts.foldl insertTerm acc) ∧
        ∀ t ∈ ts, ∃ u ∈ ts.foldl insertTerm acc, u = t ∨ same u t := by
  induction ts generalizing acc with
  | nil => simp
  | cons s ts ih =>
    obtain ⟨hsub, hold, hcover⟩ := ih (insertTerm acc s)
    obtain ⟨hinsert, hkeep, u, hu, hus⟩ := insertTerm_spec acc s
    refine ⟨fun t ht => ?_, fun t ht => hold t (hkeep t ht),
      List.forall_mem_cons.mpr ⟨⟨u, hold u hu, hus⟩, hcover⟩⟩
    rcases hsub t ht with ht | ht
    · simpa [or_assoc] using (hinsert t ht).imp_right Or.inl
    · exact .inr (List.mem_cons_of_mem s ht)

end

variable {before : Rat → Rat → Prop} {ts : List (Scalar Rat)} {m : Rat}

/-- A set of terms has the extremal values of the terms it is made from. -/
theorem extremal_termSet : Extremal before env (termSet ts) m ↔ Extremal before env ts m := by
  obtain ⟨hsub, -, hcover⟩ := foldl_insertTerm_spec ts []
  refine extremal_congr (fun u hu => ⟨u, by simpa using hsub u hu, .refl u⟩) (fun t ht => ?_) m
  obtain ⟨u, hu, rfl | hsame⟩ := hcover t ht
  · exact ⟨u, hu, .refl u⟩
  · exact ⟨u, hu, alike_of_same u t hsame⟩

/-- A minimum or maximum keeps its value when its terms become a set, alone or not. -/
theorem ofTerms_keeps {node : List (Scalar Rat) → Scalar Rat}
    (hnode : ∀ ts m, eval env (node ts) = .ok m ↔ Extremal before env ts m) (h : eval env (node ts) = .ok m) :
    ∃ e, ofTerms node ts = .ok e ∧ eval env e = .ok m := by
  have hset := extremal_termSet.mpr ((hnode ts m).mp h)
  rw [ofTerms]
  split
  · rename_i hnil
    rw [hnil] at hset
    obtain ⟨⟨t, ht, _⟩, _⟩ := hset
    simp at ht
  · rename_i t hone
    rw [hone] at hset
    obtain ⟨⟨t', ht', hm⟩, _⟩ := hset
    obtain rfl := List.mem_singleton.mp ht'
    exact ⟨t', rfl, hm⟩
  · exact ⟨_, rfl, (hnode _ m).mpr hset⟩

theorem canonAll_keeps (ts : List (Scalar Rat)) {vs : List Rat} (hts : ∀ t ∈ ts, Keeps env t)
    (h : evalAll env ts = .ok vs) : ∃ us, canonAll ts = .ok us ∧ evalAll env us = .ok vs := by
  induction ts generalizing vs with
  | nil => exact ⟨[], rfl, h⟩
  | cons t ts ih =>
    obtain ⟨ht, hts⟩ := List.forall_mem_cons.mp hts
    simp only [evalAll, Outcome.bind_eq_ok, Outcome.return_eq_ok] at h
    obtain ⟨x, hx, xs, hxs, rfl⟩ := h
    obtain ⟨u, hu, hux⟩ := ht x hx
    obtain ⟨us, hus, husx⟩ := ih hts hxs
    exact ⟨u :: us, by simp [canonAll, hu, hus], by simp [evalAll, hux, husx]⟩

/-- **Canonical form keeps the value** of every expression that has one. -/
theorem canon_keeps (e : Scalar Rat) : Keeps env e := by
  have ih : ∀ p ∈ parts e, Keeps env p := fun p hp => canon_keeps p
  intro v h
  fun_cases canon e
  case case13 | case20 | case26 | case29 => exact ⟨_, rfl, h⟩
  -- A neutral operand is left out, as is a double sign.
  case case1 | case6 | case8 | case10 | case11 | case17 | case18 | case25 =>
    refine ih _ (by simp [parts]) v ?_
    simp_all [eval_neg, eval_add, eval_mul, eval_div, isLit_zero, isLit_one]
  case case12 hcancel =>
    obtain ⟨x, y, hx, hy, rfl⟩ := eval_add.mp h
    have hzero : x + y = 0 := by
      rcases Bool.or_eq_true_iff.mp hcancel with h | h
      · exact eval_cancel h hx hy
      · exact (add_comm x y).trans (eval_cancel h hy hx)
    exact ⟨_, rfl, by rw [hzero, eval_zeroLit]⟩
  case case27 ts | case28 ts =>
    rw [eval] at h
    obtain ⟨vs, hvs, hpick⟩ := Outcome.bind_eq_ok.mp h
    obtain ⟨us, hus, hval⟩ := canonAll_keeps ts ih hvs
    rw [hus]
    first
    | exact ofTerms_keeps (fun _ _ => eval_min) (by rw [eval, hval]; exact hpick)
    | exact ofTerms_keeps (fun _ _ => eval_max) (by rw [eval, hval]; exact hpick)
  -- In the cases that are left the canonical form is a literal.
  case case2 x =>
    obtain rfl : -x = v := by simpa [eval] using h
    by_cases hx : x < 0 <;> simp [hx, eval]
  case case19 hzero =>
    obtain ⟨x, y, hx, hy, rfl⟩ := eval_mul.mp h
    refine ⟨_, rfl, ?_⟩
    rcases Bool.or_eq_true_iff.mp hzero with h | h
    · obtain rfl := eval_lit.mp (isLit_zero.mp h ▸ hx)
      simp
    · obtain rfl := eval_lit.mp (isLit_zero.mp h ▸ hy)
      simp
  case case23 a b _ _ =>
    obtain ⟨hne, rfl⟩ : b ≠ 0 ∧ v = a / b := by simpa [eval_div] using h
    exact ⟨_, by rw [Exact.div_of_ne_zero a hne]; rfl, eval_lit.mpr rfl⟩
  case case24 hzero =>
    obtain ⟨x, y, hx, -, -, rfl⟩ := eval_div.mp h
    obtain rfl := eval_lit.mp (isLit_zero.mp hzero ▸ hx)
    exact ⟨_, rfl, by simp⟩
  all_goals simp_all [eval_neg, eval_add, eval_mul, eval_div, sub_eq_add_neg, add_comm]
termination_by sizeOf e
decreasing_by exact sizeOf_lt_of_mem_parts hp

theorem plus_keeps {a b : Scalar Rat} {x y : Rat} (ha : eval env a = .ok x)
    (hb : eval env b = .ok y) :
    ∃ e, plus a b = .ok e ∧ eval env e = .ok (x + y) :=
  canon_keeps (add a b) (x + y) (eval_add.mpr ⟨x, y, ha, hb, rfl⟩)

end Scalar

end AtomArray
