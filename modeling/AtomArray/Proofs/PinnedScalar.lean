import AtomArray.Proofs.Canonical

/-!
Binding one parameter in a scalar expression, before or after anything else is done to it.

A parameter that is not bound already (`Scalar.Clear`) can be bound to a number (`Scalar.pin`), or
its value can be supplied later:

* `Scalar.same_pin`: expressions are equal with and without it;
* `Scalar.canon_pin`: simplifying commutes with binding the parameter, faults included;
* `Scalar.assign_supplies`: to supply one value more is to supply the others and bind it;
* `Scalar.assign_pin`, `Scalar.eval_pin`: a bound parameter counts as a supplied one.
-/

namespace AtomArray

open List Outcome

variable {N : Type}

/-- Numbers are the same where they are read and where they are kept. -/
class Arith.Exact (N : Type) [Arith N] : Prop where
  decimal_eq (v : N) : Arith.decimal v = v
  stored_eq (v : N) : Arith.stored v = .ok v
  same_self (v : N) : Arith.same v v

instance : Arith.Exact Rat := ⟨by simp, by simp, by simp⟩

/-- The second environment supplies a number for one parameter more than the first. -/
structure Env.Supplies (x : String) (v : N) (env env' : Env N) : Prop where
  absent : env.lookup x = none
  lookup_eq (y : String) : env'.lookup y = if y = x then some (.number v) else env.lookup y

variable {y : String}

namespace Env.Supplies

variable {x : String} {v : N} {env env' : Env N}

theorem lookup_self (h : Supplies x v env env') : env'.lookup x = some (.number v) := by
  rw [h.lookup_eq, if_pos rfl]

theorem lookup_of_ne (h : Supplies x v env env') (hy : y ≠ x) : env'.lookup y = env.lookup y := by
  rw [h.lookup_eq, if_neg hy]

theorem has_of_ne (h : Supplies x v env env') (hy : y ≠ x) : env'.has y = env.has y := by
  rw [Env.has, Env.has, h.lookup_of_ne hy]

theorem has_self (h : Supplies x v env env') : env.has x = false := by
  rw [Env.has, h.absent, Option.isSome_none]

end Env.Supplies

namespace Scalar

mutual

/-- The expression with a free parameter bound to a number. -/
def pin (x : String) (v : N) : Scalar N → Scalar N
  | lit a => lit a
  | var y => if y = x then assigned x v else var y
  | assigned y w => assigned y w
  | neg e => neg (pin x v e)
  | add a b => add (pin x v a) (pin x v b)
  | mul a b => mul (pin x v a) (pin x v b)
  | div a b => div (pin x v a) (pin x v b)
  | min ts => min (pinAll x v ts)
  | max ts => max (pinAll x v ts)
  | slice e s t => slice (pin x v e) (pinBound x v s) (pinBound x v t)

def pinAll (x : String) (v : N) : List (Scalar N) → List (Scalar N)
  | [] => []
  | t :: ts => pin x v t :: pinAll x v ts

def pinBound (x : String) (v : N) : Option (Scalar N) → Option (Scalar N)
  | none => none
  | some e => some (pin x v e)

end

mutual

/-- A parameter is not bound anywhere in an expression. -/
def Clear (x : String) : Scalar N → Prop
  | lit _ | var _ => True
  | assigned y _ => y ≠ x
  | neg e => Clear x e
  | add a b => Clear x a ∧ Clear x b
  | mul a b => Clear x a ∧ Clear x b
  | div a b => Clear x a ∧ Clear x b
  | min ts => ClearAll x ts
  | max ts => ClearAll x ts
  | slice e s t => Clear x e ∧ ClearBound x s ∧ ClearBound x t

def ClearAll (x : String) : List (Scalar N) → Prop
  | [] => True
  | t :: ts => Clear x t ∧ ClearAll x ts

def ClearBound (x : String) : Option (Scalar N) → Prop
  | none => True
  | some e => Clear x e

end

variable {x : String} {v : N} {a b e : Scalar N}

theorem pin_var_self : pin x v (var x) = assigned x v := by rw [pin, if_pos rfl]

theorem pin_var_of_ne (h : y ≠ x) : pin x v (var y) = var y := by rw [pin, if_neg h]

theorem pinAll_eq_map (ts : List (Scalar N)) : pinAll x v ts = ts.map (pin x v) := by
  induction ts with
  | nil => rfl
  | cons t ts ih => rw [pinAll, ih, map_cons]

variable {ts : List (Scalar N)}

theorem clearAll_iff : ClearAll x ts ↔ ∀ t ∈ ts, Clear x t := by
  induction ts with
  | nil => simp [ClearAll]
  | cons t ts ih => rw [ClearAll, ih, forall_mem_cons]

theorem length_pinAll (ts : List (Scalar N)) : (pinAll x v ts).length = ts.length := by
  rw [pinAll_eq_map, length_map]

theorem all_pinAll {p q : Scalar N → Bool}
    (h : ∀ t ∈ ts, p (t.pin x v) = q t) : (pinAll x v ts).all p = ts.all q := by
  induction ts with
  | nil => rfl
  | cons t ts ih =>
    rw [forall_mem_cons] at h
    rw [pinAll, all_cons, all_cons, h.1, ih h.2]

/-- The second expression is the first one with a parameter bound, which was not bound in it
before. -/
def Pins (x : String) (v : N) (a b : Scalar N) : Prop := a.Clear x ∧ b = a.pin x v

theorem pins_lit (w : N) : Pins x v (lit w) (lit w) := ⟨trivial, by rw [pin]⟩

theorem underNeg?_pin (e : Scalar N) : (e.pin x v).underNeg? = e.underNeg?.map (pin x v) := by
  cases e with
  | var y => by_cases h : y = x <;> simp [pin, underNeg?, h]
  | _ => simp [pin, underNeg?]

variable {w : N}

theorem pin_eq_lit : e.pin x v = lit w ↔ e = lit w := by
  cases e with
  | var y => by_cases h : y = x <;> simp [pin, h]
  | _ => simp [pin]

theorem pin_eq_neg_lit : e.pin x v = neg (lit w) ↔ e = neg (lit w) := by
  cases e with
  | var y => by_cases h : y = x <;> simp [pin, h]
  | neg e => simp [pin, pin_eq_lit]
  | _ => simp [pin]

variable [Arith N]

attribute [local simp] same canon substitute eval

theorem isLit_pin (d : Decimal) (e : Scalar N) : isLit d (e.pin x v) = isLit d e := by
  cases e with
  | var y => by_cases h : y = x <;> simp [pin, isLit, h]
  | _ => simp only [pin, isLit]

attribute [local simp] isLit_pin pin_eq_lit pin_eq_neg_lit

/-! ### Equality -/

-- The linter does not see an instance that is used only through the other theorems of a block.
set_option linter.unusedSectionVars false

variable [Arith.Exact N]

/-- Comparison with a free parameter, which may be the one that is bound. -/
theorem same_pin_var (ha : a.Clear x) (z : String) :
    same (a.pin x v) ((var z).pin x v) = same a (var z) := by
  cases a with
  | var y =>
    by_cases hy : y = x <;> by_cases hz : z = x <;>
      simp [pin, hy, hz, eq_comm (a := x), Arith.Exact.same_self]
  | assigned y w =>
    have hy : y ≠ x := ha
    by_cases hz : z = x <;> simp [pin, hz, hy]
  | _ => by_cases hz : z = x <;> simp [pin, hz]

mutual

theorem same_pin {a b : Scalar N} (ha : a.Clear x) (hb : b.Clear x) :
    same (a.pin x v) (b.pin x v) = same a b := by
  cases b
  case var z => exact same_pin_var ha z
  all_goals cases a <;> simp only [pin, same]
  case neg.neg b a => exact same_pin (a := a) (b := b) ha hb
  case add.add | mul.mul | div.div => rw [same_pin ha.1 hb.1, same_pin ha.2 hb.2]
  case min.min | max.max =>
    have hback := all_pinAll fun y hy => isIn_pin ha (clearAll_iff.mp hb y hy)
    rw [length_pinAll, length_pinAll, allIn_pin ha hb, hback]
  case slice.slice =>
    rw [same_pin ha.1 hb.1, sameBound_pin ha.2.1 hb.2.1, sameBound_pin ha.2.2 hb.2.2]
  case assigned.var z _ y =>
    have hz : z ≠ x := hb
    by_cases hy : y = x <;> simp [hy, hz.symm]
  all_goals split <;> simp only [same]

theorem sameBound_pin : ∀ {a b : Option (Scalar N)}, ClearBound x a → ClearBound x b →
    sameBound (pinBound x v a) (pinBound x v b) = sameBound a b
  | none, none, _, _ | none, some _, _, _ | some _, none, _, _ => by simp only [pinBound, sameBound]
  | some a, some b, ha, hb => by
    simp only [pinBound, sameBound, same_pin (a := a) (b := b) ha hb]

theorem allIn_pin : ∀ {xs ys : List (Scalar N)},
    ClearAll x xs → ClearAll x ys → allIn (pinAll x v xs) (pinAll x v ys) = allIn xs ys
  | [], _, _, _ => by simp only [pinAll, allIn]
  | a :: xs, ys, hxs, hys => by
    have hany : anySame (a.pin x v) (pinAll x v ys) = anySame a ys := by
      induction ys with
      | nil => simp only [pinAll, anySame]
      | cons b ys ih => rw [pinAll, anySame, anySame, same_pin hxs.1 hys.1, ih hys.2]
    rw [pinAll, allIn, allIn, hany, allIn_pin hxs.2 hys]

theorem isIn_pin : ∀ {xs : List (Scalar N)} {y : Scalar N},
    ClearAll x xs → y.Clear x → isIn (pinAll x v xs) (y.pin x v) = isIn xs y
  | [], _, _, _ => by simp only [pinAll, isIn]
  | a :: xs, y, hxs, hy => by
    rw [pinAll, isIn, isIn, same_pin hxs.1 hy, isIn_pin hxs.2 hy]

end

theorem sameOption_underNeg?_pin {l r : Scalar N} (hl : l.Clear x)
    (hr : r.Clear x) : sameOption same (l.pin x v).underNeg? (some (r.pin x v)) =
      sameOption same l.underNeg? (some r) := by
  rw [underNeg?_pin]
  cases l with
  | neg l =>
    simpa [underNeg?, sameOption] using same_pin (a := l) hl hr
  | _ => rfl

/-! ### Canonical form -/

def PinsAll (x : String) (v : N) (ts ts' : List (Scalar N)) : Prop :=
  ClearAll x ts ∧ ts' = pinAll x v ts

theorem insertTerm_pin {terms terms' : List (Scalar N)} {t : Scalar N}
    (h : PinsAll x v terms terms') (ht : t.Clear x) :
    PinsAll x v (insertTerm terms t) (insertTerm terms' (t.pin x v)) := by
  obtain ⟨hterms, rfl⟩ := h
  have hsame : (pinAll x v terms).any (same · (t.pin x v)) = terms.any (same · t) := by
    rw [pinAll_eq_map, any_map]
    rw [Bool.eq_iff_iff, any_eq_true, any_eq_true]
    refine exists_congr fun u => and_congr_right fun hu => ?_
    rw [Function.comp_apply, same_pin (clearAll_iff.mp hterms u hu) ht]
  rw [insertTerm, insertTerm, hsame]
  split
  · exact ⟨hterms, rfl⟩
  · refine ⟨clearAll_iff.mpr ?_, by simp [pinAll_eq_map]⟩
    rw [forall_mem_append]
    exact ⟨clearAll_iff.mp hterms, by simpa using ht⟩

theorem termSet_pin (hts : ClearAll x ts) : PinsAll x v (termSet ts) (termSet (pinAll x v ts)) := by
  -- The terms seen so far are bound alike.
  suffices h : ∀ (ts seen seen' : List (Scalar N)), ClearAll x ts → PinsAll x v seen seen' →
      PinsAll x v (ts.foldl insertTerm seen) ((pinAll x v ts).foldl insertTerm seen') from
    h ts [] [] hts ⟨trivial, rfl⟩
  intro ts
  induction ts with
  | nil => exact fun _ _ _ hseen => hseen
  | cons t ts ih => exact fun _ _ hts hseen => ih _ _ hts.2 (insertTerm_pin hseen hts.1)

theorem ofTerms_pin {node : List (Scalar N) → Scalar N}
    (hnode : ∀ ts, ClearAll x ts → Pins x v (node ts) (node (pinAll x v ts)))
    (hts : ClearAll x ts) : Agree (Pins x v) (ofTerms node ts) (ofTerms node (pinAll x v ts)) := by
  obtain ⟨hclear, hset⟩ := termSet_pin hts
  rw [ofTerms, ofTerms, hset]
  generalize termSet ts = us at hclear ⊢
  rcases us with _ | ⟨t, _ | ⟨u, us⟩⟩
  · exact .error _
  · exact .ok ⟨hclear.1, rfl⟩
  · exact .ok (hnode _ hclear)

theorem canonAll_pin (ts : List (Scalar N)) (hts : ClearAll x ts)
    (h : ∀ t ∈ ts, t.Clear x → Agree (Pins x v) (canon t) (canon (t.pin x v))) :
    Agree (PinsAll x v) (canonAll ts) (canonAll (pinAll x v ts)) := by
  induction ts with
  | nil =>
    rw [pinAll, canonAll]
    exact .ok ⟨hts, rfl⟩
  | cons t ts ih =>
    obtain ⟨ht, h⟩ := forall_mem_cons.mp h
    rw [pinAll, canonAll, canonAll]
    exact (ht hts.1).both (ih hts.2 h) fun t ts ht hts => ⟨⟨ht, hts⟩, by rw [pinAll]⟩

theorem agree_lit (o : Outcome N) :
    Agree (Pins x v) (do return lit (← o)) (do return lit (← o)) := by
  cases o with
  | error fault => exact .error fault
  | ok w => exact .ok (pins_lit w)

theorem canon_pin {e : Scalar N} (h : e.Clear x) :
    Agree (Pins x v) (canon e) (canon (e.pin x v)) := by
  have ih : ∀ p ∈ parts e, p.Clear x → Agree (Pins x v) (canon p) (canon (p.pin x v)) :=
    fun p hp hclear => canon_pin hclear
  fun_cases canon e
  case case27 ts | case28 ts =>
    rw [pin, canon]
    apply (canonAll_pin ts h ih).bind
    rintro _ _ ⟨hts, rfl⟩
    exact ofTerms_pin (fun _ h => ⟨h, by rw [pin]⟩) hts
  case case2 w =>
    rw [pin, pin, canon]
    rcases Arith.lt w Arith.zero with fault | _ | _
    · exact .error fault
    · exact .ok ⟨h, by rw [pin, pin]⟩
    · exact agree_lit _
  case case29 =>
    have hpin : canon (e.pin x v) = .ok (e.pin x v) := by
      cases e with
      | neg p =>
        cases p <;> simp_all [pin]
        split <;> simp
      | _ => simp_all [pin] <;> split <;> simp
    rw [hpin]
    exact .ok ⟨h, rfl⟩
  -- It goes on with an operand.
  case case1 | case6 | case8 | case10 | case11 | case17 | case18 | case25 =>
    simp_all [pin, parts, Clear]
  case case12 | case19 | case24 =>
    simp_all [pin, sameOption_underNeg?_pin h.1 h.2, sameOption_underNeg?_pin h.2 h.1]
    exact .ok (pins_lit _)
  case case13 | case20 | case26 =>
    simp_all [pin, sameOption_underNeg?_pin h.1 h.2, sameOption_underNeg?_pin h.2 h.1]
    exact .ok ⟨h, by rw [pin]⟩
  -- The operands are literals, or opposites of literals.
  all_goals
    simp_all [pin]
    first | exact .ok (pins_lit _) | exact agree_lit _
termination_by sizeOf e
decreasing_by exact sizeOf_lt_of_mem_parts hp

/-! ### Substitution and values -/

theorem opposite_pin (h : a.Clear x) : Agree (Pins x v) (opposite a) (opposite (a.pin x v)) := by
  simpa only [opposite, pin] using canon_pin (e := neg a) h

section

variable (ha : a.Clear x) (hb : b.Clear x)

include ha hb

theorem plus_pin : Agree (Pins x v) (plus a b) (plus (a.pin x v) (b.pin x v)) := by
  simpa only [plus, pin] using canon_pin (e := add a b) ⟨ha, hb⟩

theorem times_pin : Agree (Pins x v) (times a b) (times (a.pin x v) (b.pin x v)) := by
  simpa only [times, pin] using canon_pin (e := mul a b) ⟨ha, hb⟩

theorem dividedBy_pin : Agree (Pins x v) (dividedBy a b) (dividedBy (a.pin x v) (b.pin x v)) := by
  simpa only [dividedBy, pin] using canon_pin (e := div a b) ⟨ha, hb⟩

theorem minus_pin : Agree (Pins x v) (minus a b) (minus (a.pin x v) (b.pin x v)) := by
  apply (opposite_pin hb).bind
  rintro c _ ⟨hc, rfl⟩
  exact plus_pin ha hc

theorem termSet_pair_pin : PinsAll x v (termSet [a, b]) (termSet [a.pin x v, b.pin x v]) :=
  termSet_pin (show ClearAll x [a, b] from ⟨ha, hb, trivial⟩)

theorem lesser_pin : Agree (Pins x v) (lesser a b) (lesser (a.pin x v) (b.pin x v)) := by
  obtain ⟨hclear, hset⟩ := termSet_pair_pin (v := v) ha hb
  simpa only [lesser, pin, hset] using canon_pin (e := min (termSet [a, b])) hclear

theorem greater_pin : Agree (Pins x v) (greater a b) (greater (a.pin x v) (b.pin x v)) := by
  obtain ⟨hclear, hset⟩ := termSet_pair_pin (v := v) ha hb
  simpa only [greater, pin, hset] using canon_pin (e := max (termSet [a, b])) hclear

end

variable {env env' : Env N} (henv : env.Supplies x v env')

include henv

theorem substitute_supplies : ∀ {e : Scalar N}, e.Clear x →
      Agree (Pins x v) (substitute env e) (substitute env' e)
  | lit w, _ => .ok (pins_lit w)
  | var y, h => by
    rw [substitute, substitute]
    by_cases hy : y = x
    · subst hy
      simp only [henv.absent, henv.lookup_self, Param.stored?, Arith.Exact.stored_eq]
      exact .ok ⟨h, pin_var_self.symm⟩
    · rw [henv.lookup_of_ne hy]
      cases env.lookup y with
      | none => exact .ok ⟨h, (pin_var_of_ne hy).symm⟩
      | some q =>
        refine .self fun e he => ?_
        obtain ⟨w, -, he⟩ := bind_eq_ok.mp he
        cases he
        exact ⟨hy, by rw [pin]⟩
  | assigned y w, h => by
    rw [substitute, substitute, henv.has_of_ne h]
    refine .self fun e he => ?_
    split at he
    · cases he
    · cases he
      exact ⟨h, by rw [pin]⟩
  | neg e, h => by
    rw [substitute, substitute]
    apply (substitute_supplies (e := e) h).bind
    rintro a _ ⟨ha, rfl⟩
    exact opposite_pin ha
  | add a b, h | mul a b, h | div a b, h => by
    rw [substitute, substitute]
    apply (substitute_supplies h.1).bind₂ (substitute_supplies h.2)
    rintro a _ ⟨ha, rfl⟩ b _ ⟨hb, rfl⟩
    first | exact plus_pin ha hb | exact times_pin ha hb | exact dividedBy_pin ha hb
  | min _, _ | max _, _ | slice _ _ _, _ => .error _

theorem assign_supplies (h : e.Clear x) : Agree (Pins x v) (assign env e) (assign env' e) := by
  apply (substitute_supplies henv h).bind
  rintro a _ ⟨ha, rfl⟩
  exact canon_pin ha

theorem substitute_pin :
    ∀ {e : Scalar N}, e.Clear x → substitute env (e.pin x v) = substitute env' e
  | lit _, _ => by simp only [pin, substitute]
  | var y, _ => by
    by_cases hy : y = x
    · subst hy
      simp [pin_var_self, substitute, henv.has_self, henv.lookup_self, Param.stored?,
        Arith.Exact.stored_eq]
    · rw [pin_var_of_ne hy, substitute, substitute, henv.lookup_of_ne hy]
  | assigned y w, h => by rw [pin, substitute, substitute, henv.has_of_ne h]
  | neg e, h => by rw [pin, substitute, substitute, substitute_pin (e := e) h]
  | add a b, h | mul a b, h | div a b, h => by
    rw [pin, substitute, substitute, substitute_pin h.1, substitute_pin h.2]
  | min _, _ | max _, _ | slice _ _ _, _ => by rw [pin, substitute, substitute]

theorem assign_pin (h : e.Clear x) : assign env (e.pin x v) = assign env' e := by
  rw [assign, assign, substitute_pin henv h]

mutual

/-- A bound parameter has the value that it would have if it were supplied. -/
theorem eval_pin : ∀ {e : Scalar N}, e.Clear x → eval env (e.pin x v) = eval env' e
  | lit _, _ => by simp [pin]
  | var y, _ => by
    by_cases hy : y = x
    · subst hy
      simp [pin_var_self, henv.has_self, henv.lookup_self, Param.number?, Arith.Exact.decimal_eq]
    · rw [pin_var_of_ne hy, eval, eval, henv.lookup_of_ne hy]
  | assigned y w, h => by rw [pin, eval, eval, henv.has_of_ne h]
  | neg e, h => by rw [pin, eval, eval, eval_pin (e := e) h]
  | add a b, h | mul a b, h | div a b, h => by
    rw [pin, eval, eval, eval_pin h.1, eval_pin h.2]
  | min ts, h | max ts, h => by rw [pin, eval, eval, evalAll_pin h]
  | slice e s t, h => by
    rw [pin, eval, eval, eval_pin h.1, evalBound_pin h.2.1, evalBound_pin h.2.2]

theorem evalAll_pin :
    ∀ {ts : List (Scalar N)}, ClearAll x ts → evalAll env (pinAll x v ts) = evalAll env' ts
  | [], _ => by simp only [pinAll, evalAll]
  | t :: ts, h => by rw [pinAll, evalAll, evalAll, eval_pin h.1, evalAll_pin h.2]

theorem evalBound_pin :
    ∀ {s : Option (Scalar N)}, ClearBound x s → evalBound env (pinBound x v s) = evalBound env' s
  | none, _ => by simp only [pinBound, evalBound]
  | some e, h => by rw [pinBound, evalBound, evalBound, eval_pin (e := e) h]

end

end Scalar

end AtomArray
