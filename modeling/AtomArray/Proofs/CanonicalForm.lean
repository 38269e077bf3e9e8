import AtomArray.Proofs.Canonical
import AtomArray.Proofs.SavedScalar

/-!
Canonical forms of scalar expressions.

Simplifying goes on with a part of an expression, gives a literal, or changes nothing; a minimum or
maximum is built anew from the canonical forms of its terms (`Scalar.canon_cases`). So simplifying
again changes nothing (`Scalar.canon_comesTo`).
-/

namespace AtomArray

open List Outcome

namespace Scalar

variable {N : Type} [Arith N] {e u : Scalar N} {ts us vs : List (Scalar N)}
  {node : List (Scalar N) → Scalar N} {op : Scalar N → Scalar N → Outcome (Scalar N)}

/-! ### Sets of terms -/

theorem distinct_append {s : Scalar N} :
    distinct (ts ++ [s]) ↔ distinct ts ∧ ∀ t ∈ ts, same t s = false := by
  induction ts with
  | nil => simp [distinct]
  | cons t ts ih =>
    simp only [cons_append, distinct, Bool.and_eq_true, ih, all_append, all_cons, all_nil,
      Bool.and_true, Bool.not_eq_true', forall_mem_cons]
    tauto

theorem distinct_termSet (ts : List (Scalar N)) : distinct (termSet ts) := by
  suffices h : ∀ acc : List (Scalar N), distinct acc →
      distinct (ts.foldl insertTerm acc) from h [] rfl
  induction ts with
  | nil => exact fun _ => id
  | cons t ts ih =>
    intro acc hacc
    apply ih
    rw [insertTerm]
    split
    · exact hacc
    · rename_i hnew
      exact distinct_append.mpr ⟨hacc, by simpa using hnew⟩

theorem mem_of_mem_termSet (h : u ∈ termSet vs) : u ∈ vs := by
  simpa using (foldl_insertTerm_spec vs []).1 u h

theorem canonAll_eq_ok : canonAll ts = .ok us ↔ Forall₂ (fun t u => canon t = .ok u) ts us := by
  induction ts generalizing us with
  | nil => simp [canonAll, eq_comm]
  | cons t ts ih =>
    rw [canonAll, both_eq_ok, forall₂_cons_left_iff]
    grind

/-! ### Steps of simplification -/

/-- Minima and maxima, each with the operation that builds one. -/
inductive Extreme :
    (List (Scalar N) → Scalar N) → (Scalar N → Scalar N → Outcome (Scalar N)) → Prop where
  | min : Extreme min lesser
  | max : Extreme max greater

theorem Extreme.canon_eq (h : Extreme node op) (ts : List (Scalar N)) :
    canon (node ts) = canonAll ts >>= ofTerms node := by
  cases h <;> rw [canon]

/-- Simplifying goes on with a part, gives a literal or a fault, changes nothing, or builds a
minimum or maximum anew. -/
theorem canon_cases (e : Scalar N) :
    (∃ p ∈ parts e, canon e = canon p) ∨ (∃ x : Outcome N, canon e = do return lit (← x)) ∨
      (canon e = .ok e ∧ ∀ {node op}, Extreme node op → ∀ ts, e ≠ node ts) ∨
        ∃ node op ts, Extreme node op ∧ e = node ts := by
  fun_cases canon e
  case case2 v =>
    -- only the sign of a literal is found out by the arithmetic
    rcases Arith.lt v Arith.zero with fault | _ | _
    · exact .inr (.inl ⟨.error fault, rfl⟩)
    · exact .inr (.inr (.inl ⟨rfl, by rintro _ _ ⟨⟩ <;> simp⟩))
    · exact .inr (.inl ⟨Arith.neg v, rfl⟩)
  case case27 | case28 => exact .inr (.inr (.inr ⟨_, _, _, by constructor, rfl⟩))
  case case13 | case20 | case26 => exact .inr (.inr (.inl ⟨rfl, by rintro _ _ ⟨⟩ <;> simp⟩))
  case case29 => exact .inr (.inr (.inl ⟨rfl, by rintro _ _ ⟨⟩ <;> simp_all⟩))
  case case1 | case6 | case8 | case10 | case11 | case17 | case18 | case25 =>
    exact .inl ⟨_, by simp [parts], rfl⟩
  case case5 | case7 | case9 | case16 | case23 => exact .inr (.inl ⟨_, rfl⟩)
  all_goals exact .inr (.inl ⟨.ok _, rfl⟩)

/-! ### Whole expressions -/

/-- An expression is another, or a part of it at some depth. -/
def Within : Scalar N → Scalar N → Prop := Relation.ReflTransGen fun p e => p ∈ parts e

/-- The second expression is final. If it is a minimum or maximum, then the first is simplified as
one that occurs in it, the canonical forms of whose terms are the terms of the second. -/
def ComesTo (e u : Scalar N) : Prop :=
  canon u = .ok u ∧ ∀ {node op}, Extreme node op → ∀ us, u = node us → ∃ ts vs,
    Within (node ts) e ∧ canon e = canon (node ts) ∧ canonAll ts = .ok vs ∧ us = termSet vs

theorem ComesTo.of_part {p : Scalar N} (h : p.ComesTo u) (hp : p ∈ parts e)
    (hc : canon e = canon p) : e.ComesTo u := by
  refine ⟨h.1, fun hnode us hus => ?_⟩
  obtain ⟨ts, vs, hts, hcanon, hvs⟩ := h.2 hnode us hus
  exact ⟨ts, vs, hts.tail hp, hc.trans hcanon, hvs⟩

theorem Extreme.comesTo (hnode : Extreme node op) (hu : canon (node ts) = .ok u)
    (hts : ∀ t ∈ parts (node ts), ∀ v, canon t = .ok v → t.ComesTo v) : (node ts).ComesTo u := by
  have hparts : parts (node ts) = ts := by cases hnode <;> rfl
  rw [hnode.canon_eq] at hu
  obtain ⟨vs, hvs, hu⟩ := bind_eq_ok.mp hu
  have hterm : ∀ v ∈ termSet vs, ∃ t ∈ parts (node ts), canon t = .ok v := by
    rw [hparts]
    exact fun v hv =>
      exists_of_mem_forall₂ (canonAll_eq_ok.mp hvs).flip (mem_of_mem_termSet hv)
  rw [ofTerms] at hu
  split at hu
  · cases hu
  · rename_i hone
    cases hu
    obtain ⟨t, ht, htu⟩ := hterm u (by simp [hone])
    refine (hts t ht u htu).of_part ht ?_
    rw [hnode.canon_eq, hvs, ok_bind, htu, ofTerms, hone]
  · cases hu
    refine ⟨?_, fun {node' _} hnode' us hus => ?_⟩
    · have hfinal : canonAll (termSet vs) = .ok (termSet vs) := by
        refine canonAll_eq_ok.mpr (forall₂_same.mpr fun v hv => ?_)
        obtain ⟨t, ht, htv⟩ := hterm v hv
        exact (hts t ht v htv).1
      rw [hnode.canon_eq, hfinal, ok_bind, ofTerms, termSet_of_distinct (distinct_termSet vs)]
      split <;> simp_all
    · obtain ⟨rfl, rfl⟩ : node = node' ∧ termSet vs = us := by
        cases hnode <;> cases hnode' <;> simp_all
      exact ⟨ts, vs, .refl, rfl, hvs, rfl⟩

theorem canon_comesTo {e u : Scalar N} (h : canon e = .ok u) : e.ComesTo u := by
  have ih : ∀ p ∈ parts e, ∀ v, canon p = .ok v → p.ComesTo v := fun p hp v hv => canon_comesTo hv
  rcases canon_cases e with ⟨p, hp, hc⟩ | ⟨x, hx⟩ | ⟨hself, he⟩ | ⟨node, op, ts, hnode, rfl⟩
  · exact (ih p hp u (hc ▸ h)).of_part hp hc
  · obtain ⟨v, -, ⟨⟩⟩ := bind_eq_ok.mp (hx.symm.trans h)
    exact ⟨by simp [canon], by rintro _ _ ⟨⟩ <;> simp⟩
  · obtain rfl := Except.ok.inj (hself.symm.trans h)
    exact ⟨hself, fun hnode us hus => absurd hus (he hnode us)⟩
  · exact hnode.comesTo h ih
termination_by sizeOf e
decreasing_by exact sizeOf_lt_of_mem_parts hp

/-- **Canonical form is final and sound.** Simplifying again changes nothing, in any arithmetic, and
in exact arithmetic the value stays wherever there is one. -/
theorem canon_final : (∀ e u : Scalar N, canon e = .ok u → canon u = .ok u) ∧
    ∀ e u : Scalar Rat, canon e = .ok u → ∀ env v, eval env e = .ok v → eval env u = .ok v := by
  refine ⟨fun e u h => (canon_comesTo h).1, fun e u h env v hv => ?_⟩
  obtain ⟨u', hu', hvalue⟩ := canon_keeps e v hv
  obtain rfl := Except.ok.inj (h.symm.trans hu')
  exact hvalue

/-- A sum with zero that is negated twice. Its minimum has one term in two forms. -/
theorem canon_final_nested : ∃ u : Scalar Rat,
    canon (neg (neg (add (lit 0) (min [var "a", mul (lit 1) (var "a"), lit 2])))) = .ok u ∧
      canon u = .ok u ∧ eval [("a", .whole 1)] u = .ok 1 := by
  have h : canon (neg (neg (add (lit 0) (min [var "a", mul (lit 1) (var "a"), lit 2])))) =
      .ok (min [var "a", lit (2 : Rat)]) := by
    simp [canon, canonAll, isLit, ofTerms, termSet, insertTerm, same]
  exact ⟨_, h, canon_final.1 _ _ h, (canon_final (N := Rat)).2 _ _ h _ _ (by with_unfolding_all rfl)⟩

/-! ### Nested minima -/

/-- No term is a minimum, or a maximum, itself. -/
def Flat (node : List (Scalar N) → Scalar N) (ts : List (Scalar N)) : Prop :=
  ∀ t ∈ ts, ∀ xs, t ≠ node xs

theorem Extreme.flat_termSet (h : Extreme node op) : Flat node (termSet vs) ↔ Flat node vs := by
  refine ⟨fun hflat v hv xs hxs => ?_, fun hflat v hv => hflat v (mem_of_mem_termSet hv)⟩
  obtain ⟨u, hu, rfl | hsame⟩ := (foldl_insertTerm_spec vs []).2.2 v hv
  · exact hflat u hu xs hxs
  · subst hxs
    cases h <;> cases u <;> simp [same] at hsame <;> exact hflat _ hu _ rfl

theorem Extreme.pair_eq (h : Extreme node op) {name : String} (hu : canon u = .ok u)
    (hne : same u (var name) = false) : op u (var name) = .ok (node [u, var name]) ∧
      canon (node [u, var name]) = .ok (node [u, var name]) := by
  have hset : termSet [u, var name] = [u, var name] := by simp [termSet, insertTerm, hne]
  have hop : op u (var name) = canon (node (termSet [u, var name])) := by cases h <;> rfl
  have hall : canonAll [u, var name] = .ok [u, var name] := by simp [canonAll, hu, canon]
  rw [hop, hset, h.canon_eq, hall, ok_bind, ofTerms, hset]
  exact ⟨rfl, rfl⟩

/-- Names one after the other, each beside the minimum or maximum of those before. -/
def nested (node : List (Scalar N) → Scalar N) (e : Scalar N) (names : List String) : Scalar N :=
  names.foldl (fun acc name => node [acc, var name]) e

theorem Extreme.foldlM_eq (h : Extreme node op) {names : List String} (hu : canon u = .ok u)
    (hne : ∀ name ∈ names, same u (var name) = false) :
    names.foldlM (fun acc name => op acc (var name)) u = .ok (nested node u names) := by
  induction names generalizing u with
  | nil => rfl
  | cons name names ih =>
    obtain ⟨hop, hfinal⟩ := h.pair_eq hu (hne name mem_cons_self)
    rw [foldlM_cons, hop, ok_bind]
    exact ih hfinal fun other _ => by cases h <;> simp [same]

/-- **Minima and maxima are not merged.** What becomes one has the canonical forms of the terms of
one that it was, and is flat exactly if these are. Names that are added one by one nest, so that the
result is flat for two names only. -/
theorem nested_terms_stay (h : Extreme node op) :
    (∀ e us, canon e = .ok (node us) → ∃ ts vs, Within (node ts) e ∧ canon e = canon (node ts) ∧
      canonAll ts = .ok vs ∧ us = termSet vs ∧ (Flat node us ↔ Flat node vs)) ∧
    ∀ x y names, (x :: y :: names).Nodup → ∃ us,
      (y :: names).foldlM (fun acc name => op acc (var name)) (var x) = .ok (node us) ∧
        node us = nested node (node [var x, var y]) names ∧ (Flat node us ↔ names = []) := by
  constructor
  · intro e us hus
    obtain ⟨ts, vs, hwithin, hcanon, hvs, rfl⟩ := (canon_comesTo hus).2 h us rfl
    exact ⟨ts, vs, hwithin, hcanon, hvs, rfl, h.flat_termSet⟩
  · intro x y names hnames
    have hne : ∀ name ∈ y :: names, same (var x : Scalar N) (var name) = false := by
      intro name hname
      have hne : x ≠ name := fun heq => (nodup_cons.mp hnames).1 (heq ▸ hname)
      simp [same, hne]
    have hfold := h.foldlM_eq (by simp [canon]) hne
    rcases names.eq_nil_or_concat with rfl | ⟨before, last, rfl⟩
    · refine ⟨[var x, var y], hfold, rfl, fun _ => rfl, fun _ t ht xs => ?_⟩
      obtain rfl | rfl := by simpa using ht
      all_goals cases h <;> simp
    · refine ⟨[nested node (node [var x, var y]) before, var last], ?_, ?_, ?_⟩
      · rw [hfold]
        simp [nested]
      · simp [nested]
      · have hnode : ∃ xs, nested node (node [var x, var y]) before = node xs := by
          rcases before.eq_nil_or_concat with rfl | ⟨before, last, rfl⟩
          · exact ⟨_, rfl⟩
          · exact ⟨[nested node (node [var x, var y]) before, var last], by simp [nested]⟩
        obtain ⟨xs, hxs⟩ := hnode
        simpa using fun hflat : Flat node _ => hflat _ mem_cons_self xs hxs

/-- The least of three names, built one after the other, is a minimum with a minimum in it. -/
theorem three_names_nested : ∃ us : List (Scalar Rat),
    ["b", "c"].foldlM (fun acc name => lesser acc (var name)) (var "a") = .ok (min us) ∧
      ¬Flat min us := by
  obtain ⟨us, hus, -, hflat⟩ := (nested_terms_stay (N := Rat) .min).2 "a" "b" ["c"] (by decide)
  exact ⟨us, hus, fun h => by simpa using hflat.mp h⟩

/-- A minimum in a minimum stays where it is. -/
theorem nested_min_not_merged :
    canon (min [min [var "a", var "b"], var "c"]) =
        .ok (min [min [var "a", var "b"], var "c"] : Scalar Rat) ∧
      ¬Flat min [min [var "a", var "b"], (var "c" : Scalar Rat)] :=
  ⟨by simp [canon, canonAll, ofTerms, termSet, insertTerm, same],
    fun h => h _ mem_cons_self _ rfl⟩

end Scalar

end AtomArray
