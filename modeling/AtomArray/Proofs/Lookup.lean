import AtomArray.Scalar.Basic
import Mathlib.Data.List.Nodup

/-!
Lists of pairs in which things are looked up by their first component.

What is found is an item of the list (`mem_of_lookup`); when no first component occurs twice, every
item is found (`lookup_of_mem`).
-/

namespace AtomArray

open List

variable {κ β : Type} [BEq κ] [LawfulBEq κ] {l : List (κ × β)} {k : κ} {b : β}

theorem lookup_eq_none : l.lookup k = none ↔ k ∉ l.map Prod.fst := by
  simp only [lookup_eq_none_iff, mem_map, not_exists, not_and]
  exact forall₂_congr fun p _ => by rw [bne_iff_ne, ne_comm]

theorem mem_of_lookup (h : l.lookup k = some b) : (k, b) ∈ l := by
  obtain ⟨l₁, l₂, rfl, -⟩ := lookup_eq_some_iff.mp h
  simp

theorem lookup_cons_ite [DecidableEq κ] (j : κ) (c : β) :
    ((j, c) :: l).lookup k = if k = j then some c else l.lookup k := by
  by_cases h : k = j
  · simp [h]
  · simp [lookup_cons, beq_false_of_ne h, h]

theorem lookup_of_mem (hl : (l.map Prod.fst).Nodup) (h : (k, b) ∈ l) : l.lookup k = some b := by
  induction l with
  | nil => cases h
  | cons p l ih =>
    obtain ⟨j, c⟩ := p
    obtain ⟨hj, hl⟩ := nodup_cons.mp hl
    rcases mem_cons.mp h with heq | hmem
    · cases heq
      rw [lookup_cons, beq_self_eq_true]
    · have hne : (k == j) = false :=
        beq_false_of_ne fun heq => hj (mem_map.mpr ⟨_, hmem, heq⟩)
      rw [lookup_cons, hne]
      exact ih hl hmem

/-- Parts of a list that are taken by keys make up what has one of the keys. -/
theorem perm_flatMap_filter {α κ : Type} [DecidableEq κ] {f : α → κ} {ks : List κ}
    (hks : ks.Nodup) {p : α → Bool} {xs : List α} (hp : ∀ x ∈ xs, p x = true ↔ f x ∈ ks) :
    (ks.flatMap fun k => xs.filter (f · = k)).Perm (xs.filter p) := by
  induction ks generalizing p with
  | nil => rw [flatMap_nil, filter_eq_nil_iff.mpr fun x hx => by simpa using hp x hx]
  | cons k ks ih =>
    obtain ⟨hk, hks⟩ := nodup_cons.mp hks
    have hsplit := filter_append_perm (f · = k) (xs.filter p)
    rw [filter_filter, filter_filter] at hsplit
    rw [flatMap_cons]
    refine .trans (.append (.of_eq ?_) (ih hks fun x hx => ?_)) hsplit
    · refine filter_congr fun x hx => ?_
      grind
    · grind

theorem Json.insert_of_not_mem {α : Type} {key : String} {a : α} {ms : List (String × α)}
    (h : key ∉ ms.map Prod.fst) : insert key a ms = ms ++ [(key, a)] := by
  induction ms with
  | nil => rfl
  | cons m ms ih =>
    rw [map_cons, mem_cons, not_or] at h
    rw [insert, if_neg (Ne.symm h.1), ih h.2, cons_append]

theorem Env.lookup_insert {N : Type} (env : Env N) (name key : String) (p : Param N) :
    (env.insert name p).lookup key = if key = name then some p else env.lookup key := by
  unfold Env.insert
  induction env with
  | nil => exact lookup_cons_ite name p
  | cons kv env ih =>
    obtain ⟨k, v⟩ := kv
    rw [Json.insert]
    by_cases hk : k = name
    · subst hk
      rw [if_pos rfl, lookup_cons_ite, lookup_cons_ite]
      split <;> rfl
    · rw [if_neg hk, lookup_cons_ite, lookup_cons_ite, ih]
      by_cases h : key = k
      · rw [if_pos h, if_pos h, if_neg (h ▸ hk)]
      · rw [if_neg h, if_neg h]

end AtomArray
