import AtomArray.Fault
import Mathlib.Data.List.Forall2

/-!
Reading outcomes apart.

A computation that reports an `Outcome` succeeds exactly when each of its steps does. The lemmas
here take a computation apart without unfolding it.

Two computations are compared by `Outcome.Agree`: they report the same fault, or results that are
related.
-/

namespace AtomArray

open List

namespace Outcome

variable {α β : Type}
variable {f : α → Outcome β} {xs : List α}

/-- Two steps succeed together when the second succeeds on what the first gave. -/
theorem bind_eq_ok {x : Outcome α} {b : β} : (x >>= f) = .ok b ↔ ∃ a, x = .ok a ∧ f a = .ok b := by
  cases x <;> simp [bind, Except.bind]

variable {γ : Type}

theorem bind₂_eq_ok {x : Outcome α} {f : α → β → Outcome γ} {y : α → Outcome β} {c : γ} :
    (x >>= fun a => y a >>= f a) = .ok c ↔ ∃ a b, x = .ok a ∧ y a = .ok b ∧ f a b = .ok c := by
  simp [bind_eq_ok]

theorem both_eq_ok {x : Outcome α} {y : Outcome β} {f : α → β → γ} {c : γ} :
    (do return f (← x) (← y)) = Except.ok c ↔ ∃ a b, x = .ok a ∧ y = .ok b ∧ c = f a b :=
  bind₂_eq_ok.trans (by simp [pure, Except.pure, eq_comm])

@[simp] theorem ok_bind (a : α) (f : α → Outcome β) : (Except.ok a >>= f) = f a := rfl

@[simp] theorem error_bind (e : Fault) (f : α → Outcome β) :
    ((Except.error e : Outcome α) >>= f) = .error e := rfl

@[simp] theorem pure_eq_ok (a : α) : (pure a : Outcome α) = .ok a := rfl

theorem return_eq_ok {a b : α} : (pure a : Outcome α) = .ok b ↔ a = b := by simp

@[simp] theorem throw_eq_error (e : Fault) : (throw e : Outcome α) = .error e := rfl

/-- A check that refuses is passed exactly when there is nothing to refuse. -/
@[simp] theorem refuse_eq_ok {refused : Prop} [Decidable refused] {fault : Fault}
    {rest : Outcome α} {a : α} :
    (if refused then .error fault else rest) = .ok a ↔ ¬refused ∧ rest = .ok a := by
  split <;> simp [*]

/-- A step that is known to give `g x` at every item `x` maps `g` over the list. -/
theorem mapM_eq_ok {f : α → Outcome β} {g : α → β} :
    ∀ {xs : List α}, (∀ x ∈ xs, f x = .ok (g x)) → xs.mapM f = .ok (xs.map g)
  | [], _ => rfl
  | x :: xs, h => by
      have ih := mapM_eq_ok fun y hy => h y (mem_cons_of_mem x hy)
      rw [mapM_cons, h x mem_cons_self, ih]
      rfl

/-- A step taken at every item of a list succeeds exactly when it does at each item. -/
theorem mapM_eq_ok_iff {ys : List β} :
    xs.mapM f = .ok ys ↔ Forall₂ (fun x y => f x = .ok y) xs ys := by
  induction xs generalizing ys with
  | nil => simp [eq_comm]
  | cons x xs ih =>
    simp only [mapM_cons, bind_eq_ok, return_eq_ok]
    constructor
    · rintro ⟨y, hy, zs, hzs, rfl⟩
      exact .cons hy (ih.mp hzs)
    · rintro (_ | ⟨hy, hzs⟩)
      exact ⟨_, hy, _, ih.mpr hzs, rfl⟩

/-- A step that fails with the same fault wherever it fails, and does fail somewhere. -/
theorem mapM_eq_error {e : Fault}
    (h : ∀ x ∈ xs, (∃ y, f x = .ok y) ∨ f x = .error e) (hfails : ∃ x ∈ xs, f x = .error e) :
    xs.mapM f = .error e := by
  induction xs with
  | nil => simp at hfails
  | cons x xs ih =>
    rw [forall_mem_cons] at h
    rw [mapM_cons]
    rcases h.1 with ⟨y, hy⟩ | hx
    · have hrest : ∃ z ∈ xs, f z = .error e := by simpa [hy] using hfails
      rw [hy, ok_bind, ih h.2 hrest]
      rfl
    · rw [hx]
      rfl

/-- Two steps taken at every item of a list, one after the other. -/
theorem mapM_mapM {g : β → Outcome γ} {ys : List β}
    {zs : List γ} (hf : xs.mapM f = .ok ys) (hg : ys.mapM g = .ok zs) :
    xs.mapM (fun x => f x >>= g) = .ok zs := by
  rw [mapM_eq_ok_iff] at hf hg ⊢
  induction hf generalizing zs with
  | nil =>
    cases hg
    exact .nil
  | cons hx _ ih =>
    obtain _ | ⟨hy, hzs⟩ := hg
    exact .cons (bind_eq_ok.mpr ⟨_, hx, hy⟩) (ih hzs)

/-- A step that succeeds at every item of a list succeeds at all of them in a row. -/
theorem exists_mapM_eq_ok {P : α → β → Prop}
    (h : ∀ x ∈ xs, ∃ y, f x = .ok y ∧ P x y) : ∃ ys, xs.mapM f = .ok ys ∧ Forall₂ P xs ys := by
  induction xs with
  | nil => exact ⟨[], rfl, .nil⟩
  | cons x xs ih =>
    obtain ⟨⟨y, hy, hxy⟩, hxs⟩ := forall_mem_cons.mp h
    obtain ⟨ys, hys, hall⟩ := ih hxs
    exact ⟨y :: ys, by rw [mapM_cons, hy, hys]; rfl, .cons hxy hall⟩

variable {f : β → α → Outcome β}

/-- Steps that are known to give `g b x`, while what is carried along has a property, fold `g` over
the list. -/
theorem foldlM_eq_ok {g : β → α → β} {P : β → Prop}
    (h : ∀ b, P b → ∀ x ∈ xs, f b x = .ok (g b x) ∧ P (g b x)) {b : β} (hb : P b) :
    xs.foldlM f b = .ok (xs.foldl g b) ∧ P (xs.foldl g b) := by
  induction xs generalizing b with
  | nil => exact ⟨rfl, hb⟩
  | cons x xs ih =>
    obtain ⟨hx, hP⟩ := h b hb x mem_cons_self
    rw [foldlM_cons, hx]
    exact ih (fun b hb y hy => h b hb y (mem_cons_of_mem x hy)) hP

theorem foldlM_keeps {P : β → Prop}
    (h : ∀ x ∈ xs, ∀ b b', P b → f b x = .ok b' → P b') {b b' : β} (hb : P b)
    (hfold : xs.foldlM f b = .ok b') : P b' := by
  induction xs generalizing b with
  | nil =>
    cases hfold
    exact hb
  | cons x xs ih =>
    obtain ⟨c, hc, hfold⟩ := bind_eq_ok.mp hfold
    obtain ⟨hx, hxs⟩ := forall_mem_cons.mp h
    exact ih hxs (hx b c hb hc) hfold

end Outcome

theorem exists_of_mem_forall₂ {α β : Type} {R : α → β → Prop} {xs : List α} {ys : List β} {x : α}
    (h : Forall₂ R xs ys) (hx : x ∈ xs) : ∃ y ∈ ys, R x y := by
  obtain ⟨hlength, hget⟩ := forall₂_iff_get.mp h
  obtain ⟨i, hi, rfl⟩ := getElem_of_mem hx
  exact ⟨_, getElem_mem (hlength ▸ hi), hget i hi _⟩

theorem keys_eq {κ α β : Type} {R : κ × α → κ × β → Prop} {l : List (κ × α)} {l' : List (κ × β)}
    (h : Forall₂ (fun a b => a.1 = b.1 ∧ R a b) l l') : l.map Prod.fst = l'.map Prod.fst := by
  rw [← forall₂_eq_eq_eq, forall₂_map_left_iff, forall₂_map_right_iff]
  exact h.imp fun _ _ hab => hab.1

/-- Items of lists that are related item by item have partners at the same position. -/
theorem exists_getElem?_of_forall₂ {α β : Type} {R : α → β → Prop} {xs : List α} {ys : List β}
    {k : Nat} {y : β} (h : Forall₂ R xs ys) (hy : ys[k]? = some y) :
    ∃ x, xs[k]? = some x ∧ R x y := by
  obtain ⟨hlength, hget⟩ := forall₂_iff_get.mp h
  obtain ⟨hk, rfl⟩ := List.getElem?_eq_some_iff.mp hy
  exact ⟨_, getElem?_eq_getElem (hlength ▸ hk), hget k _ hk⟩

theorem Outcome.exists_mapM_forall {α β : Type} {f : α → Outcome β} {P : β → Prop} {xs : List α}
    (h : ∀ x ∈ xs, ∃ y, f x = .ok y ∧ P y) : ∃ ys, xs.mapM f = .ok ys ∧ ∀ y ∈ ys, P y := by
  obtain ⟨ys, hys, hall⟩ := exists_mapM_eq_ok h
  refine ⟨ys, hys, fun y hy => ?_⟩
  obtain ⟨_, _, hP⟩ := exists_of_mem_forall₂ hall.flip hy
  exact hP

/-! ### Outcomes that agree -/

namespace Outcome

variable {α β γ δ : Type} {R : α → β → Prop} {S : γ → δ → Prop}

/-- Two outcomes are the same fault, or results that are related. -/
inductive Agree (R : α → β → Prop) : Outcome α → Outcome β → Prop where
  | ok {a : α} {b : β} : R a b → Agree R (.ok a) (.ok b)
  | error (f : Fault) : Agree R (.error f) (.error f)

variable {x : Outcome α} {y : Outcome β}

theorem Agree.imp {S : α → β → Prop} (h : Agree R x y)
    (himp : ∀ a b, R a b → S a b) : Agree S x y := by
  cases h with
  | ok hab => exact .ok (himp _ _ hab)
  | error fault => exact .error fault

variable {f : α → Outcome γ}

theorem Agree.bind {g : β → Outcome δ}
    (h : Agree R x y) (hnext : ∀ a b, R a b → Agree S (f a) (g b)) :
    Agree S (x >>= f) (y >>= g) := by
  cases h with
  | ok hab => exact hnext _ _ hab
  | error fault => exact .error fault

theorem Agree.bind_eq {g : β → Outcome γ}
    (h : Agree R x y) (hnext : ∀ a b, R a b → f a = g b) : (x >>= f) = (y >>= g) := by
  cases h with
  | ok hab => exact hnext _ _ hab
  | error fault => rfl

/-- What agrees with itself if its results are related to themselves. -/
theorem Agree.self {R : α → α → Prop} (h : ∀ a, x = .ok a → R a a) : Agree R x x := by
  cases x with
  | ok a => exact .ok (h a rfl)
  | error fault => exact .error fault

theorem Agree.flip (h : Agree R x y) : Agree (fun b a => R a b) y x := by
  cases h with
  | ok hab => exact .ok hab
  | error fault => exact .error fault

theorem Agree.results (h : Agree R x y) : Agree (fun a b => R a b ∧ x = .ok a ∧ y = .ok b) x y := by
  cases h with
  | ok hab => exact .ok ⟨hab, rfl, rfl⟩
  | error fault => exact .error fault

theorem Agree.bind₂ {ε ζ : Type} {T : ε → ζ → Prop} {x' : Outcome β}
    {y : Outcome γ} {y' : Outcome δ} {f : α → γ → Outcome ε} {g : β → δ → Outcome ζ}
    (hx : Agree R x x') (hy : Agree S y y')
    (hnext : ∀ a b, R a b → ∀ c d, S c d → Agree T (f a c) (g b d)) :
    Agree T (do f (← x) (← y)) (do g (← x') (← y')) :=
  hx.bind fun a b hab => hy.bind fun c d hcd => hnext a b hab c d hcd

/-- Where one result is a function of the other, the same is made of both. -/
theorem Agree.map {P : α → Prop} {p : α → β} {T : γ → Prop} {t : γ → δ} {f : α → γ} {g : β → δ}
    (h : Agree (fun a b => P a ∧ b = p a) x y)
    (hstep : ∀ a, P a → T (f a) ∧ g (p a) = t (f a)) :
    Agree (fun c d => T c ∧ d = t c) (do return f (← x)) (do return g (← y)) := by
  apply h.bind
  rintro a _ ⟨ha, rfl⟩
  exact .ok (hstep a ha)

theorem Agree.both {P : α → Prop} {p : α → α} {Q : β → Prop} {q : β → β} {T : γ → Prop} {t : γ → γ}
    {x x' : Outcome α} {y y' : Outcome β} {f g : α → β → γ}
    (hx : Agree (fun a a' => P a ∧ a' = p a) x x') (hy : Agree (fun b b' => Q b ∧ b' = q b) y y')
    (hstep : ∀ a b, P a → Q b → T (f a b) ∧ g (p a) (q b) = t (f a b)) :
    Agree (fun c c' => T c ∧ c' = t c) (do return f (← x) (← y)) (do return g (← x') (← y')) := by
  apply hx.bind
  rintro a _ ⟨ha, rfl⟩
  exact hy.map fun b => hstep a b ha

variable {g : α → Outcome γ}

/-- A step taken at every item of a list, one way and another: if at each item the second result is
a function of the first, so it is for the lists of results. -/
theorem Agree.mapM_map {P : β → Prop} {h : β → γ} {f : α → Outcome β}
    {xs : List α} (hstep : ∀ x ∈ xs, Agree (fun b c => P b ∧ c = h b) (f x) (g x)) :
    Agree (fun bs cs => (∀ b ∈ bs, P b) ∧ cs = bs.map h) (xs.mapM f) (xs.mapM g) := by
  induction xs with
  | nil => exact .ok ⟨by simp, rfl⟩
  | cons x xs ih =>
    rw [forall_mem_cons] at hstep
    rw [mapM_cons, mapM_cons]
    apply hstep.1.bind₂ (ih hstep.2)
    rintro b _ ⟨hb, rfl⟩ bs _ ⟨hbs, rfl⟩
    exact .ok ⟨forall_mem_cons.mpr ⟨hb, hbs⟩, rfl⟩

/-- A step taken at every item of a list that another list is mapped to. -/
theorem mapM_map_eq {h : α → β} {f : β → Outcome γ} {xs : List α}
    (hstep : ∀ x ∈ xs, f (h x) = g x) : (xs.map h).mapM f = xs.mapM g := by
  induction xs with
  | nil => rfl
  | cons x xs ih =>
    rw [forall_mem_cons] at hstep
    rw [map_cons, mapM_cons, mapM_cons, hstep.1, ih hstep.2]

/-- What is carried along two lists, of which one is mapped to the other, stays related. -/
theorem Agree.foldlM_map {h : γ → δ} {f : α → δ → Outcome α} {g : β → γ → Outcome β} {xs : List γ}
    (hstep : ∀ x ∈ xs, ∀ a b, R a b → Agree R (f a (h x)) (g b x)) {a : α} {b : β} (hab : R a b) :
    Agree R ((xs.map h).foldlM f a) (xs.foldlM g b) := by
  induction xs generalizing a b with
  | nil => exact .ok hab
  | cons x xs ih =>
    rw [forall_mem_cons] at hstep
    rw [map_cons, foldlM_cons, foldlM_cons]
    exact (hstep.1 a b hab).bind fun _ _ hcd => ih hstep.2 hcd

end Outcome

end AtomArray
