import Mathlib.Data.List.Induction
import AtomArray.Chain.Parse

/-!
Which field a drive of a chain belongs to.

A chain is built step by step, each of them offered by the step before (`Chain.Built`). A reader
finds the field and the transition of a drive in the steps right before the modulation
(`Chain.address`), or else in what it holds from the drive before (`Chain.held`). `Tracked` says
what is known after each sort of step.

Main statement: `Built.ready`, wherever a modulation may come next, its drive goes to the field and
the transition that were named last.
-/

namespace AtomArray

open List Step StepSort

variable {N : Type}

/-! ### Chains that were offered -/

def Step.offer : Step N → Offer
  | .rydberg | .hyperfine => .coupling
  | .detuning | .rabi => .drive
  | .amplitude | .phase => .rabi
  | .uniform | .location _ | .vector _ | .values _ => .modulation
  | .linear .. | .constant .. | .poly .. | .apply _ | .piecewiseLinear ..
  | .piecewiseConstant .. | .profile .. => .shape
  | .sample .. => .sample
  | .slice .. => .slice
  | .record _ => .record
  | .sequence _ => .sequence
  | .assign _ => .assign
  | .columns _ | .batch _ => .batch
  | .args _ => .args
  | .parallelize _ => .parallelize

def Step.isWaveform (s : Step N) : Bool := s.sort.endsWaveform

variable {s : Step N}

theorem Step.offer_of_modulation (h : s.sort = .modulation) : s.offer = .modulation := by
  cases s with
  | uniform | location | vector | values => rfl
  | _ => cases h

theorem Step.sort_ne_of_isWaveform (h : s.isWaveform) :
    s.sort ≠ .coupling ∧ s.sort ≠ .field ∧ s.sort ≠ .modulation := by
  refine ⟨?_, ?_, ?_⟩ <;> intro hs <;> simp [isWaveform, hs, endsWaveform] at h

theorem StepSort.before_waveform {σ : StepSort} (hs : s.isWaveform)
    (h : σ.offers s.offer) : σ.endsWaveform ∨ σ = .modulation := by
  cases s with
  | linear | constant | poly | apply | piecewiseLinear | piecewiseConstant | profile =>
    simp only [offer, offers, Bool.or_eq_true, Bool.and_eq_true, beq_iff_eq] at h
    exact h.imp_left And.left
  | sample =>
    simp only [offer, offers, beq_iff_eq] at h
    exact .inl (by rw [h]; rfl)
  | slice | record =>
    simp only [offer, offers, Bool.and_eq_true] at h
    exact .inl h.1
  | _ => cases hs

namespace Chain

/-- A chain each of whose steps was offered when it was added. -/
inductive Built : Chain N → Prop where
  | start (r : Register N) : Built ⟨r, []⟩
  | push {c : Chain N} {s : Step N} : c.Built → c.offers s.offer → (c.push s).Built

def extend (c : Chain N) (steps : List (Step N)) : Chain N :=
  { c with steps := c.steps ++ steps }

theorem extend_append (c : Chain N) (xs ys : List (Step N)) :
    c.extend (xs ++ ys) = (c.extend xs).extend ys := by
  simp [extend]

variable {c : Chain N}

theorem Built.of_push (h : (c.push s).Built) : c.Built ∧ c.offers s.offer := by
  generalize hd : c.push s = d at h
  cases h with
  | start r => simp [Chain.push] at hd
  | @push c' s' hc' hoffer =>
    obtain ⟨hregister, hsteps⟩ := Chain.mk.inj hd
    obtain ⟨hsteps, hlast⟩ := append_inj' hsteps rfl
    obtain rfl : c = c' := by
      cases c
      cases c'
      simp_all
    obtain rfl : s = s' := by simpa using hlast
    exact ⟨hc', hoffer⟩

theorem Built.of_extend {steps : List (Step N)}
    (h : (c.extend (s :: steps)).Built) : c.Built ∧ c.offers s.offer := by
  induction steps using List.reverseRecOn with
  | nil => exact h.of_push
  | append_singleton steps t ih =>
    have hpush : c.extend (s :: (steps ++ [t])) = (c.extend (s :: steps)).push t := by
      simp [extend, Chain.push]
    rw [hpush] at h
    exact ih h.of_push.1

theorem offers_of_reverse_nil (h : c.steps.reverse = []) (o : Offer) :
    c.offers o = (o == .coupling || o == .sequence) := by
  rw [reverse_eq_nil_iff] at h
  rw [offers, h]
  rfl

theorem offers_of_reverse_cons {before : List (Step N)} (h : c.steps.reverse = s :: before)
    (o : Offer) : c.offers o = s.sort.offers o := by
  rw [offers, getLast?_eq_head?_reverse, h]
  rfl

theorem offers_of_append {xs : List (Step N)} (h : c.steps = xs ++ [s])
    (o : Offer) : c.offers o = s.sort.offers o := by
  have hreverse : c.steps.reverse = s :: xs.reverse := by simp [h]
  exact offers_of_reverse_cons hreverse o

/-- Is each step offered by the one before it? The last step stands first. -/
def inOrder : List (Step N) → Bool
  | [] => true
  | [s] => s.offer == .coupling || s.offer == .sequence
  | s :: t :: before => t.sort.offers s.offer && inOrder (t :: before)

theorem built_iff : c.Built ↔ inOrder c.steps.reverse := by
  constructor
  · intro h
    induction h with
    | start r => rfl
    | @push c s hc hoffer ih =>
      rw [Chain.push, reverse_append]
      cases hbefore : c.steps.reverse with
      | nil =>
        have hfirst : (s.offer == .coupling || s.offer == .sequence) :=
          offers_of_reverse_nil hbefore _ ▸ hoffer
        exact hfirst
      | cons t before =>
        have hstep : t.sort.offers s.offer := offers_of_reverse_cons hbefore _ ▸ hoffer
        exact Bool.and_eq_true_iff.mpr ⟨hstep, hbefore ▸ ih⟩
  · obtain ⟨register, steps⟩ := c
    intro h
    induction steps using List.reverseRecOn with
    | nil => exact .start register
    | append_singleton steps s ih =>
      rw [reverse_append] at h
      refine Built.push (c := ⟨register, steps⟩) ?_ ?_
      · cases hbefore : steps.reverse with
        | nil => exact ih (by rw [hbefore]; rfl)
        | cons t before =>
          rw [hbefore] at h
          exact ih (by rw [hbefore]; exact (Bool.and_eq_true_iff.mp h).2)
      · cases hbefore : steps.reverse with
        | nil =>
          rw [hbefore] at h
          rw [offers_of_reverse_nil hbefore]
          exact h
        | cons t before =>
          rw [hbefore] at h
          rw [offers_of_reverse_cons hbefore]
          exact (Bool.and_eq_true_iff.mp h).1

instance (c : Chain N) : Decidable c.Built := decidable_of_iff _ built_iff.symm

/-! ### What was named last

The lists of steps below stand in reverse order, the last step first. -/

variable (before : List (Step N))

def lastField? : Option FieldName := before.findSome? fieldName?

/-- The transition that was named last. -/
def lastCoupling? : Option Coupling := before.findSome? coupling?

/-- The transition of the step right before. -/
def adjacentCoupling? : Option Coupling := before.head? >>= coupling?

/-- The field and the transition that a reader holds. They change at modulations only. -/
def held : List (Step N) → Option FieldName × Option Coupling
  | [] => (none, none)
  | s :: before =>
    if s.sort = .modulation then
      ((address before).1 <|> (held before).1, (address before).2 <|> (held before).2)
    else held before

theorem coupling?_eq_none (h : s.sort ≠ .coupling) : coupling? s = none := by
  cases s with
  | rydberg | hyperfine => exact absurd rfl h
  | _ => rfl

theorem fieldName?_eq_none (h : s.sort ≠ .field) : fieldName? s = none := by
  cases s with
  | detuning | amplitude | phase => exact absurd rfl h
  | _ => rfl

theorem lastField?_cons (h : s.sort ≠ .field) (before : List (Step N)) :
    lastField? (s :: before) = lastField? before := by
  rw [lastField?, findSome?_cons, fieldName?_eq_none h]
  rfl

theorem lastCoupling?_cons (h : s.sort ≠ .coupling) (before : List (Step N)) :
    lastCoupling? (s :: before) = lastCoupling? before := by
  rw [lastCoupling?, findSome?_cons, coupling?_eq_none h]
  rfl

theorem held_cons (h : s.sort ≠ .modulation) (before : List (Step N)) :
    held (s :: before) = held before := by
  rw [held, if_neg h]

/-! ### What a reader knows after a step -/

/-- The reader holds what was named last. -/
def Settled : Prop :=
  ∃ n k, lastField? before = some n ∧ lastCoupling? before = some k ∧ held before = (some n, some k)

/-- The reader holds the field that was named last, and the transition too unless the last step
names it. -/
def Chosen : Prop :=
  (held before).1 = lastField? before ∧
    ∃ k, lastCoupling? before = some k ∧ (adjacentCoupling? before <|> (held before).2) = some k

/-- A modulation that comes next is read with the field and the transition that were named last. -/
def Ready : Prop :=
  ∃ n k, lastField? before = some n ∧ lastCoupling? before = some k ∧
    ((address before).1 <|> (held before).1) = some n ∧
    ((address before).2 <|> (held before).2) = some k

/-- What is known after a step, by its sort. -/
structure Tracked (s : Step N) (before : List (Step N)) : Prop where
  waveform : s.isWaveform → Settled (s :: before) ∧ adjacentCoupling? before = none
  modulation : s.sort = .modulation → Settled (s :: before)
  coupling : s.sort = .coupling → Chosen (s :: before)
  rabi : s.sort = .rabi → Chosen before
  field : s.sort = .field → Ready (s :: before)

section Known

variable {s t : Step N} {before : List (Step N)}

theorem Settled.chosen (h : Settled (s :: before)) (hs : s.sort ≠ .coupling) :
    Chosen (s :: before) := by
  obtain ⟨n, k, hn, hk, hheld⟩ := h
  refine ⟨by rw [hheld, hn], k, hk, ?_⟩
  simp [adjacentCoupling?, coupling?_eq_none hs, hheld]

theorem Settled.ready (h : Settled (s :: before)) (hs : s.sort ≠ .field) : Ready (s :: before) := by
  obtain ⟨n, k, hn, hk, hheld⟩ := h
  refine ⟨n, k, hn, hk, ?_, ?_⟩ <;> simp [address, fieldName?_eq_none hs, hheld]

theorem Settled.waveform (h : Settled before) (hs : s.isWaveform) :
    Settled (s :: before) := by
  obtain ⟨hcoupling, hfield, hmodulation⟩ := sort_ne_of_isWaveform hs
  obtain ⟨n, k, hn, hk, hheld⟩ := h
  refine ⟨n, k, ?_, ?_, ?_⟩
  · rw [lastField?_cons hfield, hn]
  · rw [lastCoupling?_cons hcoupling, hk]
  · rw [held_cons hmodulation, hheld]

theorem Ready.modulation (h : Ready before) (hs : s.sort = .modulation) :
    Settled (s :: before) := by
  obtain ⟨n, k, hn, hk, hfield, hcoupling⟩ := h
  refine ⟨n, k, ?_, ?_, ?_⟩
  · rw [lastField?_cons (by simp [hs]), hn]
  · rw [lastCoupling?_cons (by simp [hs]), hk]
  · rw [held, if_pos hs, hfield, hcoupling]

theorem Chosen.of_coupling (hheld : (held before).1 = lastField? before)
    (hs : s.sort = .coupling) : Chosen (s :: before) := by
  have hfield : (held (s :: before)).1 = lastField? (s :: before) := by
    rw [held_cons (by simp [hs]), lastField?_cons (by simp [hs]), hheld]
  cases s with
  | rydberg => exact ⟨hfield, .rydberg, rfl, rfl⟩
  | hyperfine => exact ⟨hfield, .hyperfine, rfl, rfl⟩
  | _ => cases hs

theorem Chosen.detuning (h : Chosen before) : Ready (.detuning :: before) := by
  obtain ⟨-, k, hk, hheld⟩ := h
  exact ⟨.detuning, k, rfl, hk, rfl, hheld⟩

theorem Ready.of_rabi {k : Coupling} (hs : s = .amplitude ∨ s = .phase)
    (hk : lastCoupling? (t :: before) = some k)
    (hheld : (adjacentCoupling? before <|> (held (t :: before)).2) = some k) :
    Ready (s :: t :: before) := by
  rcases hs with rfl | rfl
  · exact ⟨.amplitude, k, rfl, hk, rfl, hheld⟩
  · exact ⟨.phase, k, rfl, hk, rfl, hheld⟩

theorem Tracked.chosen (h : Tracked t before) (hoffer : t.sort.offers .drive) :
    Chosen (t :: before) := by
  have ht : t.isWaveform ∨ t.sort = .coupling := by
    simpa [isWaveform, StepSort.offers] using hoffer
  rcases ht with ht | ht
  · exact (h.waveform ht).1.chosen (sort_ne_of_isWaveform ht).1
  · exact h.coupling ht

theorem Tracked.ready (h : Tracked t before) (hoffer : t.sort.offers .modulation) :
    Ready (t :: before) := by
  have ht : t.isWaveform ∨ t.sort = .field := by
    simpa [isWaveform, StepSort.offers] using hoffer
  rcases ht with ht | ht
  · exact (h.waveform ht).1.ready (sort_ne_of_isWaveform ht).2.1
  · exact h.field ht

theorem Tracked.ready_rabi (h : Tracked t before) (hs : s = .amplitude ∨ s = .phase)
    (hoffer : t.sort.offers .rabi) : Ready (s :: t :: before) := by
  have ht : t.isWaveform ∨ t.sort = .rabi := by
    simpa [isWaveform, StepSort.offers] using hoffer
  rcases ht with ht | ht
  · obtain ⟨⟨n, k, hn, hk, hheld⟩, hadjacent⟩ := h.waveform ht
    exact .of_rabi hs hk (by rw [hadjacent, hheld]; rfl)
  · obtain ⟨-, k, hk, hheld⟩ := h.rabi ht
    refine .of_rabi (k := k) hs ?_ ?_
    · rw [lastCoupling?_cons (by simp [ht]), hk]
    · rw [held_cons (by simp [ht]), hheld]

theorem Tracked.ready_field (h : Tracked t before) (hs : s.sort = .field)
    (hoffer : t.sort.offers s.offer) : Ready (s :: t :: before) := by
  cases s with
  | detuning => exact (h.chosen hoffer).detuning
  | amplitude => exact h.ready_rabi (.inl rfl) hoffer
  | phase => exact h.ready_rabi (.inr rfl) hoffer
  | _ => cases hs

theorem Tracked.cons (h : Tracked t before) (hoffer : t.sort.offers s.offer) :
    Tracked s (t :: before) where
  waveform hs := by
    rcases before_waveform hs hoffer with ht | ht
    · have hne : t.sort ≠ .coupling := (sort_ne_of_isWaveform ht).1
      exact ⟨(h.waveform ht).1.waveform hs, coupling?_eq_none hne⟩
    · exact ⟨(h.modulation ht).waveform hs, coupling?_eq_none (by simp [ht])⟩
  modulation hs := by
    rw [offer_of_modulation hs] at hoffer
    exact (h.ready hoffer).modulation hs
  coupling hs := by
    have ht : t.isWaveform := by
      cases s with
      | rydberg | hyperfine => exact hoffer
      | _ => cases hs
    obtain ⟨n, k, hn, -, hheld⟩ := (h.waveform ht).1
    exact .of_coupling (by rw [hheld, hn]) hs
  rabi hs := by
    cases s with
    | rabi => exact h.chosen hoffer
    | _ => cases hs
  field hs := h.ready_field hs hoffer

theorem Tracked.first (hoffer : (s.offer == .coupling || s.offer == .sequence)) :
    Tracked s [] := by
  cases s with
  | rydberg | hyperfine =>
    exact ⟨by simp [isWaveform, sort, endsWaveform], by simp [sort],
      fun hs => .of_coupling rfl hs, by simp [sort], by simp [sort]⟩
  | sequence =>
    constructor <;> simp [isWaveform, sort, endsWaveform]
  | _ => cases hoffer

end Known

theorem Built.tracked (h : c.Built) {before : List (Step N)}
    (hlast : c.steps.reverse = s :: before) : Tracked s before := by
  induction h generalizing s before with
  | start r => cases hlast
  | @push c t hc hoffer ih =>
    have hreverse : t :: c.steps.reverse = s :: before := by
      rw [← hlast, Chain.push, reverse_append]
      rfl
    cases hreverse
    cases hbefore : c.steps.reverse with
    | nil => exact .first (offers_of_reverse_nil hbefore _ ▸ hoffer)
    | cons u before => exact (ih hbefore).cons (offers_of_reverse_cons hbefore _ ▸ hoffer)

/-- Where a chain offers a modulation, a drive goes to the field and the transition named last. -/
theorem Built.ready (h : c.Built) (hoffer : c.offers .modulation) :
    Ready c.steps.reverse := by
  cases hlast : c.steps.reverse with
  | nil => cases offers_of_reverse_nil hlast _ ▸ hoffer
  | cons s before => exact (h.tracked hlast).ready (offers_of_reverse_cons hlast _ ▸ hoffer)

end Chain

end AtomArray
