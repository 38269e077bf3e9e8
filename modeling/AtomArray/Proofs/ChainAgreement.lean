import AtomArray.Proofs.ChainReading

/-!
Three readers of one chain.

A chain can be read for its sequence alone, for its circuit, or for the program with its
parameters. The first reader starts at the register and the others after it. A ready-made sequence
is taken only where it comes next, so the first reader passes it by and finds no drive at all
(`sequence_agrees_iff`).
-/

namespace AtomArray

open List

namespace Chain

variable {N : Type} [Arith N]

/-! ### What supplies parameters is accepted -/

/-- A step that supplies parameters is accepted for a register: the names of arguments differ, and
the register can be repeated. -/
def Accepted (register : Register N) : Step N → Prop
  | .args names => names.Nodup
  | .parallelize spacing => ∃ t, Tiling.ofRegister register spacing = .ok t
  | _ => True

theorem repeated_eq_nil {seen names : List String} :
    repeated seen names = [] ↔ names.Nodup ∧ ∀ n ∈ names, n ∉ seen := by
  induction names generalizing seen with
  | nil => simp [repeated]
  | cons n ns ih =>
    rw [repeated]
    by_cases hn : n ∈ seen
    · simp [hn]
    · simp only [contains_eq_mem, hn, decide_false, Bool.false_eq_true, if_false, ih,
        nodup_cons, mem_cons, forall_eq_or_imp, not_or]
      constructor
      · rintro ⟨hnodup, hseen⟩
        exact ⟨⟨fun h => (hseen n h).1 rfl, hnodup⟩, not_false, fun m hm => (hseen m hm).2⟩
      · rintro ⟨⟨hfresh, hnodup⟩, -, hseen⟩
        exact ⟨hnodup, fun m hm => ⟨fun h => hfresh (h ▸ hm), hseen m hm⟩⟩

variable {register : Register N} {c : Chain N} {s : Step N}

theorem addPragma_eq_ok (params : Params N) :
    (∃ state, addPragma (.plain register, params) s = .ok state) ↔ Accepted register s := by
  cases s with
  | args names =>
    have hnames : repeated [] names = [] ↔ names.Nodup := by simp [repeated_eq_nil]
    rw [Accepted, ← hnames]
    cases hagain : repeated [] names <;> simp [addPragma, hagain]
  | parallelize spacing =>
    rw [Accepted]
    cases htiling : Tiling.ofRegister register spacing <;> simp [addPragma, htiling]
  | _ => exact ⟨fun _ => trivial, fun _ => ⟨_, rfl⟩⟩

theorem addPragma_keeps {params : Params N}
    {state : Arrangement N × Params N} (hs : s.sort ≠ .parallelize)
    (h : addPragma (.plain register, params) s = .ok state) : state.1 = .plain register := by
  cases s with
  | parallelize => exact absurd rfl hs
  | args names =>
    cases hagain : repeated [] names with
    | nil =>
      rw [addPragma] at h
      simp only [hagain] at h
      cases h
      rfl
    | cons n ns => simp [addPragma, hagain] at h
  | _ =>
    cases h
    rfl

/-- Steps that supply parameters go through if each is accepted; only the last may repeat the
register. -/
theorem foldlM_addPragma {ps : List (Step N)}
    (hlast : ∀ s ∈ ps.dropLast, s.sort ≠ .parallelize) (params : Params N) :
    (∃ state, ps.foldlM addPragma (.plain register, params) = .ok state) ↔
      ∀ p ∈ ps, Accepted register p := by
  induction ps generalizing params with
  | nil => exact ⟨by simp, fun _ => ⟨_, rfl⟩⟩
  | cons p ps ih =>
    rw [forall_mem_cons, ← addPragma_eq_ok params, foldlM_cons]
    cases hp : addPragma (.plain register, params) p with
    | error e => simp
    | ok state =>
      cases ps with
      | nil => simp
      | cons q qs =>
        rw [dropLast_cons_cons, forall_mem_cons] at hlast
        obtain ⟨register', params'⟩ := state
        obtain rfl : register' = .plain register := addPragma_keeps hlast.1 hp
        rw [Outcome.ok_bind, ih hlast.2]
        simp

omit [Arith N] in
theorem Built.steps_eq (h : c.Built) :
    ∃ body ps, c.steps = body ++ ps ∧ (∀ s ∈ body, isPragma s = false) ∧
      ∀ p ∈ ps, isPragma p := by
  induction h with
  | start r => exact ⟨[], [], rfl, by simp, by simp⟩
  | @push c s hc hoffer ih =>
    obtain ⟨body, ps, hsteps, hbody, hps⟩ := ih
    rcases eq_nil_or_concat ps with rfl | ⟨ps, t, rfl⟩
    · cases hs : isPragma s with
      | true => exact ⟨body, [s], by simp [Chain.push, hsteps], hbody, by simpa using hs⟩
      | false =>
        exact ⟨body ++ [s], [], by simp [Chain.push, hsteps],
          forall_mem_append.mpr ⟨hbody, by simpa using hs⟩, by simp⟩
    · have ht : isPragma t := hps t (by simp)
      have hs : isPragma s := by
        refine isPragma_of_offers (.inl ht) ?_
        have happend : c.steps = (body ++ ps) ++ [t] := by simp [hsteps]
        rw [← hoffer, offers_of_append happend]
      exact ⟨body, ps.concat t ++ [s], by simp [Chain.push, hsteps], hbody,
        forall_mem_append.mpr ⟨hps, by simpa using hs⟩⟩

omit [Arith N] in
theorem pragmas_eq {body ps : List (Step N)} (h : c.steps = body ++ ps)
    (hbody : ∀ s ∈ body, isPragma s = false) (hps : ∀ p ∈ ps, isPragma p) :
    c.pragmas = ps := by
  rw [pragmas, h, dropWhile_append_of_pos (by simpa using hbody)]
  cases ps with
  | nil => rfl
  | cons p ps =>
    have hp : isPragma p := hps p mem_cons_self
    rw [dropWhile_cons_of_neg (by simp [hp]), ← append_nil (p :: ps),
      takeWhile_append_of_pos hps]
    rfl

omit [Arith N] in
theorem Built.parallelize_last (h : c.Built) {xs : List (Step N)} {t : Step N}
    {ys : List (Step N)} (hsteps : c.steps = xs ++ s :: t :: ys) : s.sort ≠ .parallelize := by
  intro hs
  have hextend : c = (⟨c.register, xs ++ [s]⟩ : Chain N).extend (t :: ys) := by
    cases c
    simp_all [extend]
  rw [hextend] at h
  have hoffer := h.of_extend.2
  rw [offers_of_append rfl, hs] at hoffer
  cases t <;> simp [StepSort.offers, Step.offer, StepSort.endsWaveform] at hoffer

/-- The steps that supply parameters go through exactly if each of them is accepted. -/
theorem Built.settings_eq_ok (h : c.Built) :
    (∃ state, c.settings = .ok state) ↔ ∀ s ∈ c.steps, Accepted c.register s := by
  obtain ⟨body, ps, hsteps, hbody, hps⟩ := h.steps_eq
  have hlast : ∀ s ∈ ps.dropLast, s.sort ≠ .parallelize := by
    intro s hs
    rcases eq_nil_or_concat ps with rfl | ⟨qs, q, rfl⟩
    · cases hs
    · rw [concat_eq_append, dropLast_concat] at hs
      obtain ⟨xs, ys, rfl⟩ := mem_iff_append.mp hs
      cases ys with
      | nil =>
        have happend : c.steps = (body ++ xs) ++ s :: q :: [] := by simp [hsteps]
        exact h.parallelize_last happend
      | cons t ys =>
        have happend : c.steps = (body ++ xs) ++ s :: t :: (ys ++ [q]) := by simp [hsteps]
        exact h.parallelize_last happend
  have hbodyAccepted : ∀ s ∈ body, Accepted c.register s := by
    intro s hs
    have hpragma := hbody s hs
    cases s with
    | args | parallelize => cases hpragma
    | _ => trivial
  rw [settings, pragmas_eq hsteps hbody hps, foldlM_addPragma hlast, hsteps, forall_mem_append]
  exact ⟨fun hacc => ⟨hbodyAccepted, hacc⟩, And.right⟩

/-! ### The sequence of a chain -/

theorem sequence_eq (c : Chain N) :
    c.sequence = (do return .pulses (← readDrives {} [] c.steps).sequence) := by
  obtain ⟨register, steps⟩ := c
  cases steps with
  | nil => rfl
  | cons step rest => rfl

theorem circuit_of_steps_nil (h : c.steps = []) : c.circuit = .error .part := by
  obtain ⟨register, steps⟩ := c
  cases h
  rfl

/-- Read from the register on, a ready-made sequence is no drive. -/
theorem Built.sequence_of_sequence (h : c.Built) {s : Sequence N}
    {rest : List (Step N)} (hsteps : c.steps = .sequence s :: rest) :
    c.sequence = .ok (.pulses []) := by
  have hpragmas := h.after_sequence hsteps
  rw [sequence_eq, hsteps, readDrives]
  simp only [modulation?, readDrives_pragmas _ hpragmas]
  rfl

/-- The sequence of the circuit is the one read by itself, unless there is only a register or a
ready-made sequence that drives something. The program with its parameters has the sequence of the
circuit, unless the parameters are refused. -/
theorem sequence_agrees_iff {c : Chain N} (h : c.Built) : (c.circuit.map (·.sequence) = c.sequence ↔
      c.steps ≠ [] ∧ ∀ s rest, c.steps = .sequence s :: rest → s = .pulses []) ∧
    (c.routine.map (·.circuit.sequence) = c.circuit.map (·.sequence) ↔
      (∀ s ∈ c.steps, Accepted c.register s) ∨ ∀ q, c.circuit ≠ .ok q) := by
  constructor
  · by_cases hne : c.steps = []
    · rw [circuit_of_steps_nil hne, sequence_eq, hne]
      simp [Except.map, readDrives]
    · by_cases hsequence : ∃ s rest, c.steps = .sequence s :: rest
      · obtain ⟨s, rest, hs⟩ := hsequence
        rw [circuit_of_sequence hs, h.sequence_of_sequence hs]
        simp [Except.map, hs]
      · simp only [not_exists] at hsequence
        rw [circuit_eq hne hsequence, sequence_eq]
        refine iff_of_true ?_ ⟨hne, fun s rest hs => absurd hs (hsequence s rest)⟩
        cases readDrives {} [] c.steps <;> rfl
  · rw [← h.settings_eq_ok, routine]
    cases hcircuit : c.circuit with
    | error e => simp [Except.map]
    | ok q => cases hsettings : c.settings <;> simp [Except.map]

theorem detunedAtom_sequence_agrees : (detunedAtom.extend [.assign [], .args ["x", "y"]]).Built ∧
      (detunedAtom.extend [.assign [], .args ["x", "y"]]).circuit.map (·.sequence) =
        (detunedAtom.extend [.assign [], .args ["x", "y"]]).sequence ∧
      (detunedAtom.extend [.assign [], .args ["x", "y"]]).routine.map (·.circuit.sequence) =
        (detunedAtom.extend [.assign [], .args ["x", "y"]]).circuit.map (·.sequence) := by
  have hbuilt : (detunedAtom.extend [.assign [], .args ["x", "y"]]).Built := by decide
  obtain ⟨hcircuit, hroutine⟩ := sequence_agrees_iff hbuilt
  refine ⟨hbuilt, hcircuit.mpr ⟨by simp [extend], ?_⟩, hroutine.mpr (.inl ?_)⟩
  · intro s rest hs
    simp [extend, detunedAtom] at hs
  · simp [extend, detunedAtom, Accepted]

def appliedDetuning : Chain Rat :=
  ⟨.list [⟨.lit 0, .lit 0, true⟩], [.sequence (.pulses [(.rydberg,
    .fields [(.detuning, ⟨[(.uniform, .constant (.lit 1) (.lit 2))]⟩)])])]⟩

/-- A ready-made sequence is the sequence of the circuit, but is not found from the register on. -/
theorem applied_sequence_passed_by :
    appliedDetuning.Built ∧ appliedDetuning.sequence = .ok (.pulses []) ∧
      appliedDetuning.circuit.map (·.sequence) ≠ appliedDetuning.sequence := by
  have hbuilt : appliedDetuning.Built := by decide
  have hnone : appliedDetuning.sequence = .ok (.pulses []) := hbuilt.sequence_of_sequence rfl
  refine ⟨hbuilt, hnone, ?_⟩
  rw [hnone, circuit_of_sequence rfl]
  simp [Except.map]

end Chain

end AtomArray
