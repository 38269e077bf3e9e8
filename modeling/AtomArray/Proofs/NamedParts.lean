import AtomArray.Emulator.Compile
import AtomArray.Hardware.Compile
import AtomArray.Number.Exact
import AtomArray.Proofs.Bundles

/-!
Names of pulses and sequences.

Taking names off a sequence (`Sequence.unname`) changes neither the values that it records nor what is
compiled for a device, and may be done before or after parameters are bound. For emulation the names
of pulses may be taken off; a sequence that has a name itself is not compiled.
-/

namespace AtomArray

open List Outcome

variable {N : Type}

namespace Bundle

variable {κ α β : Type}

/-- Takes names off the members of a bundle, and off the bundle if these are to be taken off too. -/
def unnaming (own : Bool) (of : List (κ × α) → List (κ × α)) : Algebra κ α N (Bundle κ α N) where
  members ms := members (of ms)
  named b n := if own then b else named b n
  append := append
  slice := slice

variable {own : Bool} {of : List (κ × α) → List (κ × α)}

/-- What does not look at names is the same without them. -/
theorem fold_unnaming {a : Algebra κ α N β} (hnamed : ∀ b n, a.named b n = b)
    (hmembers : ∀ ms, a.members (of ms) = a.members ms) (b : Bundle κ α N) :
    fold a (fold (unnaming own of) b) = fold a b := by
  refine map_fold (fold a) hmembers (fun b n => ?_) (fold_append a) (fun _ _ => rfl) b
  cases own with
  | true => exact (hnamed _ n).symm
  | false => rfl

theorem mapM_eq_map {γ δ : Type} {f : γ → Outcome β} {f' : γ → Outcome δ} {g : β → δ} {as : List γ}
    (h : ∀ a ∈ as, f' a = (f a).map g) : as.mapM f' = (as.mapM f).map (map g) := by
  induction as with
  | nil => rfl
  | cons a as ih =>
    rw [forall_mem_cons] at h
    rw [mapM_cons, mapM_cons, ih h.2, h.1]
    cases f a <;> cases as.mapM f <;> rfl

/-- What binding parameters makes of members. -/
def bindMembers (f : α → Outcome α) (ms : List (κ × α)) : Outcome (List (κ × α)) :=
  ms.mapM fun m => do return (m.1, ← f m.2)

/-- Parameters may be bound before names are taken off, or after. -/
theorem bind_unnaming {f : α → Outcome α} (refused : Fault)
    (h : ∀ ms, bindMembers f (of ms) = (bindMembers f ms).map of) (b : Bundle κ α N) :
    fold (bind f refused) (fold (unnaming own of) b) =
      (fold (bind f refused) b).map (fold (unnaming own of)) := by
  induction b using induct with
  | members ms =>
    refine (congrArg (· >>= fun ms => .ok (members ms)) (h ms)).trans ?_
    change _ = Except.map _ (bindMembers f ms >>= _)
    cases bindMembers f ms <;> rfl
  | named b n ih =>
    cases own with
    | true =>
      refine ih.trans ?_
      change _ = Except.map _ (fold (bind f refused) b >>= _)
      cases fold (bind f refused) b <;> rfl
    | false =>
      refine (congrArg (· >>= fun b => .ok (named b n)) ih).trans ?_
      change _ = Except.map _ (fold (bind f refused) b >>= _)
      cases fold (bind f refused) b <;> rfl
  | append bs ih =>
    have hpieces : (bs.map (fold (unnaming own of))).mapM (fold (bind f refused)) =
        Except.map (map (fold (unnaming own of))) (bs.mapM (fold (bind f refused))) :=
      mapM_map.trans (mapM_eq_map ih)
    rw [fold_append (unnaming own of), bind_append]
    refine (bind_append f refused _).trans ?_
    rw [hpieces]
    cases bs.mapM (fold (bind f refused)) with
    | error => rfl
    | ok bs => exact congrArg Except.ok (fold_append (unnaming own of) bs).symm
  | slice b i ih =>
    refine (congrArg (· >>= fun _ => .error refused) ih).trans ?_
    change _ = Except.map _ (fold (bind f refused) b >>= _)
    cases fold (bind f refused) b <;> rfl

end Bundle

open AtomArray.Bundle (fold unnaming fold_unnaming bind_unnaming)

def Pulse.unname : Pulse N → Pulse N := fold (unnaming true id)

/-- The sequence without the names of its pulses, and without its own and those of its parts if these
are to be taken off too. -/
def Sequence.unname (own : Bool) : Sequence N → Sequence N :=
  fold (unnaming own (map fun p => (p.1, p.2.unname)))

variable [Arith N] {own : Bool}

theorem Pulse.scanRecords_unname (p : Pulse N) (env : Env N) :
    p.unname.scanRecords env = p.scanRecords env :=
  congrFun (fold_unnaming (fun _ _ => rfl) (fun _ => rfl) p) env

theorem Sequence.scanRecords_unname (s : Sequence N) (env : Env N) :
    (s.unname own).scanRecords env = s.scanRecords env := by
  refine congrFun (fold_unnaming (fun _ _ => rfl) (fun ps => ?_) s) env
  simp only [Bundle.scan, foldlM_map, Pulse.scanRecords_unname]

theorem Pulse.assign_unname (env : Env N) (p : Pulse N) :
    p.unname.assign env = (p.assign env).map unname :=
  bind_unnaming _ (fun fs => by rw [id, Except.map_id]; rfl) p

theorem Sequence.assign_unname (env : Env N) (s : Sequence N) :
    (s.unname own).assign env = (s.assign env).map (unname own) := by
  refine bind_unnaming _ (fun ps => ?_) s
  rw [Bundle.bindMembers, mapM_map]
  refine Bundle.mapM_eq_map fun p _ => ?_
  simp only [Function.comp_apply, Pulse.assign_unname]
  cases p.2.assign env <;> rfl

/-! ### Programs -/

namespace HardwareDraft

variable (env : Env N) (shots : Int)

theorem addPulse_unname : ∀ (p : Pulse N) (d : HardwareDraft N),
    addPulse env shots d p.unname = addPulse env shots d p
  | .fields _, _ | .append _, _ => rfl
  | .named _ p, d => addPulse_unname p d
  | .slice p i, d => by
    change addPulse env shots d (.slice (Pulse.unname p) i) = _
    rw [addPulse, addPulse, addPulse_unname p]

mutual

theorem addSequence_unname : ∀ (s : Sequence N) (d : HardwareDraft N),
    addSequence env shots d (s.unname own) = addSequence env shots d s
  | .pulses ps, d => by
    change addPulses env shots d (ps.map fun p => (p.1, p.2.unname)) = addPulses env shots d ps
    rw [addPulses, addPulses, any_map, find?_map]
    simp only [Function.comp_def]
    cases ps.find? fun p => p.1 = .rydberg <;> simp [addPulse_unname]
  | .named s n, d => by
    change addSequence env shots d (if own then s.unname own else .named (s.unname own) n) = _
    split <;> exact addSequence_unname s d
  | .append [], _ => rfl
  | .append (s :: ss), d => by
    change addSequence env shots d (.append (Sequence.unname own s :: _)) = _
    rw [addSequence, addSequence, addSequence_unname s]
    simp only [appendAll_unname ss]
  | .slice s i, d => by
    change addSequence env shots d (.slice (Sequence.unname own s) i) = _
    rw [addSequence, addSequence, addSequence_unname s]

theorem appendAll_unname : ∀ (ss : List (Sequence N)) (d : HardwareDraft N) (p : HardwareProgram N),
    appendAll env shots d p (Bundle.foldAll (unnaming own (map fun p => (p.1, p.2.unname))) ss) =
      appendAll env shots d p ss
  | [], _, _ => rfl
  | s :: ss, d, p => by
    rw [Bundle.foldAll, appendAll, appendAll, ← Sequence.unname, addSequence_unname s]
    simp only [appendAll_unname ss]

end

end HardwareDraft

namespace EmulatorScope

theorem pulse_unname (s : EmulatorScope N) (t : N) : ∀ p : Pulse N,
    s.pulse t p.unname = s.pulse t p
  | .fields _ | .append _ | .slice .. => rfl
  | .named _ p => pulse_unname s t p

theorem pulses_unname (s : EmulatorScope N) : ∀ (ps : List (Coupling × Pulse N)) (t : N),
    s.pulses t (ps.map fun p => (p.1, p.2.unname)) = s.pulses t ps
  | [], _ => rfl
  | (c, p) :: ps, t => by
    rw [map_cons, pulses, pulses, pulse_unname]
    simp only [pulses_unname s ps]

end EmulatorScope

/-- **Names are transparent**: they may be taken off without a change to the recorded values, to what
binding parameters gives but for the names, and to the program for a device; binding keeps a name.
For emulation the names of pulses may be taken off, but a sequence with a name is not compiled. -/
theorem Sequence.names_transparent (s : Sequence N) (env : Env N) :
    (∀ own, (s.unname own).scanRecords env = s.scanRecords env ∧
      (s.unname own).assign env = (s.assign env).map (unname own) ∧
      ∀ r limits shots, HardwareProgram.ofCircuit env limits shots ⟨r, s.unname own⟩ =
        HardwareProgram.ofCircuit env limits shots ⟨r, s⟩) ∧
    (∀ name, (named s name).assign env = (s.assign env).map (named · name)) ∧
    (∀ (p : Pulse N) name, (p.named name).assign env = (p.assign env).map (.named name)) ∧
    ∀ r radius three, EmulatorProgram.ofCircuit env radius three ⟨r, s.unname false⟩ =
        EmulatorProgram.ofCircuit env radius three ⟨r, s⟩ ∧
      ∀ name p, EmulatorProgram.ofCircuit env radius three ⟨r, .named s name⟩ ≠ .ok p := by
  refine ⟨fun own => ⟨scanRecords_unname s env, assign_unname env s, fun r limits shots => ?_⟩,
    fun name => ?_, fun p name => ?_, fun r radius three => ⟨?_, fun name p h => ?_⟩⟩
  · simp only [HardwareProgram.ofCircuit, HardwareDraft.addSequence_unname]
  · rw [assign]
    cases s.assign env <;> rfl
  · rw [Pulse.assign]
    cases p.assign env <;> rfl
  · simp only [EmulatorProgram.ofCircuit, scanRecords_unname]
    cases s with
    | members ps =>
      simp only [unname, Bundle.fold, unnaming, drivesHyperfine, EmulatorScope.sequence,
        EmulatorScope.pulses_unname, Bundle.search, any_map, Function.comp_def]
      rfl
    | named => rfl
    | append => rfl
    | slice => rfl
  · obtain ⟨_, -, h⟩ := bind_eq_ok.mp h
    cases r with
    | tiled => cases h
    | plain r =>
      simp only [bind_eq_ok] at h
      obtain ⟨_, -, _, -, _, -, _, -, _, h, -⟩ := h
      cases h

/-- With a name, a sequence that is compiled for emulation is so no longer. -/
theorem Sequence.named_not_emulated :
    let s : Sequence Rat := .pulses [(.rydberg, .fields [(.detuning,
      ⟨[(.uniform, .constant (.lit 1) (.lit 1))]⟩)])]
    let r : Arrangement Rat := .plain (.list [⟨.lit 0, .lit 0, true⟩])
    (∃ p, EmulatorProgram.ofCircuit [] 0 false ⟨r, s⟩ = .ok p) ∧
      EmulatorProgram.ofCircuit [] 0 false ⟨r, .named s "s"⟩ = .error .part :=
  ⟨⟨_, by with_unfolding_all rfl⟩, by with_unfolding_all rfl⟩

end AtomArray
