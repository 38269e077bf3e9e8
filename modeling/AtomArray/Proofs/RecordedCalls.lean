import AtomArray.Proofs.Aggregation
import AtomArray.Proofs.ReadNames
import AtomArray.Proofs.RecordedNames

/-!
Calling the waveforms of an emulator program.

Recorded values are found before a circuit is compiled, but the waveforms of the program are closed
over what was given alone. So a call is behind the value that the recorded ones would give
(`Outcome.Behind`): it is that value, or it stops at a name that is recorded.
-/

namespace AtomArray

open List Outcome

variable {N : Type} [Arith N]

theorem Waveform.Composed.plus {a b w : Waveform N} (ha : a.Composed) (hb : b.Composed)
    (h : a.plus b = .ok w) : w.Composed := by
  refine canon_keeps (fun ws => ⟨fun h => ?_, .append⟩) (fun a b => ⟨fun h => ?_, fun h => ?_⟩)
    (fun _ => .scale) _ (.add ha hb) w h
  · cases h
    assumption
  · cases h
    exact ⟨‹_›, ‹_›⟩
  · exact .add h.1 h.2

/-! ### What is made of drives -/

namespace EmulatorScope

variable {s : EmulatorScope N} {ds : List (AimedDrive N)} {a : Nat} {t t' : N} {w : Waveform N}

/-- A composed waveform, closed over what was given. -/
def Closed (s : EmulatorScope N) (w : CompiledWaveform N) : Prop :=
  w.env = s.given ∧ w.source.Composed

theorem composed_total (hds : ∀ d ∈ ds, d.waveform.Composed) (h : total ds a = .ok w) :
    w.Composed := by
  refine foldlM_keeps (fun d hd acc next hacc hnext => ?_) ?_ h
  · split at hnext
    · exact hacc.plus (.scale (hds d hd)) hnext
    · cases hnext
      exact hacc
  · exact .constant

theorem composed_absorbed {targets : Targets N} (h : w.Composed) :
    (absorbed targets w).Composed := by
  unfold absorbed
  split
  · split
    · exact h
    · exact .scale h
  · exact h

theorem composed_aimed {f : Field N} (hf : ∀ w ∈ f.waveforms, w.Composed) (h : s.aimed f = .ok ds) :
    ∀ d ∈ ds, d.waveform.Composed :=
  forall_aimed h fun _ hd => hf _ (mem_map_of_mem hd)

variable {field phase : Option (Field N)}

theorem detuning_closed {terms : List (DetuningTerm N)}
    (hfield : ∀ f, field = some f → ∀ w ∈ f.waveforms, w.Composed)
    (h : s.detuning t field = .ok (t', terms)) : ∀ term ∈ terms, s.Closed term.amplitude := by
  cases field with
  | none =>
    cases h
    simp
  | some f =>
    rw [detuning] at h
    split at h
    · obtain ⟨ds, hds, rfl, -⟩ := detuningByDrive_eq_ok h
      intro term hterm
      obtain ⟨d, hd, rfl⟩ := mem_map.mp hterm
      exact ⟨rfl, composed_aimed (hfield f rfl) hds d hd⟩
    · obtain ⟨ds, hds, h⟩ := bind_eq_ok.mp h
      intro term hterm
      obtain ⟨b, -, w, hw, rfl⟩ := exists_of_mem_forall₂ (detuningByAtom_eq_ok h).1.flip hterm
      exact ⟨rfl, composed_total (composed_aimed (hfield f rfl) hds) hw⟩

theorem rabi_closed {terms : List (RabiTerm N)}
    (hfield : ∀ f, field = some f → ∀ w ∈ f.waveforms, w.Composed)
    (hphase : ∀ f, phase = some f → ∀ w ∈ f.waveforms, w.Composed)
    (h : s.rabi t field phase = .ok (t', terms)) :
    ∀ term ∈ terms, s.Closed term.amplitude ∧ ∀ φ ∈ term.phase, s.Closed φ := by
  have hphased {b : Nat} {o : Option (CompiledWaveform N)} (ho : s.Phased phase b o) :
      ∀ φ ∈ o, s.Closed φ := by
    rintro φ rfl
    obtain ⟨p, rfl, ⟨w, hw, rfl⟩ | ⟨phases, w, hphases, hw, rfl⟩⟩ := ho
    · exact ⟨rfl, hphase p rfl w (by simp [Field.waveforms, solePhase?_eq_some hw])⟩
    · exact ⟨rfl, composed_total (composed_aimed (hphase p rfl) hphases) hw⟩
  cases field with
  | none =>
    cases h
    simp
  | some f =>
    intro term hterm
    obtain ⟨ds, hds, ⟨kind, φ, hφ, rfl⟩ | halone⟩ := rabi_cases h
    · obtain ⟨d, hd, rfl⟩ := mem_map.mp hterm
      have hread := composed_aimed (hfield f rfl) hds d (mem_of_mem_filter hd)
      exact ⟨⟨rfl, composed_absorbed hread⟩, hphased (hφ 0)⟩
    · obtain ⟨b, -, ⟨w, hw, hamplitude⟩, -, hown⟩ := exists_of_mem_forall₂ halone.flip hterm
      rw [hamplitude]
      exact ⟨⟨rfl, composed_total (composed_aimed (hfield f rfl) hds) hw⟩, hphased hown⟩

end EmulatorScope

def DriveTerms.waveforms (d : DriveTerms N) : List (CompiledWaveform N) :=
  d.detuning.map (·.amplitude) ++ d.rabi.flatMap fun r => r.amplitude :: r.phase.toList

def EmulatorProgram.waveforms (p : EmulatorProgram N) : List (CompiledWaveform N) :=
  p.pulses.flatMap fun q => q.2.waveforms

namespace EmulatorScope

variable {s : EmulatorScope N} {t t' : N}

theorem pulse_closed {p : Pulse N} {terms : DriveTerms N} (hp : ∀ w ∈ p.waveforms, w.Composed)
    (h : s.pulse t p = .ok (t', terms)) : ∀ w ∈ terms.waveforms, s.Closed w := by
  cases p with
  | members fs =>
    have hfield {n : FieldName} (f : Field N) (hf : field? fs n = some f) :
        ∀ w ∈ f.waveforms, w.Composed := by
      obtain ⟨x, hx, rfl⟩ := Option.map_eq_some_iff.mp hf
      exact fun w hw => hp w (mem_flatMap.mpr ⟨x, mem_of_find?_eq_some hx, hw⟩)
    simp only [pulse, bind_eq_ok, return_eq_ok, Prod.mk.injEq] at h
    obtain ⟨⟨_, detuning⟩, hdetuning, ⟨_, rabi⟩, hrabi, -, rfl⟩ := h
    have hshifts := detuning_closed hfield hdetuning
    have hdrives := rabi_closed hfield hfield hrabi
    intro w hw
    simp only [DriveTerms.waveforms, mem_append, mem_map, mem_flatMap,
      mem_cons, Option.mem_toList] at hw
    obtain ⟨term, hterm, rfl⟩ | ⟨term, hterm, rfl | hw⟩ := hw
    · exact hshifts term hterm
    · exact (hdrives term hterm).1
    · exact (hdrives term hterm).2 w hw
  | named p _ => exact pulse_closed (p := p) hp h
  | append _ => cases h
  | slice _ _ => cases h

theorem pulses_closed {ps : List (Coupling × Pulse N)} {terms : List (Coupling × DriveTerms N)}
    (hps : ∀ q ∈ ps, ∀ w ∈ q.2.waveforms, w.Composed) (h : s.pulses t ps = .ok (t', terms)) :
    ∀ q ∈ terms, ∀ w ∈ q.2.waveforms, s.Closed w := by
  induction ps generalizing t terms with
  | nil =>
    cases h
    simp
  | cons q ps ih =>
    obtain ⟨hq, hps⟩ := forall_mem_cons.mp hps
    simp only [pulses, bind_eq_ok, return_eq_ok, Prod.mk.injEq] at h
    obtain ⟨⟨_, first⟩, hfirst, ⟨_, more⟩, hmore, rfl, rfl⟩ := h
    exact forall_mem_cons.mpr ⟨pulse_closed hq hfirst, ih hps hmore⟩

end EmulatorScope

/-! ### Programs -/

theorem Sequence.scanRecords_ahead {q : Sequence N} {given env : Env N}
    (hfresh : ∀ n ∈ q.recorded, given.has n = false) (h : q.scanRecords given = .ok env) (n : String) :
    given.AheadAt (· ∈ q.recorded) env n := by
  refine Sequence.scanRecords_keeps (P := fun env => given.AheadAt (· ∈ q.recorded) env n)
    (fun env name v hname henv => ?_) (.inl rfl) h
  by_cases hn : n = name
  · subst hn
    exact .inr ⟨by simpa [Env.has] using hfresh n hname, hname⟩
  · simpa only [Env.AheadAt, Env.lookup_insert, if_neg hn] using henv

/-- **Calling the waveforms of a program.** They are closed over what was given. At every time, a
call is the value with the recorded values, unless a name that is recorded is missing for the call,
or bound already for that value. -/
theorem EmulatorProgram.calls_behind {given : Env N} {radius : N} {threeLevel : Bool}
    {c : Circuit N} {p : EmulatorProgram N} (h : ofCircuit given radius threeLevel c = .ok p)
    (hfresh : ∀ n ∈ c.sequence.recorded, given.has n = false)
    (hcomposed : ∀ w ∈ c.sequence.waveforms, w.Composed) :
    ∃ env, c.sequence.scanRecords given = .ok env ∧ ∀ w ∈ p.waveforms, w.env = given ∧
      ∀ t, Behind (· ∈ c.sequence.recorded) (w.source.measure w.env t) (w.source.measure env t) := by
  obtain ⟨s, ps, hs, hps, hterms⟩ := ofCircuit_eq_ok h
  refine ⟨s.env, hs.env, fun w hw => ?_⟩
  obtain ⟨q, hq, hw⟩ := mem_flatMap.mp hw
  rw [hps] at hcomposed
  obtain ⟨hgiven, hw⟩ := EmulatorScope.pulses_closed
    (fun x hx u hu => hcomposed u (mem_flatMap.mpr ⟨x, hx, hu⟩)) hterms q hq w hw
  rw [hgiven, hs.same]
  exact ⟨rfl, fun t => (hw.elementary.eval_behind
    (fun n _ => Sequence.scanRecords_ahead hfresh hs.env n) _).bind fun _ => .same _⟩

/-- One atom, a rise whose end is recorded, and a hold. -/
def riseAndHold (level : Scalar Rat) : Circuit Rat where
  register := .plain (.list [⟨.lit 0, .lit 0, true⟩])
  sequence := .pulses [(.rydberg, .fields [(.detuning, ⟨[(.uniform, .append [
    .record (.linear (.lit 0) (.lit 1) (.lit 1)) "x", .constant level (.lit 1)])]⟩)])]

theorem riseAndHold_calls : ∃ p env,
    EmulatorProgram.ofCircuit [("a", .number 2)] 5 false (riseAndHold (.var "a")) = .ok p ∧
      (riseAndHold (.var "a")).sequence.scanRecords [("a", .number 2)] = .ok env ∧
      env.lookup "x" = some (.number 1) ∧ p.waveforms.length = 1 ∧
      ∀ w ∈ p.waveforms, w.env = [("a", .number 2)] ∧
        ∀ t, Behind (· ∈ ["x"]) (w.source.measure w.env t) (w.source.measure env t) := by
  obtain ⟨p, hp, hlength⟩ : ∃ p, EmulatorProgram.ofCircuit [("a", .number 2)] 5 false
      (riseAndHold (.var "a")) = .ok p ∧ p.waveforms.length = 1 :=
    ⟨_, by with_unfolding_all rfl, rfl⟩
  have hcomposed : ∀ w ∈ (riseAndHold (.var "a")).sequence.waveforms, w.Composed :=
    forall_mem_singleton.mpr (.append (forall_mem_cons.mpr
      ⟨.record .linear, forall_mem_singleton.mpr .constant⟩))
  obtain ⟨env, henv, hcalls⟩ := EmulatorProgram.calls_behind hp (by decide) hcomposed
  refine ⟨p, env, hp, henv, ?_, hlength, hcalls⟩
  cases henv
  with_unfolding_all rfl

/-- Where the hold is at the recorded value, the program lasts until 2, but its waveform cannot be
called after 1. -/
theorem riseAndHold_call_stops : ∃ p w env,
    EmulatorProgram.ofCircuit [] 5 false (riseAndHold (.var "x")) = .ok p ∧ p.duration = 2 ∧
      p.waveforms = [w] ∧ (riseAndHold (.var "x")).sequence.scanRecords [] = .ok env ∧
      w.source.measure w.env (3 / 2) = .error (.unassigned "x") ∧
      w.source.measure env (3 / 2) = .ok 1 := by
  exact ⟨_, _, _, by with_unfolding_all rfl, by with_unfolding_all rfl, rfl,
    by with_unfolding_all rfl, by with_unfolding_all rfl, by with_unfolding_all rfl⟩

end AtomArray
