import AtomArray.Proofs.Aggregation
import AtomArray.Proofs.RecordedNames

/-!
How long a circuit is emulated.

While fields are compiled a clock is moved on to the end of every waveform that becomes a term.
`Longest env t P t'` says that it was at `t` and stands at the latest end, `t'`, of the waveforms
with `P`.

Not all drives of a circuit are looked at: where terms are made for each atom, a drive on vacant
sites is left out, and so is a phase without amplitude.
-/

namespace AtomArray

open List Outcome Waveform

namespace EmulatorScope

variable {s : EmulatorScope Rat} {env : Env Rat} {t t' t'' d : Rat} {w : Waveform Rat}
  {P Q : Waveform Rat → Prop}

/-! ### The clock -/

/-- The greatest of a time and the lengths of some waveforms. -/
def Longest (env : Env Rat) (t : Rat) (P : Waveform Rat → Prop) (t' : Rat) : Prop :=
  IsGreatest {x | x = t ∨ ∃ w, P w ∧ w.length env = .ok x} t'

theorem Longest.le (h : Longest env t P t') : t ≤ t' := h.2 (.inl rfl)

theorem Longest.congr (h : Longest env t P t') (hPQ : ∀ w, P w ↔ Q w) : Longest env t Q t' := by
  rwa [← funext fun w => propext (hPQ w)]

theorem longest_none (h : ∀ w, ¬P w) : Longest env t P t := by
  refine ⟨.inl rfl, ?_⟩
  rintro x (rfl | ⟨w, hw, -⟩)
  · exact le_rfl
  · exact absurd hw (h w)

theorem Longest.trans (h : Longest env t P t') (h' : Longest env t' Q t'') :
    Longest env t (fun w => P w ∨ Q w) t'' := by
  refine ⟨?_, ?_⟩
  · rcases h'.1 with rfl | ⟨w, hw, hlength⟩
    · exact h.1.imp_right (Exists.imp fun w hw => ⟨.inl hw.1, hw.2⟩)
    · exact .inr ⟨w, .inr hw, hlength⟩
  · rintro x (rfl | ⟨w, hw | hw, hlength⟩)
    · exact h.le.trans h'.le
    · exact (h.2 (.inr ⟨w, hw, hlength⟩)).trans h'.le
    · exact h'.2 (.inr ⟨w, hw, hlength⟩)

/-- A later start moves the end only if it comes after it. -/
theorem Longest.max (h : Longest env t P t') (c : Rat) : Longest env (max t c) P (max t' c) := by
  refine ⟨?_, ?_⟩
  · rcases le_total t' c with hc | hc
    · exact .inl (by rw [max_eq_right hc, max_eq_right (h.le.trans hc)])
    · rw [max_eq_left hc]
      exact h.1.imp (fun heq => by rw [← heq, max_eq_left hc]) id
  · rintro x (rfl | hx)
    · exact max_le_max_right c h.le
    · exact (h.2 (.inr hx)).trans (le_max_left t' c)

/-- More waveforms change nothing exactly if those that come in addition end in time. -/
theorem Longest.iff_of_imp (h : Longest env t P t') (hPQ : ∀ w, P w → Q w) :
    Longest env t Q t' ↔ ∀ w, Q w → ¬P w → ∀ x, w.length env = .ok x → x ≤ t' := by
  constructor
  · exact fun hQ w hw _ x hx => hQ.2 (.inr ⟨w, hw, hx⟩)
  · refine fun hlate => ⟨h.1.imp_right (Exists.imp fun w hw => ⟨hPQ w hw.1, hw.2⟩), ?_⟩
    rintro x (rfl | ⟨w, hw, hx⟩)
    · exact h.le
    · by_cases hP : P w
      · exact h.2 (.inr ⟨w, hP, hx⟩)
      · exact hlate w hw hP x hx

theorem extend_eq_ok (h : s.extend t w = .ok t') : ∃ d, w.length s.env = .ok d ∧ t' = max d t := by
  simp only [extend, Exact.measured_eq, Exact.lt_eq, bind_eq_ok, pure_eq_ok, Except.ok.injEq, decide_eq_true_eq, exists_eq_left'] at h
  obtain ⟨d, hd, rfl⟩ := h
  exact ⟨d, hd, by rw [max_def_lt]⟩

theorem longest_one (hw : w.length env = .ok d) (t : Rat) : Longest env t (· = w) (max d t) := by
  refine ⟨?_, ?_⟩
  · rcases max_choice d t with hmax | hmax
    · exact .inr ⟨w, rfl, hmax.symm ▸ hw⟩
    · exact .inl hmax
  · rintro x (rfl | ⟨w, rfl, hx⟩)
    · exact le_max_right d x
    · rw [hw] at hx
      cases hx
      exact le_max_left d t

theorem longest_extend (h : s.extend t w = .ok t') : Longest s.env t (· = w) t' := by
  obtain ⟨d, hd, rfl⟩ := extend_eq_ok h
  exact longest_one hd t

/-- The clock after steps each of which moves it to the ends of some waveforms. -/
theorem longest_foldlM {α : Type} {P : α → Waveform Rat → Prop} {step : Rat → α → Outcome Rat}
    (hstep : ∀ {t t'} x, 0 ≤ t → step t x = .ok t' → Longest env t (P x) t') {xs : List α}
    (ht : 0 ≤ t) (h : xs.foldlM step t = .ok t') :
    Longest env t (fun w => ∃ x ∈ xs, P x w) t' := by
  induction xs generalizing t with
  | nil =>
    cases h
    exact longest_none (by simp)
  | cons x xs ih =>
    obtain ⟨next, hnext, h⟩ := bind_eq_ok.mp h
    have hfirst := hstep x ht hnext
    exact (hfirst.trans (ih (ht.trans hfirst.le) h)).congr fun w => by simp

theorem longest_drives {f : Field Rat} (ht : 0 ≤ t)
    (h : (f.drives.map Prod.snd).foldlM s.extend t = .ok t') :
    Longest s.env t (· ∈ f.waveforms) t' :=
  (longest_foldlM (P := fun u w => w = u) (fun _ _ => longest_extend) ht h).congr fun w => by
    simp [Field.waveforms]

/-! ### Sums of drives -/

/-- The waveforms of the drives on an atom. -/
def Aims (ds : List (AimedDrive Rat)) (a : Nat) (w : Waveform Rat) : Prop :=
  ∃ e ∈ ds, (e.targets.lookup a).isSome ∧ e.waveform = w

variable {ds phases : List (AimedDrive Rat)} {a : Nat} {f p : Field Rat}

theorem aims_cons {e : AimedDrive Rat} :
    Aims (e :: ds) a w ↔ ((e.targets.lookup a).isSome ∧ e.waveform = w) ∨ Aims ds a w := by
  simp [Aims]

theorem longest_foldlM_withDrive (hds : ∀ e ∈ ds, e.waveform.Lasting env) {acc : Waveform Rat}
    (hacc : acc.Lasting env) (hlength : acc.length env = .ok t)
    (h : ds.foldlM (withDrive a) acc = .ok w) :
    ∃ d, w.length env = .ok d ∧ Longest env t (Aims ds a) d := by
  induction ds generalizing acc t with
  | nil =>
    cases h
    exact ⟨t, hlength, longest_none (by simp [Aims])⟩
  | cons e ds ih =>
    obtain ⟨he, hds⟩ := forall_mem_cons.mp hds
    obtain ⟨next, hnext, h⟩ := bind_eq_ok.mp h
    rw [withDrive] at hnext
    cases hweight : e.targets.lookup a with
    | none =>
      rw [hweight] at hnext
      cases hnext
      obtain ⟨d, hd, hlongest⟩ := ih hds hacc hlength h
      exact ⟨d, hd, hlongest.congr fun w => by simp [aims_cons, hweight]⟩
    | some weight =>
      simp only [hweight] at hnext
      obtain ⟨x, -, hx⟩ := he.exists_length
      have hscale : (scale (.lit weight) e.waveform).length env = .ok x := hx
      obtain ⟨u, hu, hfollows⟩ := (hacc.add (.scale (s := .lit weight) he)).canonFollows
      obtain rfl : u = next := Except.ok.inj (hu.symm.trans hnext)
      obtain ⟨d, hd, hlongest⟩ := ih hds hfollows.lasting
        (hfollows.length _ (length_add hlength hscale)) h
      rw [max_comm] at hlongest
      exact ⟨d, hd, ((longest_one hx t).trans hlongest).congr fun w => by
        simp [aims_cons, hweight, eq_comm]⟩

theorem longest_total (hds : ∀ e ∈ ds, e.waveform.Lasting s.env) (ht : 0 ≤ t)
    (h : s.extendTotal ds t a = .ok t') : Longest s.env t (Aims ds a) t' := by
  have hnothing : (nothing : Waveform Rat).length s.env = .ok 0 := by
    refine length_of_duration rfl ?_
    simp [Scalar.const, Scalar.eval, Decimal.toRat, Arith.ofDecimal]
  obtain ⟨w, hw, h⟩ := bind_eq_ok.mp h
  rw [total_eq_foldlM] at hw
  obtain ⟨d, hd, hlongest⟩ := longest_foldlM_withDrive hds (nothing_lasting s.env) hnothing hw
  obtain ⟨x, hx, rfl⟩ := extend_eq_ok h
  obtain rfl : d = x := Except.ok.inj (hd.symm.trans hx)
  have hmax := hlongest.max t
  rwa [max_eq_right ht] at hmax

theorem isDriven_iff_aims : isDriven ds a ↔ ∃ w, Aims ds a w := by
  simp [isDriven, Aims]

/-- The waveform is that of a drive of a field on an atom. -/
def Acts (s : EmulatorScope Rat) (f : Field Rat) (a : Nat) (w : Waveform Rat) : Prop :=
  a ∈ s.atoms ∧ ∃ ds, s.aimed f = .ok ds ∧ Aims ds a w

theorem acts_iff (hds : s.aimed f = .ok ds) : s.Acts f a w ↔ a ∈ s.atoms ∧ Aims ds a w := by
  simp [Acts, hds]

theorem Acts.mem_waveforms (h : s.Acts f a w) : w ∈ f.waveforms := by
  obtain ⟨-, ds, hds, e, he, -, rfl⟩ := h
  exact forall_aimed hds (Q := (· ∈ f.waveforms)) (fun _ => mem_map_of_mem) e he

theorem exists_aims_iff (hds : s.aimed f = .ok ds) :
    (∃ a ∈ s.atoms.filter (isDriven ds), Aims ds a w) ↔ w ∈ f.waveforms ∧ ∃ a, s.Acts f a w := by
  rw [and_iff_right_of_imp fun h => h.elim fun _ => Acts.mem_waveforms]
  simp only [acts_iff hds, mem_filter, isDriven_iff_aims, and_assoc]
  exact exists_congr fun a => and_congr_right fun _ => and_iff_right_of_imp (⟨w, ·⟩)

theorem driven_aims_iff (hds : s.aimed f = .ok ds) (hphases : s.aimed p = .ok phases) :
    (∃ a ∈ s.atoms.filter (isDriven ds), Aims ds a w ∨ Aims phases a w) ↔
      (w ∈ f.waveforms ∧ ∃ a, s.Acts f a w) ∨
        w ∈ p.waveforms ∧ ∃ a, s.Acts p a w ∧ ∃ u, s.Acts f a u := by
  rw [← exists_aims_iff hds, and_iff_right_of_imp fun h => h.elim fun _ h => h.1.mem_waveforms]
  simp only [acts_iff hds, acts_iff hphases, and_or_left, exists_or, mem_filter, isDriven_iff_aims]
  refine or_congr_right (exists_congr fun a => ?_)
  rw [exists_and_left]
  tauto

theorem longest_atoms (hf : f.Lasting s.env) (hds : s.aimed f = .ok ds) (ht : 0 ≤ t)
    (h : (s.atoms.filter (isDriven ds)).foldlM (s.extendTotal ds) t = .ok t') :
    Longest s.env t (fun w => w ∈ f.waveforms ∧ ∃ a, s.Acts f a w) t' :=
  (longest_foldlM (P := Aims ds) (fun _ => longest_total (forall_aimed hds hf)) ht h).congr fun _ =>
    exists_aims_iff hds

/-! ### Fields -/

/-- Terms are made for each drive of an amplitude. -/
def ByDrive (s : EmulatorScope Rat) (amplitude : Field Rat) (phase : Option (Field Rat)) : Prop :=
  s.isSmall amplitude ∧ ∀ p ∈ phase, ∃ w, p.drives = [(.uniform, w)]

theorem byDrive_iff : s.ByDrive f (some p) ↔
    ∃ w, (if s.isSmall f then solePhase? p else none) = some w := by
  have hsole : ∀ w, solePhase? p = some w ↔ p.drives = [(.uniform, w)] := fun w =>
    ⟨solePhase?_eq_some, fun h => by rw [solePhase?, h]⟩
  cases hsmall : s.isSmall f <;> simp [ByDrive, hsmall, hsole]

/-- The drives of a detuning that move the clock. -/
def DetuningCounts (s : EmulatorScope Rat) (detuning : Option (Field Rat)) (w : Waveform Rat) :
    Prop :=
  ∃ f ∈ detuning, w ∈ f.waveforms ∧ (s.isSmall f ∨ ∃ a, s.Acts f a w)

/-- The drives of an amplitude that move the clock. -/
def AmplitudeCounts (s : EmulatorScope Rat) (amplitude phase : Option (Field Rat))
    (w : Waveform Rat) : Prop :=
  ∃ f ∈ amplitude, w ∈ f.waveforms ∧ (s.ByDrive f phase ∨ ∃ a, s.Acts f a w)

/-- The drives of a phase that move the clock: where terms are made for each atom, those on atoms
that the amplitude acts on. -/
def PhaseCounts (s : EmulatorScope Rat) (amplitude phase : Option (Field Rat)) (w : Waveform Rat) :
    Prop :=
  ∃ f ∈ amplitude, ∃ p ∈ phase, w ∈ p.waveforms ∧
    (s.ByDrive f phase ∨ ∃ a, s.Acts p a w ∧ ∃ u, s.Acts f a u)

theorem longest_detuning {field : Option (Field Rat)} {terms : List (DetuningTerm Rat)}
    (hf : ∀ f ∈ field, f.Lasting s.env) (ht : 0 ≤ t) (h : s.detuning t field = .ok (t', terms)) :
    Longest s.env t (s.DetuningCounts field) t' := by
  cases field with
  | none =>
    cases h
    exact longest_none (by simp [DetuningCounts])
  | some f =>
    rw [detuning] at h
    split at h
    · rename_i hsmall
      obtain ⟨ds, -, -, hclock⟩ := detuningByDrive_eq_ok h
      exact (longest_drives ht hclock).congr fun w => by simp [DetuningCounts, hsmall]
    · rename_i hsmall
      obtain ⟨ds, hds, h⟩ := bind_eq_ok.mp h
      exact (longest_atoms (hf f rfl) hds ht (detuningByAtom_eq_ok h).2).congr fun w => by
        simp [DetuningCounts, hsmall]

theorem longest_rabi {amplitude phase : Option (Field Rat)} {terms : List (RabiTerm Rat)}
    (ha : ∀ f ∈ amplitude, f.Lasting s.env) (hp : ∀ f ∈ phase, f.Lasting s.env) (ht : 0 ≤ t)
    (h : s.rabi t amplitude phase = .ok (t', terms)) :
    Longest s.env t (fun w => s.AmplitudeCounts amplitude phase w ∨ s.PhaseCounts amplitude phase w)
      t' := by
  cases amplitude with
  | none =>
    cases h
    exact longest_none (by simp [AmplitudeCounts, PhaseCounts])
  | some f =>
    cases phase with
    | none =>
      rw [rabi] at h
      split at h
      · rename_i hsmall
        obtain ⟨ds, -, -, hclock⟩ := rabiByDrive_eq_ok h
        exact (longest_drives ht hclock).congr fun w => by
          simp [AmplitudeCounts, PhaseCounts, ByDrive, hsmall]
      · rename_i hsmall
        obtain ⟨ds, hds, h⟩ := bind_eq_ok.mp h
        exact (longest_atoms (ha f rfl) hds ht (rabiByAtom_eq_ok h).2).congr fun w => by
          simp [AmplitudeCounts, PhaseCounts, ByDrive, hsmall]
    | some p =>
      rw [rabi] at h
      split at h
      · rename_i w hsole
        obtain ⟨first, hfirst, h⟩ := bind_eq_ok.mp h
        obtain ⟨ds, -, -, hclock⟩ := rabiByDrive_eq_ok h
        have hphase := longest_extend hfirst
        obtain ⟨hsmall, -⟩ := byDrive_iff.mpr ⟨w, hsole⟩
        refine (hphase.trans (longest_drives (ht.trans hphase.le) hclock)).congr fun v => ?_
        rw [if_pos hsmall] at hsole
        simp [AmplitudeCounts, PhaseCounts, ByDrive, hsmall, Field.waveforms,
          solePhase?_eq_some hsole, or_comm]
      · obtain ⟨phases, ds, hphases, hds, h⟩ := bind₂_eq_ok.mp h
        refine (longest_foldlM (P := fun a w => Aims ds a w ∨ Aims phases a w)
          (fun {t t'} a ht h => ?_) ht (rabiPhaseByAtom_eq_ok h).2).congr fun w => ?_
        · obtain ⟨next, hnext, h⟩ := bind_eq_ok.mp h
          have hamplitude := longest_total (forall_aimed hds (ha f rfl)) ht hnext
          exact hamplitude.trans
            (longest_total (forall_aimed hphases (hp p rfl)) (ht.trans hamplitude.le) h)
        · have hdrive : ¬s.ByDrive f (some p) := by simp [byDrive_iff, *]
          rw [driven_aims_iff hds hphases]
          simp [AmplitudeCounts, PhaseCounts, hdrive]

/-! ### Pulses and programs -/

/-- The drives of a pulse that move the clock. -/
def Counts (s : EmulatorScope Rat) (p : Pulse Rat) (w : Waveform Rat) : Prop :=
  let named := field? p.plainFields
  s.DetuningCounts (named .detuning) w ∨ s.AmplitudeCounts (named .amplitude) (named .phase) w ∨
    s.PhaseCounts (named .amplitude) (named .phase) w

variable {p : Pulse Rat}

theorem longest_pulse {terms : DriveTerms Rat}
    (hp : ∀ x ∈ p.plainFields, x.2.Lasting s.env) (ht : 0 ≤ t)
    (h : s.pulse t p = .ok (t', terms)) : Longest s.env t (s.Counts p) t' := by
  induction p using Pulse.plainFields.induct with
  | case1 fs =>
    obtain ⟨⟨first, _⟩, ⟨last, _⟩, hdetuning, hrabi, h⟩ := bind₂_eq_ok.mp h
    cases h
    have hfirst := longest_detuning (fun _ => field?_lasting hp) ht hdetuning
    exact hfirst.trans (longest_rabi (fun _ => field?_lasting hp) (fun _ => field?_lasting hp)
      (ht.trans hfirst.le) hrabi)
  | case2 name p ih => exact ih hp h
  | case3 => cases h
  | case4 => cases h

theorem longest_pulses {ps : List (Coupling × Pulse Rat)} {terms : List (Coupling × DriveTerms Rat)}
    (hps : ∀ q ∈ ps, ∀ x ∈ q.2.plainFields, x.2.Lasting s.env) (ht : 0 ≤ t)
    (h : s.pulses t ps = .ok (t', terms)) :
    Longest s.env t (fun w => ∃ q ∈ ps, s.Counts q.2 w) t' := by
  induction ps generalizing t terms with
  | nil =>
    cases h
    exact longest_none (by simp)
  | cons q ps ih =>
    obtain ⟨hq, hps⟩ := forall_mem_cons.mp hps
    obtain ⟨⟨next, _⟩, ⟨_, more⟩, hnext, hmore, h⟩ := bind₂_eq_ok.mp h
    cases h
    have hfirst := longest_pulse hq ht hnext
    exact (hfirst.trans (ih hps (ht.trans hfirst.le) hmore)).congr fun w => by simp

theorem mem_waveforms_of_plainFields {x : FieldName × Field Rat}
    (hx : x ∈ p.plainFields) (hw : w ∈ x.2.waveforms) : w ∈ p.waveforms := by
  induction p using Pulse.plainFields.induct with
  | case1 fs => exact mem_flatMap.mpr ⟨x, hx, hw⟩
  | case2 name p ih => exact ih hx
  | case3 => cases hx
  | case4 => cases hx

theorem Counts.mem_waveforms (h : s.Counts p w) : w ∈ p.waveforms := by
  have hfield : ∀ {n f}, f ∈ field? p.plainFields n → w ∈ f.waveforms → w ∈ p.waveforms := by
    intro n f hf hw
    obtain ⟨x, hx, rfl⟩ := Option.map_eq_some_iff.mp hf
    exact mem_waveforms_of_plainFields (mem_of_find?_eq_some hx) hw
  rcases h with ⟨f, hf, hw, -⟩ | ⟨f, hf, hw, -⟩ | ⟨-, -, f, hf, hw, -⟩ <;> exact hfield hf hw

end EmulatorScope

/-- The duration of a program is the greatest length of the drives that move the clock. It is that
of all drives exactly if none of the others is longer. -/
theorem EmulatorProgram.duration_greatest {given : Env Rat} {radius : Rat} {threeLevel : Bool}
    {c : Circuit Rat} {p : EmulatorProgram Rat} (h : ofCircuit given radius threeLevel c = .ok p)
    (hlasting : ∀ env, c.sequence.scanRecords given = .ok env →
      ∀ w ∈ c.sequence.waveforms, w.Lasting env) :
    ∃ s ps, c.CompiledWith given s ∧ c.sequence = .pulses ps ∧
      IsGreatest {x | x = 0 ∨ ∃ w, (∃ q ∈ ps, s.Counts q.2 w) ∧ w.length s.env = .ok x}
        p.duration ∧
      (IsGreatest {x | x = 0 ∨ ∃ w ∈ c.sequence.waveforms, w.length s.env = .ok x} p.duration ↔
        ∀ w ∈ c.sequence.waveforms, (¬∃ q ∈ ps, s.Counts q.2 w) →
          ∀ x, w.length s.env = .ok x → x ≤ p.duration) := by
  obtain ⟨s, ps, hs, hps, hterms⟩ := ofCircuit_eq_ok h
  have hwaveforms : c.sequence.waveforms = ps.flatMap fun q => q.2.waveforms := by rw [hps]; rfl
  have hfields : ∀ q ∈ ps, ∀ x ∈ q.2.plainFields, x.2.Lasting s.env := by
    intro q hq x hx drive hdrive
    refine hlasting s.env hs.env _ (hwaveforms ▸ mem_flatMap.mpr ⟨q, hq, ?_⟩)
    exact EmulatorScope.mem_waveforms_of_plainFields hx (mem_map_of_mem hdrive)
  have hlongest := EmulatorScope.longest_pulses hfields le_rfl hterms
  refine ⟨s, ps, hs, hps, hlongest, hlongest.iff_of_imp fun w hw => ?_⟩
  obtain ⟨q, hq, hw⟩ := hw
  exact hwaveforms ▸ mem_flatMap.mpr ⟨q, hq, hw.mem_waveforms⟩

/-- Two sites, the second of them vacant, and two drives on the vacant one. -/
def vacancyDriven : Circuit Rat where
  register := .plain (.list [⟨.lit 0, .lit 0, true⟩, ⟨.lit 5, .lit 0, false⟩])
  sequence := .pulses [(.rydberg, .fields [(.detuning, ⟨[
    (.scaled [(1, .lit 1)], .constant (.lit 1) (.lit 1)),
    (.scaled [(1, .lit 2)], .constant (.lit 1) (.lit 2))]⟩)])]

theorem vacancyDriven_lasting (env : Env Rat) :
    ∀ w ∈ vacancyDriven.sequence.waveforms, w.Lasting env := by
  have hconstant (d : Rat) (hd : 0 ≤ d) : (constant (.lit 1) (.lit d)).Lasting env :=
    .constant (x := d) (by simp [Scalar.eval]) hd
  simp [vacancyDriven, Sequence.waveforms, Pulse.waveforms, Bundle.fold, Bundle.gather,
    Field.waveforms, hconstant]

theorem vacancyDriven_duration :
    ∃ p, EmulatorProgram.ofCircuit [] 5 false vacancyDriven = .ok p ∧ p.duration = 0 :=
  ⟨_, by with_unfolding_all rfl, rfl⟩

/-- No drive moves the clock. -/
theorem vacancyDriven_greatest : ∃ s ps, vacancyDriven.CompiledWith [] s ∧
    vacancyDriven.sequence = .pulses ps ∧
    IsGreatest {x | x = 0 ∨ ∃ w, (∃ q ∈ ps, s.Counts q.2 w) ∧ w.length s.env = .ok x} 0 := by
  obtain ⟨p, hp, hduration⟩ := vacancyDriven_duration
  obtain ⟨s, ps, hs, hps, hgreatest, -⟩ :=
    EmulatorProgram.duration_greatest hp fun env _ => vacancyDriven_lasting env
  exact ⟨s, ps, hs, hps, hduration ▸ hgreatest⟩

/-- The emulation takes no time, although there is a drive that takes some. -/
theorem vacancyDriven_cut_off :
    (∃ p, EmulatorProgram.ofCircuit [] 5 false vacancyDriven = .ok p ∧ p.duration = 0) ∧
      ∃ w ∈ vacancyDriven.sequence.waveforms, w.length [] = .ok 2 := by
  refine ⟨vacancyDriven_duration, .constant (.lit 1) (.lit 2), ?_, rfl⟩
  simp [vacancyDriven, Sequence.waveforms, Pulse.waveforms, Bundle.fold, Bundle.gather,
    Field.waveforms]

end AtomArray
