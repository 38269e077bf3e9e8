import AtomArray.Proofs.DraftDuration

/-!
Programs of joined and cut sequences.

The pieces of a join are compiled on a draft that knows no register. It keeps up with the draft of
the whole circuit as long as all atoms are driven alike (`Shadows`); the first drive of single sites
stops it (`Echoes`).

So the join of a single sequence is the program of that sequence without its sites, or a fault if
single sites are driven (`HardwareProgram.ofCircuit_single`). Joins of several sequences and cuts
have no program at all (`HardwareProgram.ofCircuit_joins_and_cuts`).
-/

namespace AtomArray

open List Outcome Except

namespace HardwareDraft

variable {N : Type} [Arith N] {env : Env N} {shots : Int} {d d' own own' : HardwareDraft N}
  {p q : HardwareProgram N} {f : Field N} {m : Modulation N}

/-! ### Drafts without a register -/

/-- A draft without a register has the drives of another one, in which only all atoms are driven
alike. -/
structure Shadows (own d : HardwareDraft N) : Prop where
  siteCount : own.siteCount = none
  detuning : own.detuning = d.detuning
  amplitude : own.amplitude = d.amplitude
  phase : own.phase = d.phase
  ownLocal : own.localDetuning = none
  localDetuning : d.localDetuning = none

/-- What a step comes to without a register when it gives `d'` with one: it keeps up, or it fails
because single sites are driven. -/
inductive Echoes (d' : HardwareDraft N) : Outcome (HardwareDraft N) → Prop where
  | undriven {own : HardwareDraft N} : own.Shadows d' → Echoes d' (.ok own)
  | driven : d'.localDetuning.isSome → Echoes d' (.error .part)

theorem addModulation_of_siteCount_none (h : addModulation env d m = .ok d')
    (hown : own.siteCount = none) : addModulation env own m = .error .part := by
  have hsites : own.knownSites = .error .part := by rw [knownSites, hown]
  cases m with
  | uniform | scaled | boundVector => simp [addModulation, hsites]
  | vector name =>
    obtain ⟨n, base, _, -, ⟨v, hv, hitems, -⟩, -⟩ := addModulation_eq_ok h
    simp [addModulation, hv, hitems, hsites]

variable {x : FieldName × Field N}

theorem Shadows.echoes_addField (h : own.Shadows d)
    (hd : addField env d x = .ok d') : Echoes d' (addField env own x) := by
  obtain ⟨step, hsets, hstep⟩ := exists_sets hd
  rw [hstep] at hd ⊢
  cases hsets with
  | amplitude =>
    cases hd
    exact .undriven ⟨h.siteCount, h.detuning, rfl, h.phase, h.ownLocal, h.localDetuning⟩
  | phase =>
    cases hd
    exact .undriven ⟨h.siteCount, h.detuning, h.amplitude, rfl, h.ownLocal, h.localDetuning⟩
  | detuning =>
    cases hd
    exact .undriven ⟨h.siteCount, rfl, h.amplitude, h.phase, h.ownLocal, h.localDetuning⟩
  | sites =>
    dsimp only
    rw [addModulation_of_siteCount_none hd]
    · obtain ⟨_, _, _, -, -, -, rfl⟩ := addModulation_eq_ok hd
      exact .driven rfl
    · exact h.siteCount

theorem isSome_addField (h : addField env d x = .ok d')
    (hd : d.localDetuning.isSome) : d'.localDetuning.isSome := by
  obtain ⟨step, hsets, hstep⟩ := exists_sets h
  rw [hstep] at h
  cases hsets with
  | sites =>
    obtain ⟨_, _, _, -, -, -, rfl⟩ := addModulation_eq_ok h
    rfl
  | _ =>
    cases h
    exact hd

variable {fs : List (FieldName × Field N)}

theorem Shadows.echoes_addFields (h : own.Shadows d)
    (hd : fs.foldlM (addField env) d = .ok d') : Echoes d' (fs.foldlM (addField env) own) := by
  induction fs generalizing d own with
  | nil =>
    cases hd
    exact .undriven h
  | cons x fs ih =>
    rw [foldlM_cons] at hd ⊢
    obtain ⟨next, hnext, hd⟩ := bind_eq_ok.mp hd
    generalize hown : addField env own x = outcome
    cases hown ▸ h.echoes_addField hnext with
    | undriven hnext' => exact ih hnext' hd
    | driven hsome =>
      exact .driven (foldlM_keeps (fun _ _ _ _ hd hnext => isSome_addField hnext hd) hsome hd)

theorem PlainPulse.addPulse_eq {x : Pulse N} (h : PlainPulse x fs) (d : HardwareDraft N) :
    addPulse env shots d x = fs.foldlM (addField env) d := by
  induction h with
  | fields fs => rw [addPulse]
  | named name _ ih => rw [addPulse, ih]

theorem Shadows.echoes_addSequence (h : own.Shadows d) :
    ∀ {s : Sequence N}, addSequence env shots d s = .ok d' → Echoes d' (addSequence env shots own s)
  | .pulses ps, hd => by
    simp only [addSequence, addPulses] at hd ⊢
    split at hd
    · cases hd
    · rename_i hyperfine
      rw [if_neg hyperfine]
      cases hfind : ps.find? fun y => y.1 = .rydberg with
      | none =>
        obtain rfl : d = d' := by simpa [hfind] using hd
        exact .undriven h
      | some x =>
        obtain ⟨fs, hx, hfs⟩ := exists_plainPulse (p := x.2) (by simpa [hfind] using hd)
        simpa [hx.addPulse_eq] using h.echoes_addFields hfs
  | .named s name, hd => by
    rw [addSequence] at hd ⊢
    exact h.echoes_addSequence hd
  | .append [], hd => by
    rw [addSequence] at hd
    cases hd
  | .append [s], hd => by
    simp only [addSequence, appendAll, bind_eq_ok, pure_eq_ok, ok_bind, ok.injEq] at hd ⊢
    obtain ⟨inner, hinner, ⟨inner', q⟩, hemit, rfl⟩ := hd
    have hq := emit_siteless (Adds.of_addSequence hinner).kept hemit
    rw [hinner, ok_bind, hemit, ok_bind]
    exact .undriven ⟨h.siteCount, rfl, rfl, rfl, hq.localDetuning, hq.localDetuning⟩
  | .append (_ :: _ :: _), hd | .slice _ _, hd => by cases Adds.of_addSequence hd

/-! ### Programs without a register -/

theorem toProgram_of_siteless (hsites : d.sites = []) (hcoefficients : d.coefficients = none)
    {detuning amplitude : PiecewiseLinear N} {phase : PiecewiseConstant N}
    (hdetuning : d.detuning = some detuning) (hamplitude : d.amplitude = some amplitude)
    (hphase : d.phase = some phase) :
    d.toProgram shots = .ok ⟨shots, d.decoder, [], d.filling, detuning, amplitude, phase, none,
      d.localDetuning⟩ := by
  simp [toProgram, isIdle, hsites, hcoefficients, hdetuning, hamplitude, hphase]

theorem localDetuning_completed (h : d.completed = .ok d') :
    d'.localDetuning = d.localDetuning := by
  rcases completed_eq_ok h with rfl | ⟨_, _, _, rfl⟩ <;> rfl

theorem Shadows.completed (h : own.Shadows d) (hd : d.completed = .ok d') :
    ∃ own', own.completed = .ok own' ∧ own'.Shadows d' := by
  have hspans : own.spans = d.spans := by
    simp only [spans, h.amplitude, h.phase, h.detuning, h.ownLocal, h.localDetuning]
  rw [completed_eq] at hd
  obtain ⟨t, driven, ht, hdriven, hd⟩ := bind₂_eq_ok.mp hd
  cases hd
  refine ⟨_, by rw [completed_eq, hspans, ht, ok_bind, hdriven, ok_bind], ?_⟩
  cases driven with
  | false => exact h
  | true =>
    refine ⟨h.siteCount, ?_, ?_, ?_, h.ownLocal, h.localDetuning⟩
    · simp [h.detuning]
    · simp [h.amplitude]
    · simp [h.phase]

/-- The program of a draft without a register is that of the other one without its register. -/
theorem Shadows.toProgram (h : own.Shadows d) (hown : Kept {} own)
    (hd : d.toProgram shots = .ok p) :
    own.toProgram shots = .ok
      { p with decoder := none, sites := [], filling := [], coefficients := none } := by
  obtain ⟨hp, rfl, hamplitude, hphase⟩ := toProgram_eq_ok hd
  obtain ⟨hsites, hfilling, -, hcoefficients⟩ := hown.blank
  rw [toProgram_of_siteless hsites hcoefficients (h.detuning.trans hp.detuning)
    (h.amplitude.trans hamplitude) (h.phase.trans hphase), hown.decoder, hfilling, h.ownLocal,
    hp.localDetuning, h.localDetuning]

/-- A draft that has taken over a program without sites gives that program again. -/
theorem emit_adopt {d own : HardwareDraft Quantity} {p : HardwareProgram Quantity}
    (hown : own.toProgram shots = .ok p) (hp : Siteless p)
    (hends : ∀ span ∈ own.spans, IsEnding span) :
    (d.adopt p).emit shots = .ok (d.adopt p, { p with decoder := d.decoder }) := by
  obtain ⟨-, rfl, -, -⟩ := toProgram_eq_ok hown
  refine emit_eq_ok_iff.mpr ⟨completed_of_isSome rfl rfl rfl (spans_adopt hown ▸ hends), ?_⟩
  have hcoefficients : (d.adopt p).coefficients = none := by simp [adopt, hp.coefficients]
  rw [toProgram_of_siteless hp.sites hcoefficients rfl rfl rfl, ← hp.sites, ← hp.coefficients]
  rfl

end HardwareDraft

namespace HardwareProgram

open HardwareDraft

/-! ### Joins and cuts -/

section Circuits

variable {N : Type} [Arith N] {env : Env N} {limits : Option (Capabilities N)} {shots : Int}
  {a : Arrangement N} {s : Sequence N} {d : HardwareDraft N} {p : HardwareProgram N}

def startDraft (env : Env N) (limits : Option (Capabilities N)) :
    Arrangement N → Outcome (HardwareDraft N)
  | .plain r => HardwareDraft.addRegister env {} r
  | .tiled t => HardwareDraft.addTiling env limits {} t

theorem ofCircuit_eq : ofCircuit env limits shots ⟨a, s⟩ =
    startDraft env limits a >>= fun d => addSequence env shots d s >>= fun d₁ =>
      d₁.emit shots >>= fun r => .ok r.2 := by
  cases a <;> rfl

theorem ofCircuit_eq_ok_iff : ofCircuit env limits shots ⟨a, s⟩ = .ok p ↔
    ∃ d d₁ d₂, startDraft env limits a = .ok d ∧ addSequence env shots d s = .ok d₁ ∧
      d₁.emit shots = .ok (d₂, p) := by
  simp only [ofCircuit_eq, bind_eq_ok, ok.injEq]
  grind

theorem startDraft_eq_ok (h : startDraft env limits a = .ok d) :
    Shadows {} d ∧ d.coefficients = none := by
  cases a with
  | plain r =>
    simp only [startDraft, HardwareDraft.addRegister, bind_eq_ok, return_eq_ok] at h
    obtain ⟨_, -, _, -, rfl⟩ := h
    exact ⟨⟨rfl, rfl, rfl, rfl, rfl, rfl⟩, rfl⟩
  | tiled t =>
    cases limits with
    | none => cases h
    | some c =>
      obtain ⟨_, -, h⟩ := bind_eq_ok.mp h
      cases h
      exact ⟨⟨rfl, rfl, rfl, rfl, rfl, rfl⟩, rfl⟩

theorem ofCircuit_append_ne_ok {s' : Sequence N} {ss : List (Sequence N)} :
    ofCircuit env limits shots ⟨a, .append (s :: s' :: ss)⟩ ≠ .ok p := by
  intro h
  obtain ⟨_, _, _, -, hadd, -⟩ := ofCircuit_eq_ok_iff.mp h
  cases Adds.of_addSequence hadd

theorem ofCircuit_slice_ne_ok {i : Interval N} :
    ofCircuit env limits shots ⟨a, .slice s i⟩ ≠ .ok p := by
  intro h
  obtain ⟨_, _, _, -, hadd, -⟩ := ofCircuit_eq_ok_iff.mp h
  cases Adds.of_addSequence hadd

end Circuits

section Running

variable {env : Env Quantity} {limits : Option (Capabilities Quantity)} {shots : Int}
  {a : Arrangement Quantity} {s : Sequence Quantity} {d d' own own' : HardwareDraft Quantity}
  {p : HardwareProgram Quantity}

/-- **A single sequence that is joined** loses the sites of its program, and has none if single
sites are driven. -/
theorem ofCircuit_single (h : ofCircuit env limits shots ⟨a, s⟩ = .ok p) :
    ofCircuit env limits shots ⟨a, .append [s]⟩ = if p.localDetuning.isSome then .error .part
      else .ok { p with sites := [], filling := [] } := by
  obtain ⟨d, d₁, d₂, hd, hadd, hemit⟩ := ofCircuit_eq_ok_iff.mp h
  obtain ⟨hcompleted, hprogram⟩ := emit_eq_ok_iff.mp hemit
  obtain ⟨hshadow, hcoefficients⟩ := startDraft_eq_ok hd
  rw [ofCircuit_eq, hd, ok_bind, addSequence]
  generalize hown : addSequence env shots {} s = outcome
  cases hown ▸ hshadow.echoes_addSequence hadd with
  | driven hsome =>
    have hlocal : p.localDetuning = d₁.localDetuning :=
      (toProgram_eq_ok hprogram).1.localDetuning.trans (localDetuning_completed hcompleted)
    rw [if_pos (hlocal ▸ hsome)]
    rfl
  | @undriven own₁ hshadow₁ =>
    have hadds := Adds.of_addSequence hown
    obtain ⟨own₂, hown₂, hshadow₂⟩ := hshadow₁.completed hcompleted
    have hkept := hadds.kept.trans (completed_kept hown₂)
    have hq := hshadow₂.toProgram hkept hprogram
    have hends := ((hadds.dated dated_blank).of_completed hown₂).2
    have hp := (toProgram_eq_ok hprogram).1
    have hlocal : p.localDetuning = none := hp.localDetuning.trans hshadow₂.localDetuning
    have hkept₂ := (Adds.of_addSequence hadd).kept.trans (completed_kept hcompleted)
    have hcovered := hkept₂.covered (.of_none hshadow.localDetuning hcoefficients)
    have hnone : p.coefficients = none := by
      have hpaired := hp.isSome_coefficients.trans hcovered.paired.symm
      simpa [hshadow₂.localDetuning] using hpaired
    simp only [ok_bind, pure_eq_ok, appendAll,
      emit_eq_ok_iff.mpr ⟨hown₂, hq⟩, emit_adopt hq ⟨rfl, rfl, hlocal, rfl⟩ hends]
    simp [hlocal, hnone, hp.decoder.trans hkept₂.decoder]

/-- **Joins and cuts of sequences against those of programs.** Where the programs of the sequences
can be joined, the joined sequence has this program only if it is a single one, drives all atoms
alike and has no sites to lose. A sequence that is cut never has a program. -/
theorem ofCircuit_joins_and_cuts (env : Env Quantity) (limits : Option (Capabilities Quantity))
    (shots : Int) (a : Arrangement Quantity) :
    (∀ (s : Sequence Quantity) (ss : List (Sequence Quantity)) (p : HardwareProgram Quantity)
      (ps : List (HardwareProgram Quantity)) (q : HardwareProgram Quantity),
      ofCircuit env limits shots ⟨a, s⟩ = .ok p →
      ss.mapM (fun s => ofCircuit env limits shots ⟨a, s⟩) = .ok ps →
      ps.foldlM append p = .ok q →
      (ofCircuit env limits shots ⟨a, .append (s :: ss)⟩ = .ok q ↔
        ss = [] ∧ p.localDetuning = none ∧ p.sites = [] ∧ p.filling = [])) ∧
    ∀ (s : Sequence Quantity) (i : Interval Quantity) (q : HardwareProgram Quantity),
      ofCircuit env limits shots ⟨a, .slice s i⟩ ≠ .ok q := by
  refine ⟨?_, fun s i q => ofCircuit_slice_ne_ok⟩
  intro s ss p ps q hp hps hq
  cases ss with
  | cons s' ss =>
    constructor
    · intro h
      exact absurd h ofCircuit_append_ne_ok
    · rintro ⟨hnil, -⟩
      cases hnil
  | nil =>
    cases hps
    cases hq
    rw [ofCircuit_single hp]
    cases hlocal : p.localDetuning with
    | some series => simp
    | none =>
      obtain ⟨_, _, sites, filling, _, _, _, _, localDetuning⟩ := p
      obtain rfl : localDetuning = none := hlocal
      simp [eq_comm]

end Running

/-! ### One atom, and none -/

def oneSite : Arrangement Quantity := .plain (.list [⟨.lit 0, .lit 0, true⟩])

def firstSite : Sequence Quantity := .pulses [(.rydberg, .fields [(.detuning,
  ⟨[(.scaled [(0, .lit 1)], .constant (.lit 1) (.lit 1))]⟩)])]

def allSites : Sequence Quantity := .pulses [(.rydberg, .fields [(.detuning,
  ⟨[(.uniform, .constant (.lit 1) (.lit 1))]⟩)])]

def firstSiteProgram : HardwareProgram Quantity where
  shots := 1
  decoder := none
  sites := [(0, 0)]
  filling := [true]
  detuning := ⟨[0, 1], [0, 0]⟩
  amplitude := ⟨[0, 1], [0, 0]⟩
  phase := ⟨[0, 1], [0, 0]⟩
  coefficients := some [1]
  localDetuning := some ⟨[0, 1], [1, 1]⟩

def firstSiteTwice : HardwareProgram Quantity := { firstSiteProgram with
  detuning := ⟨[0, 1, 2], [0, 0, 0]⟩
  amplitude := ⟨[0, 1, 2], [0, 0, 0]⟩
  phase := ⟨[0, 1, 2], [0, 0, 0]⟩
  localDetuning := some ⟨[0, 1, 2], [1, 1, 1]⟩ }

def allSitesProgram : HardwareProgram Quantity := { firstSiteProgram with
  sites := []
  filling := []
  detuning := ⟨[0, 1], [1, 1]⟩
  coefficients := none
  localDetuning := none }

theorem ofCircuit_firstSite : ofCircuit [] none 1 ⟨oneSite, firstSite⟩ = .ok firstSiteProgram := by
  with_unfolding_all rfl

theorem append_firstSiteProgram :
    firstSiteProgram.append firstSiteProgram = .ok firstSiteTwice := by
  with_unfolding_all rfl

/-- Without any atom, a single sequence keeps its program; the program of one atom is not that of
the sequence joined to itself. -/
theorem ofCircuit_append_allSites :
    ofCircuit [] none 1 ⟨.plain (.list []), .append [allSites]⟩ = .ok allSitesProgram ∧
      ofCircuit [] none 1 ⟨oneSite, .append [firstSite, firstSite]⟩ ≠ .ok firstSiteTwice := by
  constructor
  · have hprogram : ofCircuit [] none 1 ⟨.plain (.list []), allSites⟩ = .ok allSitesProgram := by
      with_unfolding_all rfl
    exact ((ofCircuit_joins_and_cuts [] none 1 (.plain (.list []))).1 allSites [] allSitesProgram []
      allSitesProgram hprogram rfl rfl).mpr ⟨rfl, rfl, rfl, rfl⟩
  · have hpieces : [firstSite].mapM (fun s => ofCircuit [] none 1 ⟨oneSite, s⟩) =
        .ok [firstSiteProgram] := by
      simp [ofCircuit_firstSite]
    have hjoined : [firstSiteProgram].foldlM append firstSiteProgram = .ok firstSiteTwice := by
      simp [append_firstSiteProgram]
    intro h
    have hsingle := ((ofCircuit_joins_and_cuts [] none 1 oneSite).1 firstSite [firstSite]
      firstSiteProgram [firstSiteProgram] firstSiteTwice ofCircuit_firstSite hpieces hjoined).mp h
    exact absurd hsingle.1 (by simp)

/-- The program of the first site can be joined to itself, and cut. The sequence joined to itself
or cut has none. -/
theorem append_firstSite_fails :
    ofCircuit [] none 1 ⟨oneSite, firstSite⟩ = .ok firstSiteProgram ∧
      firstSiteProgram.append firstSiteProgram = .ok firstSiteTwice ∧
      ofCircuit [] none 1 ⟨oneSite, .append [firstSite, firstSite]⟩ = .error .part ∧
      firstSiteProgram.slice (.decimal 0) (.decimal 1) = .ok firstSiteProgram ∧
      ofCircuit [] none 1 ⟨oneSite, .slice firstSite
        ⟨some (.lit (.decimal 0)), some (.lit (.decimal 1))⟩⟩ = .error .part := by
  refine ⟨ofCircuit_firstSite, append_firstSiteProgram, ?_, ?_, ?_⟩ <;> with_unfolding_all rfl

end HardwareProgram

end AtomArray
