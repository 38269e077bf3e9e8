import AtomArray.Proofs.CompileLog

/-!
Compiling with a cache.

* `EmulatorProgram.terms_act_on_first_coupling`: with three levels, the terms of a program act on
  the coupling of the first term with the same data.
* `EmulatorProgram.inTurn_agrees_alone`: with two levels, a program that shares the cache of others
  gets the Hamiltonian of the first register that matches its own.

Both follow from what the log of all questions says (`EmulatorProgram.hamiltonian_compiled`).
-/

namespace AtomArray

open List Asked EmulatorProgram AtomRegister CompileCache Coupling Option

section Cache

variable {α : Type} [AddCommGroup α] {e : Entries Rat α} {p : EmulatorProgram Rat}

/-! ### The terms of one program -/

/-- The diagonal of a shift of the coupling `κ`: at each configuration, less the weights of the
targets that are at the upper level of the coupling. -/
def ShiftsOn (e : Entries Rat α) (s : Space) (κ : Coupling) (targets : Targets Rat)
    (diagonal : Array α) : Prop :=
  ∀ (i c : Nat), s.configurations[i]? = some c →
    diagonal[i]? = some (-(targets.weightAt e s.kind.levels (κ.levels s.kind).2 c))

/-- The operator of a drive of the coupling `κ`: it connects the configurations that differ in the
level of one target, between the levels of the coupling. -/
def DrivesOn (s : Space) (κ : Coupling) (kind : RabiKind) (targets : Targets Rat)
    (op : Coupler α) : Prop :=
  ∀ (i j c c' : Nat), s.configurations[i]? = some c → s.configurations[j]? = some c' →
    (op.Connects i j ↔ ∃ t ∈ targets, Space.Drives kind (κ.levels s.kind).1 t.1 c c')

namespace EmulatorProgram

variable (p : EmulatorProgram Rat)

def shiftCoupling? (targets : Targets Rat) : Option Coupling :=
  (p.shifts.find? fun x => Targets.same x.2.targets targets).map Prod.fst

/-- The coupling of the first drive of the given kind with the given targets. -/
def driveCoupling? (kind : RabiKind) (targets : Targets Rat) : Option Coupling :=
  (p.drives.find? fun x => x.2.kind == kind && Targets.same x.2.targets targets).map Prod.fst

end EmulatorProgram

theorem Coupling.levels_threeLevel (κ : Coupling) :
    (κ.levels .threeLevel).2 = (κ.levels .threeLevel).1 + 1 ∧ (κ.levels .threeLevel).1 + 1 < 3 := by
  cases κ <;> decide

theorem exactSpace_regular (r : AtomRegister Rat) : r.exactSpace.Regular :=
  Space.ofNear_regular _ _ _

variable {targets : Targets Rat}

theorem shiftsOn_diagonal {y : Asked Unit} (h : y.targets.Perm targets) :
    ShiftsOn e y.home.exactSpace y.coupling targets (y.diagonal e) := by
  intro i c hi
  rw [Asked.diagonal, detuningDiagonal_perm h, getElem?_detuningDiagonal hi,
    exactSpace_kind]

theorem drivesOn_coupler {y : Asked RabiKind}
    (hkind : y.home.kind = .threeLevel) (h : y.targets.Perm targets) :
    DrivesOn y.home.exactSpace y.coupling y.kind targets (y.coupler e) := by
  intro i j c c' hi hj
  have hspace : y.home.exactSpace.kind = .threeLevel := y.home.exactSpace_kind.trans hkind
  obtain ⟨hhigh, hlow⟩ := y.coupling.levels_threeLevel
  rw [Asked.coupler, (coupler_agrees h).connects, hkind, hhigh,
    connects_coupler (exactSpace_regular _) hspace hlow hi hj, hspace]

/-- The first item of a list that passes a test and the value read off it, if every item that
passes gives that value. -/
theorem find?_map_eq_of_forall {ρ σ : Type} {f : ρ → σ} {q : ρ → Bool} {xs : List ρ} {x : ρ}
    (hx : x ∈ xs) (hqx : q x) (h : ∀ y ∈ xs, q y → f y = f x) :
    (xs.find? q).map f = some (f x) := by
  cases hfind : xs.find? q with
  | none => exact absurd hqx (by simpa using find?_eq_none.mp hfind x hx)
  | some y =>
    rw [map_some, h y (mem_of_find?_eq_some hfind) (find?_some hfind)]

section Answered

variable {κ τ ω : Type} [DecidableEq κ] {ask : τ → Asked κ} {make : τ → Asked κ → ω} {x : τ}
  {op : ω}

omit [AddCommGroup α] in
/-- The question from which an operator is made agrees with its own in all that is compared. -/
theorem Asked.Answered.exists_same {log : List (Asked κ)} (h : Answered ask make log x op)
    (hlog : ∀ y ∈ log, y.targets.Distinct) (hx : (ask x).targets.Distinct) :
    ∃ y ∈ log, log.find? (ask x).fits = some y ∧ op = make x y ∧
      y.register.matches (ask x).register ∧ y.kind = (ask x).kind ∧
      y.targets.Perm (ask x).targets := by
  obtain ⟨y, hfind, hop⟩ := h
  have hy := mem_of_find?_eq_some hfind
  exact ⟨y, hy, hfind, hop, (Asked.fits_iff hx (hlog y hy)).mp (find?_some hfind)⟩

/-- Among questions that are asked in turn it is that of the first term that fits. -/
theorem Asked.Answered.first {xs : List τ} (h : Answered ask make (xs.map ask) x op)
    (hxs : ∀ y ∈ xs, (ask y).targets.Distinct) (hx : x ∈ xs) :
    ∃ z, xs.find? (fun y => (ask x).fits (ask y)) = some z ∧ op = make x (ask z) ∧
      (ask z).kind = (ask x).kind ∧ (ask z).targets.Perm (ask x).targets := by
  obtain ⟨y, -, hfind, hop, -, hkind, hperm⟩ :=
    h.exists_same (by simpa using hxs) (hxs x hx)
  rw [find?_map] at hfind
  obtain ⟨z, hz, rfl⟩ := map_eq_some_iff.mp hfind
  exact ⟨z, hz, hop, hkind, hperm⟩

end Answered

variable {r : AtomRegister Rat}

theorem exists_shiftsOn {x : Coupling × DetuningTerm Rat}
    {op : DetuningOperator Rat α} (hp : p.Distinct) (hx : x ∈ p.shifts)
    (h : Answered (askShift r r) (shiftOperator e) (p.shifts.map (askShift r r)) x op) :
    ∃ κ, p.shiftCoupling? x.2.targets = some κ ∧
      ShiftsOn e r.exactSpace κ x.2.targets op.diagonal := by
  obtain ⟨z, hz, rfl, -, hperm⟩ := h.first hp.shifts hx
  have hsame : (p.shifts.find? fun y => Targets.same y.2.targets x.2.targets) = some z := by
    simpa [Asked.fits, askShift, matches_refl] using hz
  refine ⟨z.1, ?_, shiftsOn_diagonal hperm⟩
  rw [shiftCoupling?, hsame, map_some]

theorem exists_drivesOn {x : Coupling × RabiTerm Rat}
    {op : RabiOperator Rat α} (hkind : r.kind = .threeLevel) (hp : p.Distinct) (hx : x ∈ p.drives)
    (h : Answered (askDrive r r) (driveOperator e) (p.drives.map (askDrive r r)) x op) :
    ∃ κ, p.driveCoupling? x.2.kind x.2.targets = some κ ∧
      DrivesOn r.exactSpace κ x.2.kind x.2.targets op.coupler := by
  obtain ⟨z, hz, rfl, hzx, hperm⟩ := h.first hp.drives hx
  have hsame : (p.drives.find? fun y =>
      y.2.kind == x.2.kind && Targets.same y.2.targets x.2.targets) = some z := by
    simpa [Asked.fits, askDrive, matches_refl] using hz
  have hdrives := drivesOn_coupler (y := askDrive r r z) (e := e) hkind hperm
  rw [hzx] at hdrives
  refine ⟨z.1, ?_, hdrives⟩
  rw [driveCoupling?, hsame, map_some]

/-- **Terms act on the coupling of the first with their data.** A program of atoms with three
levels, compiled with nothing kept, always has a Hamiltonian. Each shift has the diagonal of the
coupling of the first shift with its targets, each drive the operator of the coupling of the first
drive of its kind with its targets. That coupling is the term's own if all terms with its data are
of one coupling. -/
theorem EmulatorProgram.terms_act_on_first_coupling (e : Entries Rat α) (p : EmulatorProgram Rat)
    (hkind : p.register.kind = .threeLevel) (hp : p.Distinct) :
    ∃ h cache, p.hamiltonian e {} = .ok (h, cache) ∧ p.register.space = .ok h.space ∧
      List.Forall₂ (fun x op => ∃ κ, p.shiftCoupling? x.2.targets = some κ ∧
        ShiftsOn e h.space κ x.2.targets op.diagonal) p.shifts h.detuning ∧
      List.Forall₂ (fun x op => ∃ κ, p.driveCoupling? x.2.kind x.2.targets = some κ ∧
        DrivesOn h.space κ x.2.kind x.2.targets op.coupler) p.drives h.rabi ∧
      (∀ x ∈ p.shifts, (∀ y ∈ p.shifts, Targets.same y.2.targets x.2.targets = true → y.1 = x.1) →
        p.shiftCoupling? x.2.targets = some x.1) ∧
      ∀ x ∈ p.drives, (∀ y ∈ p.drives, y.2.kind = x.2.kind →
          Targets.same y.2.targets x.2.targets = true → y.1 = x.1) →
        p.driveCoupling? x.2.kind x.2.targets = some x.1 := by
  obtain ⟨home, ⟨h, cache⟩, hfind, hham, hcompiled⟩ :=
    p.hamiltonian_compiled hp (recalls_empty (e := e))
  obtain rfl : p.register = home := by
    simpa [matches_refl] using hfind
  have hspace := hcompiled.space
  refine ⟨h, cache, hham, ?_, ?_, ?_, fun x hx hown => ?_, fun x hx hown => ?_⟩
  · rw [space_eq_exactSpace, hspace]
  · rw [hspace]
    exact ((List.forall₂_and_left _ _).mpr ⟨fun x hx => hx, hcompiled.shifts⟩).imp
      fun x op hxop => exists_shiftsOn hp hxop.1 hxop.2
  · rw [hspace]
    exact ((List.forall₂_and_left _ _).mpr ⟨fun x hx => hx, hcompiled.drives⟩).imp
      fun x op hxop => exists_drivesOn hkind hp hxop.1 hxop.2
  · exact find?_map_eq_of_forall hx
      ((Targets.same_iff_perm (hp.shifts x hx) (hp.shifts x hx)).mpr (.refl _)) hown
  · refine find?_map_eq_of_forall hx ?_ fun y hy hsame => ?_
    · rw [beq_self_eq_true, Bool.true_and, Targets.same_iff_perm (hp.drives x hx) (hp.drives x hx)]
    · rw [Bool.and_eq_true, beq_iff_eq] at hsame
      exact hown y hy hsame.1 hsame.2

/-- Weights as they are, and no interaction. -/
def plainEntries : Entries Rat Rat := ⟨id, fun _ _ => none⟩

/-- One atom of three levels, shifted and driven alike under both couplings. -/
def bothCouplings : EmulatorProgram Rat :=
  let wave : CompiledWaveform Rat := ⟨[], .constant (.lit 1) (.lit 1)⟩
  let terms : DriveTerms Rat := ⟨[⟨[(0, 1)], wave⟩], [⟨.symmetric, [(0, 1)], wave, none⟩]⟩
  ⟨⟨.threeLevel, [(0, 0)], 0⟩, 1, [(.hyperfine, terms), (.rydberg, terms)]⟩

theorem bothCouplings_distinct : bothCouplings.Distinct := by
  constructor <;> simp [bothCouplings, shifts, drives,
    Targets.Distinct]

theorem bothCouplings_act_on_first :
    bothCouplings.register.kind = .threeLevel ∧ bothCouplings.Distinct ∧
    ∃ h cache, bothCouplings.hamiltonian plainEntries {} = .ok (h, cache) ∧
      List.Forall₂ (fun x op => ∃ κ, bothCouplings.shiftCoupling? x.2.targets = some κ ∧
        ShiftsOn plainEntries h.space κ x.2.targets op.diagonal) bothCouplings.shifts h.detuning ∧
      List.Forall₂ (fun x op => ∃ κ, bothCouplings.driveCoupling? x.2.kind x.2.targets = some κ ∧
        DrivesOn h.space κ x.2.kind x.2.targets op.coupler) bothCouplings.drives h.rabi := by
  obtain ⟨h, cache, hham, -, hshifts, hdrives, -⟩ :=
    bothCouplings.terms_act_on_first_coupling plainEntries rfl bothCouplings_distinct
  exact ⟨rfl, bothCouplings_distinct, h, cache, hham, hshifts, hdrives⟩

/-- The shift of the second coupling is given the diagonal of the first: it lowers the middle level
once more, where it should lower the highest. -/
theorem bothCouplings_share_diagonal : bothCouplings.shifts.map (fun x => (x.1, x.2.targets)) =
        [(.hyperfine, [(0, 1)]), (.rydberg, [(0, 1)])] ∧
    ∃ h cache, bothCouplings.hamiltonian plainEntries {} = .ok (h, cache) ∧
      h.detuning.map (fun op => op.diagonal) = [#[0, -1, 0], #[0, -1, 0]] ∧
      ¬ ShiftsOn plainEntries h.space .rydberg [(0, 1)] #[0, -1, 0] := by
  have hrun : ∃ h cache, bothCouplings.hamiltonian plainEntries {} = .ok (h, cache) ∧
      h.space = ⟨.threeLevel, 1, true, [0, 1, 2]⟩ ∧
      h.detuning.map (fun op => op.diagonal) = [#[0, -1, 0], #[0, -1, 0]] :=
    ⟨_, _, by with_unfolding_all rfl, by with_unfolding_all rfl, by with_unfolding_all rfl⟩
  obtain ⟨h, cache, hham, hspace, hdiagonals⟩ := hrun
  refine ⟨rfl, h, cache, hham, hdiagonals, fun hon => ?_⟩
  rw [hspace] at hon
  have hentry := hon 2 2 rfl
  simp [Targets.weightAt, plainEntries, AtomKind.levels, levels, levelOf] at hentry

/-! ### Programs one after the other -/

/-- The Hamiltonians of programs that are compiled one after the other, each with what the earlier
ones left in the cache. -/
def EmulatorProgram.inTurn (e : Entries Rat α) :
    CompileCache Rat α → List (EmulatorProgram Rat) → Outcome (List (Hamiltonian Rat α))
  | _, [] => .ok []
  | cache, p :: ps => do
    let built ← p.hamiltonian e cache
    return built.1 :: (← inTurn e built.2 ps)

/-- Drives that are the same, with the entries of the operator in whatever order. -/
structure RabiOperator.Agrees (a b : RabiOperator Rat α) : Prop where
  coupler : a.coupler.Agrees b.coupler
  amplitude : a.amplitude = b.amplitude
  phase : a.phase = b.phase

/-- Hamiltonians that are the same but for the order of the entries of operators. -/
structure Hamiltonian.Agrees (h h' : Hamiltonian Rat α) : Prop where
  duration : h.duration = h'.duration
  space : h.space = h'.space
  interaction : h.interaction = h'.interaction
  detuning : h.detuning = h'.detuning
  rabi : Forall₂ RabiOperator.Agrees h.rabi h'.rabi

omit [AddCommGroup α] in
theorem Hamiltonian.Agrees.of_common {h h' g : Hamiltonian Rat α} (hg : h.Agrees g)
    (hg' : h'.Agrees g) : h.Agrees h' := by
  refine ⟨hg.duration.trans hg'.duration.symm, hg.space.trans hg'.space.symm,
    hg.interaction.trans hg'.interaction.symm, hg.detuning.trans hg'.detuning.symm, ?_⟩
  obtain ⟨hlength, hall⟩ := forall₂_iff_get.mp hg.rabi
  obtain ⟨hlength', hall'⟩ := forall₂_iff_get.mp hg'.rabi
  refine forall₂_iff_get.mpr ⟨hlength.trans hlength'.symm, fun i hi hi' => ?_⟩
  have ha := hall i hi (hlength ▸ hi)
  have hb := hall' i hi' (hlength' ▸ hi')
  exact ⟨ha.coupler.trans hb.coupler.symm, ha.amplitude.trans hb.amplitude.symm,
    ha.phase.trans hb.phase.symm⟩

/-- The Hamiltonian of a program in the space of a register, with every operator built anew. -/
def EmulatorProgram.direct (e : Entries Rat α) (home : AtomRegister Rat) (p : EmulatorProgram Rat) :
    Hamiltonian Rat α where
  duration := p.duration
  space := home.exactSpace
  interaction := interactionDiagonal e home.sites home.exactSpace
  detuning := p.shifts.map fun x => ⟨(askShift p.register home x).diagonal e, x.2.amplitude⟩
  rabi := p.drives.map fun x =>
    ⟨(askDrive p.register home x).coupler e, x.2.amplitude, x.2.phase⟩

/-- Every operator was asked for in the space of the first register that matches. -/
def Asked.Homed {κ : Type} (rs : List (AtomRegister Rat)) (xs : List (Asked κ)) : Prop :=
  ∀ x ∈ xs, rs.find? (·.matches x.register) = some x.home

structure CompileLog.Homed (log : CompileLog) : Prop where
  shifts : Asked.Homed log.registers log.shifts
  drives : Asked.Homed log.registers log.drives

variable {log : CompileLog} {home : AtomRegister Rat}
  {state : Hamiltonian Rat α × CompileCache Rat α}

theorem CompileLog.Homed.empty : ({} : CompileLog).Homed :=
  ⟨forall_mem_nil _, forall_mem_nil _⟩

variable {rs : List (AtomRegister Rat)}

theorem Asked.Homed.append {κ : Type} {xs ys : List (Asked κ)}
    (h : Homed rs xs) (hys : Homed (rs ++ [r]) ys) :
    Homed (rs ++ [r]) (xs ++ ys) :=
  forall_mem_append.mpr ⟨fun x hx => by rw [find?_append, h x hx, some_or], hys⟩

theorem CompileLog.Homed.add (h : log.Homed)
    (hhome : (log.registers ++ [p.register]).find? (·.matches p.register) = some home) :
    ({ log with registers := log.registers ++ [p.register] }.add p.register home p.shifts
      p.drives).Homed :=
  ⟨h.shifts.append (forall_mem_map.mpr fun _ _ => hhome),
    h.drives.append (forall_mem_map.mpr fun _ _ => hhome)⟩

theorem home_eq_of_matches {r' s s' : AtomRegister Rat}
    (h : r.matches r') (hs : rs.find? (·.matches r) = some s)
    (hs' : rs.find? (·.matches r') = some s') : s = s' := by
  have hsame : (fun x : AtomRegister Rat => x.matches r) = fun x => x.matches r' :=
    funext (matches_congr h)
  rw [hsame, hs'] at hs
  exact (some.inj hs).symm

theorem Coupling.levels_twoLevel (κ : Coupling) : κ.levels .twoLevel = (0, 1) := by
  cases κ <;> rfl

/-- With two levels the coupling of a shift does not matter, nor does the order of the targets. -/
theorem Asked.diagonal_congr {x y : Asked Unit} (hhome : y.home = x.home)
    (hkind : x.home.kind = .twoLevel) (hperm : y.targets.Perm x.targets) :
    y.diagonal e = x.diagonal e := by
  rw [Asked.diagonal, Asked.diagonal, hhome, hkind, levels_twoLevel,
    levels_twoLevel, detuningDiagonal_perm hperm]

theorem Asked.coupler_congr {x y : Asked RabiKind} (hhome : y.home = x.home)
    (hlevels : x.home.kind = .twoLevel) (hkind : y.kind = x.kind)
    (hperm : y.targets.Perm x.targets) : (y.coupler e).Agrees (x.coupler e) := by
  rw [Asked.coupler, Asked.coupler, hhome, hlevels, levels_twoLevel,
    levels_twoLevel, hkind]
  exact coupler_agrees hperm

/-- With two levels a program has the Hamiltonian that is built anew in the space of the first
register that matches its own. -/
theorem Compiled.agrees_direct (hkind : home.kind = .twoLevel) (hp : p.Distinct) (hlog : log.Homed)
    (hhome : log.registers.find? (·.matches p.register) = some home)
    (h : Compiled e p home log p.shifts p.drives state) : state.1.Agrees (p.direct e home) := by
  refine ⟨h.duration, h.space, h.interaction, ?_, ?_⟩
  · rw [direct, eq_comm, ← forall₂_eq_eq_eq, forall₂_map_left_iff]
    refine ((forall₂_and_left _ _).mpr ⟨hp.shifts, h.shifts⟩).imp fun x op hxop => ?_
    obtain ⟨y, hy, -, rfl, hmatches, -, hperm⟩ :=
      hxop.2.exists_same h.recalls.diagonals.distinct hxop.1
    have hyhome : y.home = home := home_eq_of_matches hmatches (hlog.shifts y hy) hhome
    rw [shiftOperator, Asked.diagonal_congr (x := askShift p.register home x) hyhome hkind hperm]
  · rw [direct, forall₂_map_right_iff]
    refine Forall₂.flip (((forall₂_and_left _ _).mpr ⟨hp.drives, h.drives⟩).imp fun x op hxop => ?_)
    obtain ⟨y, hy, -, rfl, hmatches, hsame, hperm⟩ :=
      hxop.2.exists_same h.recalls.couplers.distinct hxop.1
    have hyhome : y.home = home := home_eq_of_matches hmatches (hlog.drives y hy) hhome
    exact ⟨Asked.coupler_congr hyhome hkind hsame hperm, rfl, rfl⟩

/-- **A run of programs.** Whatever was compiled before, each program has the Hamiltonian that is
built anew in the space of the first register so far that matches its own. -/
theorem EmulatorProgram.inTurn_agrees_direct {cache : CompileCache Rat α}
    (ps : List (EmulatorProgram Rat)) (hkind : ∀ p ∈ ps, p.register.kind = .twoLevel)
    (hps : ∀ p ∈ ps, p.Distinct) (hlog : log.Homed) (hcache : cache.Recalls e log) :
    ∃ hs, inTurn e cache ps = .ok hs ∧ hs.length = ps.length ∧ ∀ (n : Nat) p, ps[n]? = some p →
      ∃ h home, hs[n]? = some h ∧
        (log.registers ++ (ps.take (n + 1)).map (·.register)).find? (·.matches p.register) =
          some home ∧
        h.Agrees (p.direct e home) := by
  induction ps generalizing log cache with
  | nil => exact ⟨[], rfl, rfl, by simp⟩
  | cons p ps ih =>
    obtain ⟨hpkind, hkinds⟩ := forall_mem_cons.mp hkind
    obtain ⟨hp, hrest⟩ := forall_mem_cons.mp hps
    obtain ⟨home, state, hhome, hham, hcompiled⟩ := p.hamiltonian_compiled hp hcache
    have hlog' := hlog.add hhome
    obtain ⟨hs, hrun, hlength, hall⟩ := ih hkinds hrest hlog' hcompiled.recalls
    refine ⟨state.1 :: hs, by rw [inTurn, hham, Outcome.ok_bind, hrun]; rfl, by simp [hlength], ?_⟩
    intro n q hq
    cases n with
    | zero =>
      obtain rfl : p = q := by simpa using hq
      have hhomekind : home.kind = .twoLevel := by
        rw [(matches_iff.mp (matches_of_find? hhome)).1, hpkind]
      exact ⟨state.1, home, rfl, by simpa using hhome,
        hcompiled.agrees_direct hhomekind hp hlog' hhome⟩
    | succ n =>
      obtain ⟨h, home', hh, hhome', hagrees⟩ := hall n q (by simpa using hq)
      refine ⟨h, home', by simpa using hh, ?_, hagrees⟩
      simpa [CompileLog.add] using hhome'

theorem EmulatorProgram.hamiltonian_agrees_direct (e : Entries Rat α)
    (hkind : p.register.kind = .twoLevel) (hp : p.Distinct) :
    ∃ h cache, p.hamiltonian e {} = .ok (h, cache) ∧ h.Agrees (p.direct e p.register) := by
  obtain ⟨home, ⟨h, cache⟩, hhome, hham, hcompiled⟩ :=
    p.hamiltonian_compiled hp (recalls_empty (e := e))
  have hown : p.register = home := by
    simpa [matches_refl] using hhome
  subst hown
  exact ⟨h, cache, hham, hcompiled.agrees_direct hkind hp (CompileLog.Homed.empty.add hhome) hhome⟩

/-- **A shared cache answers as the first matching register does.** However many programs of atoms
with two levels are compiled one after the other with one cache, each gets the Hamiltonian that it
has when compiled alone with the first of their registers that matches its own in place of its own.
If that register lists the same sites in the same order, it is the program's own Hamiltonian. -/
theorem EmulatorProgram.inTurn_agrees_alone (e : Entries Rat α) (ps : List (EmulatorProgram Rat))
    (hkind : ∀ p ∈ ps, p.register.kind = .twoLevel) (hps : ∀ p ∈ ps, p.Distinct) :
    ∃ hs, inTurn e {} ps = .ok hs ∧ hs.length = ps.length ∧ ∀ (n : Nat) p, ps[n]? = some p →
      ∃ h r alone cache, hs[n]? = some h ∧
        ((ps.take (n + 1)).map (·.register)).find? (·.matches p.register) = some r ∧
        { p with register := r }.hamiltonian e {} = .ok (alone, cache) ∧ h.Agrees alone ∧
        (r.sites = p.register.sites → { p with register := r } = p) := by
  obtain ⟨hs, hrun, hlength, hall⟩ :=
    inTurn_agrees_direct ps hkind hps .empty (recalls_empty (e := e))
  refine ⟨hs, hrun, hlength, fun n p hn => ?_⟩
  obtain ⟨h, r, hh, hr, hagrees⟩ := hall n p hn
  have hmem : p ∈ ps := List.mem_of_getElem? hn
  have hmatches := matches_of_find? hr
  have hrkind : r.kind = .twoLevel := by
    rw [(matches_iff.mp hmatches).1, hkind p hmem]
  have hdistinct : ({ p with register := r } : EmulatorProgram Rat).Distinct :=
    ⟨(hps p hmem).shifts, (hps p hmem).drives⟩
  obtain ⟨alone, cache, halone, hdirect⟩ := hamiltonian_agrees_direct e hrkind hdistinct
  refine ⟨h, r, alone, cache, hh, hr, halone, hagrees.of_common hdirect, fun hsites => ?_⟩
  rw [eq_of_matches hmatches hsites]

variable (sites : List (Rat × Rat))

/-- Three atoms on a line with a radius that reaches from each to the next, all shifted alike; the
atoms are listed in the given order. -/
def lineOf : EmulatorProgram Rat :=
  ⟨⟨.twoLevel, sites, 5⟩, 1,
    [(.rydberg, ⟨[⟨[(0, 1), (1, 1), (2, 1)], [], .constant (.lit 1) (.lit 1)⟩], []⟩)]⟩

def upright : EmulatorProgram Rat := lineOf [(0, 0), (0, 5), (0, 10)]

def middleFirst : EmulatorProgram Rat := lineOf [(0, 5), (0, 0), (0, 10)]

theorem lineOf_distinct : (lineOf sites).Distinct := by
  constructor <;> simp [lineOf, shifts, drives, Targets.Distinct]

theorem lines_twoLevel : ∀ p ∈ [upright, middleFirst], p.register.kind = .twoLevel := by
  simp [upright, middleFirst, lineOf]

theorem lines_distinct : ∀ p ∈ [upright, middleFirst], p.Distinct := by
  simp [upright, middleFirst, lineOf_distinct]

theorem lines_agree_in_turn : (∀ p ∈ [upright, middleFirst], p.register.kind = .twoLevel) ∧
    (∀ p ∈ [upright, middleFirst], p.Distinct) ∧
    ∃ hs, EmulatorProgram.inTurn plainEntries {} [upright, middleFirst] = .ok hs ∧
      ∃ h r alone cache, hs[1]? = some h ∧
        [upright.register, middleFirst.register].find? (·.matches middleFirst.register) = some r ∧
        { middleFirst with register := r }.hamiltonian plainEntries {} = .ok (alone, cache) ∧
        h.Agrees alone := by
  obtain ⟨hs, hrun, -, hall⟩ := inTurn_agrees_alone plainEntries
    [upright, middleFirst] lines_twoLevel lines_distinct
  obtain ⟨h, r, alone, cache, hh, hr, halone, hagrees, -⟩ := hall 1 middleFirst rfl
  exact ⟨lines_twoLevel, lines_distinct, hs, hrun, h, r, alone, cache, hh, hr, halone, hagrees⟩

theorem mem_exactSpace {c i j : Nat} (hi : i < r.sites.length) (hj : j < i)
    (hnear : r.isNear i j) :
    c ∈ r.exactSpace.configurations ↔ c ∈ Space.grown r.kind.levels r.sites.length r.isNear := by
  have hpair : ¬ Space.Scattered r.sites.length r.isNear := fun h => by simp [h i hi j hj] at hnear
  rw [exactSpace, Space.ofNear_of_not_scattered hpair, mem_mergeSort]

/-- Compiled after the atoms in their order, the program with the middle atom first is given their
space. It holds the configuration `5`, in which the first atom and the last are excited: the ends
of the line there, but near each other here. -/
theorem middleFirst_differs_in_turn :
    ∃ hs h alone cache, EmulatorProgram.inTurn plainEntries {} [upright, middleFirst] = .ok hs ∧
      hs[1]? = some h ∧ middleFirst.hamiltonian plainEntries {} = .ok (alone, cache) ∧
      5 ∈ h.space.configurations ∧ 5 ∉ alone.space.configurations := by
  obtain ⟨hs, hrun, -, hall⟩ := inTurn_agrees_direct [upright, middleFirst]
    lines_twoLevel lines_distinct .empty (recalls_empty (e := plainEntries))
  obtain ⟨h, home, hh, hhome, hagrees⟩ := hall 1 middleFirst rfl
  obtain ⟨alone, cache, halone, hown⟩ := hamiltonian_agrees_direct plainEntries
    (lines_twoLevel middleFirst (by simp)) (lines_distinct middleFirst (by simp))
  have hfirst : upright.register = home := by
    have hmatches : upright.register.matches middleFirst.register = true := by decide +kernel
    simpa [hmatches] using hhome
  refine ⟨hs, h, alone, cache, hrun, hh, halone, ?_, ?_⟩
  · rw [hagrees.space, ← hfirst]
    exact (mem_exactSpace (i := 1) (j := 0) (by decide) (by decide) (by decide +kernel)).mpr
      (by decide +kernel)
  · rw [hown.space]
    exact fun hmem => absurd ((mem_exactSpace (i := 1) (j := 0) (by decide) (by decide)
      (by decide +kernel)).mp hmem) (by decide +kernel)

end Cache

end AtomArray
