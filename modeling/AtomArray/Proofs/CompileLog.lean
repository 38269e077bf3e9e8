import AtomArray.Proofs.Operators

/-!
What a compile cache answers.

`CompileLog` records every register and every operator that programs asked for, in order.
`CompileCache.Recalls e cache log` says that the cache answers each question with the first item of
the log that fits; a question extends the log and keeps this, and so does a whole program
(`EmulatorProgram.hamiltonian_compiled`).

Two things fit if registers match (`AtomRegister.matches`) and kinds and targets are the same. This
is an equivalence, so what a cache leaves out because something fits it never changes an answer
(`Stands.ask`).
-/

namespace AtomArray

open List

/-! ### Registers that match -/

variable (r : AtomRegister Rat)

namespace AtomRegister

variable {r r' r'' : AtomRegister Rat}

/-- Are two atoms at most the blockade radius apart? -/
def isNear (i j : Nat) : Bool :=
  match r.sites[i]?, r.sites[j]? with
  | some p, some q =>
    decide (0 ≤ r.radius ∧
      (p.1 - q.1) * (p.1 - q.1) + (p.2 - q.2) * (p.2 - q.2) ≤ r.radius * r.radius)
  | _, _ => false

theorem decides_isNear : r.Decides r.isNear := by
  intro i j p q _ hp hq
  simp only [areNear, Exact.sub_eq, Outcome.ok_bind, isNear, hp, hq]
  rfl

/-- In exact arithmetic every register has a space. -/
def exactSpace : Space := Space.ofNear r.kind r.sites.length r.isNear

theorem space_eq_exactSpace : r.space = .ok r.exactSpace :=
  space_eq_ofNear r.decides_isNear

theorem exactSpace_kind : r.exactSpace.kind = r.kind := by
  by_cases h : Space.Scattered r.sites.length r.isNear
  · rw [exactSpace, Space.ofNear_of_scattered h]
  · rw [exactSpace, Space.ofNear_of_not_scattered h]

theorem matches_iff : r.matches r' ↔ r.kind = r'.kind ∧ r.radius = r'.radius ∧
      (∀ p, p ∈ r.sites ↔ p ∈ r'.sites) ∧ (r.radius = 0 → r.sites.length = r'.sites.length) := by
  have hsite (p : Rat × Rat) (sites : List (Rat × Rat)) :
      (sites.any fun q => decide (p.1 = q.1) && decide (p.2 = q.2)) ↔ p ∈ sites := by
    simp only [any_eq_true, Bool.and_eq_true, decide_eq_true_eq]
    constructor
    · rintro ⟨q, hq, h⟩
      rwa [Prod.ext h.1 h.2]
    · exact fun h => ⟨p, h, rfl, rfl⟩
  simp only [AtomRegister.matches, same, Bool.and_eq_true, beq_iff_eq, all_eq_true, hsite,
    Exact.same_eq, decide_eq_true_eq, Bool.or_eq_true, Bool.not_eq_true', Exact.zero_eq,
    decide_eq_false_iff_not]
  constructor
  · rintro ⟨⟨⟨⟨hkind, hradius⟩, hsub⟩, hsup⟩, hlength⟩
    exact ⟨hkind, hradius, fun p => ⟨hsub p, hsup p⟩,
      fun h0 => hlength.resolve_left (not_not.mpr h0)⟩
  · rintro ⟨hkind, hradius, hsites, hlength⟩
    exact ⟨⟨⟨⟨hkind, hradius⟩, fun p => (hsites p).mp⟩, fun p => (hsites p).mpr⟩,
      or_iff_not_imp_left.mpr fun h => hlength (not_not.mp h)⟩

theorem matches_refl : r.matches r :=
  matches_iff.mpr ⟨rfl, rfl, fun _ => Iff.rfl, fun _ => rfl⟩

theorem matches_symm (h : r.matches r') : r'.matches r := by
  obtain ⟨hkind, hradius, hsites, hlength⟩ := matches_iff.mp h
  exact matches_iff.mpr ⟨hkind.symm, hradius.symm, fun p => (hsites p).symm,
    fun h0 => (hlength (hradius.trans h0)).symm⟩

theorem matches_trans (h : r.matches r') (h' : r'.matches r'') :
    r.matches r'' := by
  obtain ⟨hkind, hradius, hsites, hlength⟩ := matches_iff.mp h
  obtain ⟨hkind', hradius', hsites', hlength'⟩ := matches_iff.mp h'
  exact matches_iff.mpr ⟨hkind.trans hkind', hradius.trans hradius',
    fun p => (hsites p).trans (hsites' p),
    fun h0 => (hlength h0).trans (hlength' (hradius.symm.trans h0))⟩

theorem matches_congr (h : r.matches r') (s : AtomRegister Rat) :
    s.matches r = s.matches r' := by
  rw [Bool.eq_iff_iff]
  exact ⟨fun hs => matches_trans hs h, fun hs => matches_trans hs (matches_symm h)⟩

theorem matches_of_find? {rs : List (AtomRegister Rat)}
    (h : rs.find? (·.matches r) = some r') : r'.matches r := by
  simpa using find?_some h

/-- A register that matches another one and lists the same sites in the same order is that one. -/
theorem eq_of_matches (h : r.matches r') (hsites : r.sites = r'.sites) : r = r' := by
  obtain ⟨hkind, hradius, -⟩ := matches_iff.mp h
  cases r
  cases r'
  simp_all

end AtomRegister

/-! ### Lists kept in place of a log -/

section Kept

variable {κ ρ ε : Type} {asks : κ → ε → Bool} {entry : ρ → ε} {good : κ → Prop} {kept : List ε}
  {log : List ρ} {k : κ} {x y : ρ}

/-- What is kept answers every good question with the entry of the first item of the log that
fits. -/
def Stands (asks : κ → ε → Bool) (entry : ρ → ε) (good : κ → Prop) (kept : List ε) (log : List ρ) :
    Prop :=
  ∀ k, good k → kept.find? (asks k) = (log.find? fun x => asks k (entry x)).map entry

/-- An item that is answered already need not be kept. -/
theorem Stands.hit (h : Stands asks entry good kept log) (hy : y ∈ log)
    (hsame : ∀ k, good k → asks k (entry x) → asks k (entry y)) :
    Stands asks entry good kept (log ++ [x]) := by
  intro k hk
  rw [h k hk, find?_append]
  cases hlog : log.find? fun z => asks k (entry z) with
  | some z => rfl
  | none =>
    have hfalse : asks k (entry y) = false := by simpa using find?_eq_none.mp hlog y hy
    have hx : asks k (entry x) = false := by
      rw [← Bool.not_eq_true]
      exact fun hx => by simp [hsame k hk hx] at hfalse
    simp [hx]

theorem Stands.miss (h : Stands asks entry good kept log) (x : ρ) :
    Stands asks entry good (kept ++ [entry x]) (log ++ [x]) := by
  intro k hk
  rw [find?_append, find?_append, h k hk]
  cases log.find? fun z => asks k (entry z) with
  | some z => rfl
  | none =>
    cases hx : asks k (entry x) with
    | true => simp [hx]
    | false => simp [hx]

/-- **One question.** It is answered with the entry of the first item that fits, the new one
included, and the new one is kept only if no earlier one fits. -/
theorem Stands.ask (h : Stands asks entry good kept log) (hk : good k)
    (hself : asks k (entry x))
    (hsame : ∀ y ∈ log, asks k (entry y) →
      ∀ k', good k' → asks k' (entry x) → asks k' (entry y)) :
    ∃ y, ((log ++ [x]).find? fun z => asks k (entry z)) = some y ∧
      (kept.find? (asks k) = some (entry y) ∧ Stands asks entry good kept (log ++ [x]) ∨
        kept.find? (asks k) = none ∧ y = x ∧
          Stands asks entry good (kept ++ [entry x]) (log ++ [x])) := by
  have hfind := h k hk
  cases hlog : log.find? fun z => asks k (entry z) with
  | some y =>
    have hmem := mem_of_find?_eq_some hlog
    have hy : asks k (entry y) := by simpa using find?_some hlog
    refine ⟨y, by rw [find?_append, hlog, Option.some_or], .inl ⟨?_, ?_⟩⟩
    · rw [hfind, hlog, Option.map_some]
    · exact h.hit hmem (hsame y hmem hy)
  | none =>
    refine ⟨x, ?_, .inr ⟨?_, rfl, h.miss x⟩⟩
    · rw [find?_append, hlog, Option.none_or, find?_singleton, if_pos hself]
    · rw [hfind, hlog, Option.map_none]

end Kept

/-! ### What programs ask for -/

def Targets.Distinct (targets : Targets Rat) : Prop := (targets.map Prod.fst).Nodup

theorem Targets.same_iff_perm {a b : Targets Rat} (ha : a.Distinct) (hb : b.Distinct) :
    Targets.same a b ↔ a.Perm b := by
  refine ⟨perm_of_same ha, fun h => ?_⟩
  simp only [Targets.same, Bool.and_eq_true, beq_iff_eq, all_eq_true, Option.any_eq_true,
    Exact.same_eq, decide_eq_true_eq]
  exact ⟨h.length_eq, fun t ht => ⟨t.2, lookup_of_mem hb (h.mem_iff.mp ht), rfl⟩⟩

/-- An operator that a program asks for: under which register and coupling, of which kind, and for
which targets. The space is that of the register `home`. -/
structure Asked (κ : Type) where
  register : AtomRegister Rat
  home : AtomRegister Rat
  coupling : Coupling
  kind : κ
  targets : Targets Rat

namespace Asked

variable {κ : Type} [DecidableEq κ] {x y z : Asked κ}

/-- Is `y` taken for the operator that `x` asks for? -/
def fits (x y : Asked κ) : Bool :=
  y.register.matches x.register && y.kind == x.kind && Targets.same y.targets x.targets

theorem fits_iff (hx : x.targets.Distinct) (hy : y.targets.Distinct) : x.fits y ↔
      y.register.matches x.register ∧ y.kind = x.kind ∧ y.targets.Perm x.targets := by
  simp [fits, Targets.same_iff_perm hy hx, and_assoc]

theorem fits_self (hx : x.targets.Distinct) : x.fits x :=
  (fits_iff hx hx).mpr ⟨x.register.matches_refl, rfl, .refl _⟩

/-- What fits a question fits every question that the question itself fits. -/
theorem fits_trans (hx : x.targets.Distinct) (hy : y.targets.Distinct) (hz : z.targets.Distinct)
    (hxy : x.fits y) (hzx : z.fits x) : z.fits y := by
  obtain ⟨hregister, hkind, hperm⟩ := (fits_iff hx hy).mp hxy
  obtain ⟨hregister', hkind', hperm'⟩ := (fits_iff hz hx).mp hzx
  exact (fits_iff hz hy).mpr ⟨AtomRegister.matches_trans hregister hregister', hkind.trans hkind',
    hperm.trans hperm'⟩

variable {ε τ ω : Type} {log : List (Asked κ)} {ask : τ → Asked κ} {make : τ → Asked κ → ω}

/-- The entries that are kept answer all questions about different atoms as the log does. -/
structure Answers (asks : Asked κ → ε → Bool) (entry : Asked κ → ε) (kept : List ε)
    (log : List (Asked κ)) : Prop where
  stands : Stands asks entry (·.targets.Distinct) kept log
  distinct : ∀ x ∈ log, x.targets.Distinct

theorem Answers.step {asks : Asked κ → ε → Bool} {entry : Asked κ → ε} {kept : List ε}
    (h : Answers asks entry kept log) (hfits : ∀ k y, asks k (entry y) = k.fits y)
    (hx : x.targets.Distinct) :
    ∃ y, (log ++ [x]).find? x.fits = some y ∧
      (kept.find? (asks x) = some (entry y) ∧ Answers asks entry kept (log ++ [x]) ∨
        kept.find? (asks x) = none ∧ y = x ∧
          Answers asks entry (kept ++ [entry x]) (log ++ [x])) := by
  have hdistinct := forall_mem_append.mpr ⟨h.distinct, forall_mem_singleton.mpr hx⟩
  obtain ⟨y, hfind, hcase⟩ := h.stands.ask hx (x := x) (by rw [hfits, fits_self hx])
    fun y hy hxy k hk hkx => by
      rw [hfits] at hxy hkx ⊢
      exact fits_trans hx (h.distinct y hy) hk hxy hkx
  simp only [hfits] at hfind
  refine ⟨y, hfind, hcase.imp (fun h => ⟨h.1, h.2, hdistinct⟩) fun h => ?_⟩
  exact ⟨h.1, h.2.1, h.2.2, hdistinct⟩

/-- An operator is made for a term from the first question in the log that fits its own. -/
def Answered (ask : τ → Asked κ) (make : τ → Asked κ → ω) (log : List (Asked κ)) (x : τ) (op : ω) :
    Prop :=
  ∃ y, log.find? (ask x).fits = some y ∧ op = make x y

/-- What is answered already stays so, and one more operator is added. -/
theorem Answered.concat {xs : List τ} {ops : List ω} {x : τ}
    (h : Forall₂ (Answered ask make log) xs ops)
    (hfind : (log ++ [ask x]).find? (ask x).fits = some y) :
    Forall₂ (Answered ask make (log ++ [ask x])) (xs ++ [x]) (ops ++ [make x y]) := by
  refine rel_append (h.imp fun x op hx => ?_) (.cons ⟨y, hfind, rfl⟩ .nil)
  obtain ⟨y, hy, hop⟩ := hx
  exact ⟨y, by rw [find?_append, hy, Option.some_or], hop⟩

end Asked

section Entries

variable {α : Type} [AddCommGroup α]

def Asked.diagonal (e : Entries Rat α) (x : Asked Unit) : Array α :=
  detuningDiagonal e x.home.exactSpace (x.coupling.levels x.home.kind).2 x.targets

/-- The operator of a drive that was asked for. -/
def Asked.coupler (e : Entries Rat α) (x : Asked RabiKind) : Coupler α :=
  AtomArray.coupler e x.home.exactSpace x.kind (x.coupling.levels x.home.kind).1
    (x.coupling.levels x.home.kind).2 x.targets

/-- Everything that programs have asked for, in order. -/
structure CompileLog where
  registers : List (AtomRegister Rat) := []
  shifts : List (Asked Unit) := []
  drives : List (Asked RabiKind) := []

/-- The cache answers as the log does. -/
structure CompileCache.Recalls (e : Entries Rat α) (cache : CompileCache Rat α) (log : CompileLog) :
    Prop where
  spaces : Stands (fun r x => x.1.matches r)
    (fun r => (r, r.exactSpace, interactionDiagonal e r.sites r.exactSpace)) (fun _ => True)
    cache.spaces log.registers
  diagonals : Asked.Answers (fun k x => x.1.matches k.register && Targets.same x.2.1 k.targets)
    (fun x => (x.register, x.targets, x.diagonal e)) cache.diagonals log.shifts
  couplers : Asked.Answers
    (fun k x => x.1.matches k.register && x.2.1 == k.kind && Targets.same x.2.2.1 k.targets)
    (fun x => (x.register, x.kind, x.targets, x.coupler e)) cache.couplers log.drives

variable {e : Entries Rat α} {cache : CompileCache Rat α} {log : CompileLog}

theorem CompileCache.recalls_empty : ({} : CompileCache Rat α).Recalls e {} :=
  ⟨fun _ _ => rfl, ⟨fun _ _ => rfl, by simp⟩, ⟨fun _ _ => rfl, by simp⟩⟩

theorem CompileCache.Recalls.space (h : cache.Recalls e log) (r : AtomRegister Rat) :
    ∃ home cache', (log.registers ++ [r]).find? (·.matches r) = some home ∧
      cache.space e r = .ok ((home.exactSpace, interactionDiagonal e home.sites home.exactSpace),
        cache') ∧
      cache'.Recalls e { log with registers := log.registers ++ [r] } := by
  obtain ⟨home, hfind, hcase⟩ := h.spaces.ask (k := r) (x := r) trivial r.matches_refl
    fun y _ hy k _ hk => AtomRegister.matches_trans hy hk
  rcases hcase with ⟨hfound, hstands⟩ | ⟨hnone, rfl, hstands⟩
  · refine ⟨home, cache, hfind, ?_, hstands, h.diagonals, h.couplers⟩
    simp [CompileCache.space, hfound]
  · refine ⟨home, { cache with spaces := cache.spaces ++ [_] }, hfind, ?_, hstands, h.diagonals,
      h.couplers⟩
    simp [CompileCache.space, hnone, AtomRegister.space_eq_exactSpace]

theorem CompileCache.Recalls.diagonal (h : cache.Recalls e log) {x : Asked Unit}
    (hx : x.targets.Distinct) :
    ∃ y cache', (log.shifts ++ [x]).find? x.fits = some y ∧
      cache.diagonal e x.register x.home.exactSpace (x.coupling.levels x.home.kind).2 x.targets =
        (y.diagonal e, cache') ∧
      cache'.Recalls e { log with shifts := log.shifts ++ [x] } := by
  obtain ⟨y, hfind, ⟨hfound, hanswers⟩ | ⟨hnone, rfl, hanswers⟩⟩ :=
    h.diagonals.step (fun k y => by simp [Asked.fits]) hx
  · refine ⟨y, cache, hfind, ?_, h.spaces, hanswers, h.couplers⟩
    simp only [CompileCache.diagonal, hfound]
  · refine ⟨y, { cache with diagonals := cache.diagonals ++ [_] }, hfind, ?_, h.spaces, hanswers,
      h.couplers⟩
    simp only [CompileCache.diagonal, hnone]
    rfl

theorem CompileCache.Recalls.couplerOf (h : cache.Recalls e log) {x : Asked RabiKind}
    (hx : x.targets.Distinct) :
    ∃ y cache', (log.drives ++ [x]).find? x.fits = some y ∧
      cache.couplerOf e x.register x.home.exactSpace (x.coupling.levels x.home.kind).1
        (x.coupling.levels x.home.kind).2 x.kind x.targets = (y.coupler e, cache') ∧
      cache'.Recalls e { log with drives := log.drives ++ [x] } := by
  obtain ⟨y, hfind, ⟨hfound, hanswers⟩ | ⟨hnone, rfl, hanswers⟩⟩ :=
    h.couplers.step (fun _ _ => rfl) hx
  · refine ⟨y, cache, hfind, ?_, h.spaces, h.diagonals, hanswers⟩
    simp only [CompileCache.couplerOf, hfound]
  · refine ⟨y, { cache with couplers := cache.couplers ++ [_] }, hfind, ?_, h.spaces, h.diagonals,
      hanswers⟩
    simp only [CompileCache.couplerOf, hnone]
    rfl

/-! ### One program -/

/-- The shifts of a program, each with its coupling, in the order in which they are compiled. -/
def EmulatorProgram.shifts (p : EmulatorProgram Rat) : List (Coupling × DetuningTerm Rat) :=
  p.pulses.flatMap fun x => x.2.detuning.map (x.1, ·)

def EmulatorProgram.drives (p : EmulatorProgram Rat) : List (Coupling × RabiTerm Rat) :=
  p.pulses.flatMap fun x => x.2.rabi.map (x.1, ·)

/-- The targets of every term of a program are different atoms. -/
structure EmulatorProgram.Distinct (p : EmulatorProgram Rat) : Prop where
  shifts : ∀ x ∈ p.shifts, x.2.targets.Distinct
  drives : ∀ x ∈ p.drives, x.2.targets.Distinct

def askShift (r home : AtomRegister Rat) (x : Coupling × DetuningTerm Rat) : Asked Unit :=
  ⟨r, home, x.1, (), x.2.targets⟩

def askDrive (r home : AtomRegister Rat) (x : Coupling × RabiTerm Rat) : Asked RabiKind :=
  ⟨r, home, x.1, x.2.kind, x.2.targets⟩

def shiftOperator (e : Entries Rat α) (x : Coupling × DetuningTerm Rat) (y : Asked Unit) :
    DetuningOperator Rat α :=
  ⟨y.diagonal e, x.2.amplitude⟩

def driveOperator (e : Entries Rat α) (x : Coupling × RabiTerm Rat) (y : Asked RabiKind) :
    RabiOperator Rat α :=
  ⟨y.coupler e, x.2.amplitude, x.2.phase⟩

open Asked (Answered)

/-- What is compiled of a program: the cache recalls the log, and every term so far has the operator
of the first in the log that fits. -/
structure Compiled (e : Entries Rat α) (p : EmulatorProgram Rat) (home : AtomRegister Rat)
    (log : CompileLog) (shifts : List (Coupling × DetuningTerm Rat))
    (drives : List (Coupling × RabiTerm Rat)) (state : Hamiltonian Rat α × CompileCache Rat α) :
    Prop where
  recalls : state.2.Recalls e log
  duration : state.1.duration = p.duration
  space : state.1.space = home.exactSpace
  interaction : state.1.interaction = interactionDiagonal e home.sites home.exactSpace
  shifts : Forall₂ (Answered (askShift p.register home) (shiftOperator e) log.shifts) shifts
    state.1.detuning
  drives : Forall₂ (Answered (askDrive p.register home) (driveOperator e) log.drives) drives
    state.1.rabi

variable {p : EmulatorProgram Rat} {home : AtomRegister Rat}
  {shifts ts : List (Coupling × DetuningTerm Rat)} {drives us : List (Coupling × RabiTerm Rat)}
  {state : Hamiltonian Rat α × CompileCache Rat α}

def Hamiltonian.addShift (e : Entries Rat α) (r : AtomRegister Rat) (s : Space)
    (state : Hamiltonian Rat α × CompileCache Rat α) (x : Coupling × DetuningTerm Rat) :
    Hamiltonian Rat α × CompileCache Rat α :=
  let built := CompileCache.diagonal e r s (x.1.levels s.kind).2 state.2 x.2.targets
  ({ state.1 with detuning := state.1.detuning ++ [⟨built.1, x.2.amplitude⟩] }, built.2)

def Hamiltonian.addDrive (e : Entries Rat α) (r : AtomRegister Rat) (s : Space)
    (state : Hamiltonian Rat α × CompileCache Rat α) (x : Coupling × RabiTerm Rat) :
    Hamiltonian Rat α × CompileCache Rat α :=
  let built := CompileCache.couplerOf e r s (x.1.levels s.kind).1 (x.1.levels s.kind).2 state.2
    x.2.kind x.2.targets
  ({ state.1 with rabi := state.1.rabi ++ [⟨built.1, x.2.amplitude, x.2.phase⟩] }, built.2)

theorem Hamiltonian.addTerms_eq (x : Coupling × DriveTerms Rat) :
    addTerms e r state x = (x.2.rabi.map (x.1, ·)).foldl (addDrive e r state.1.space)
      ((x.2.detuning.map (x.1, ·)).foldl (addShift e r state.1.space) state) := by
  rw [foldl_map, foldl_map]
  rfl

/-- The log with what some shifts and drives ask for. -/
def CompileLog.add (r home : AtomRegister Rat) (ts : List (Coupling × DetuningTerm Rat))
    (us : List (Coupling × RabiTerm Rat)) (log : CompileLog) : CompileLog :=
  { log with
    shifts := log.shifts ++ ts.map (askShift r home)
    drives := log.drives ++ us.map (askDrive r home) }

section

variable (h : Compiled e p home log shifts drives state)

include h

/-- **One shift.** -/
theorem Compiled.addShift {x : Coupling × DetuningTerm Rat} (hx : x.2.targets.Distinct) :
    Compiled e p home { log with shifts := log.shifts ++ [askShift p.register home x] }
      (shifts ++ [x]) drives (Hamiltonian.addShift e p.register home.exactSpace state x) := by
  obtain ⟨y, cache', hfind, hdiagonal, hrecalls⟩ :=
    h.recalls.diagonal (x := askShift p.register home x) hx
  have hbuilt : CompileCache.diagonal e p.register home.exactSpace
      (x.1.levels home.exactSpace.kind).2 state.2 x.2.targets = (y.diagonal e, cache') := by
    rw [home.exactSpace_kind]
    exact hdiagonal
  rw [Hamiltonian.addShift, hbuilt]
  exact ⟨hrecalls, h.duration, h.space, h.interaction, Answered.concat h.shifts hfind, h.drives⟩

/-- **One drive.** -/
theorem Compiled.addDrive {x : Coupling × RabiTerm Rat} (hx : x.2.targets.Distinct) :
    Compiled e p home { log with drives := log.drives ++ [askDrive p.register home x] }
      shifts (drives ++ [x]) (Hamiltonian.addDrive e p.register home.exactSpace state x) := by
  obtain ⟨y, cache', hfind, hcoupler, hrecalls⟩ :=
    h.recalls.couplerOf (x := askDrive p.register home x) hx
  have hbuilt : CompileCache.couplerOf e p.register home.exactSpace
      (x.1.levels home.exactSpace.kind).1 (x.1.levels home.exactSpace.kind).2 state.2 x.2.kind
      x.2.targets = (y.coupler e, cache') := by
    rw [home.exactSpace_kind]
    exact hcoupler
  rw [Hamiltonian.addDrive, hbuilt]
  exact ⟨hrecalls, h.duration, h.space, h.interaction, h.shifts, Answered.concat h.drives hfind⟩

theorem Compiled.addShifts (hts : ∀ x ∈ ts, x.2.targets.Distinct) :
    Compiled e p home (log.add p.register home ts []) (shifts ++ ts) drives
      (ts.foldl (Hamiltonian.addShift e p.register home.exactSpace) state) := by
  induction ts generalizing log shifts state with
  | nil => simpa [CompileLog.add] using h
  | cons x ts ih =>
    obtain ⟨hx, hrest⟩ := forall_mem_cons.mp hts
    simpa [CompileLog.add] using ih (h.addShift hx) hrest

theorem Compiled.addDrives (hus : ∀ x ∈ us, x.2.targets.Distinct) :
    Compiled e p home (log.add p.register home [] us) shifts (drives ++ us)
      (us.foldl (Hamiltonian.addDrive e p.register home.exactSpace) state) := by
  induction us generalizing log drives state with
  | nil => simpa [CompileLog.add] using h
  | cons x us ih =>
    obtain ⟨hx, hrest⟩ := forall_mem_cons.mp hus
    simpa [CompileLog.add] using ih (h.addDrive hx) hrest

theorem Compiled.addPulses {pulses : List (Coupling × DriveTerms Rat)}
    (hts : ∀ x ∈ pulses.flatMap (fun x => x.2.detuning.map (x.1, ·)), x.2.targets.Distinct)
    (hus : ∀ x ∈ pulses.flatMap (fun x => x.2.rabi.map (x.1, ·)), x.2.targets.Distinct) :
    Compiled e p home (log.add p.register home (pulses.flatMap fun x => x.2.detuning.map (x.1, ·))
        (pulses.flatMap fun x => x.2.rabi.map (x.1, ·)))
      (shifts ++ pulses.flatMap fun x => x.2.detuning.map (x.1, ·))
      (drives ++ pulses.flatMap fun x => x.2.rabi.map (x.1, ·))
      (pulses.foldl (Hamiltonian.addTerms e p.register) state) := by
  induction pulses generalizing log shifts drives state with
  | nil => simpa [CompileLog.add] using h
  | cons x pulses ih =>
    simp only [flatMap_cons, forall_mem_append] at hts hus
    have hstep := (h.addShifts hts.1).addDrives hus.1
    rw [← h.space, ← Hamiltonian.addTerms_eq] at hstep
    simpa [CompileLog.add] using ih hstep hts.2 hus.2

end

/-- **One program.** Its space is that of the first register in the log that matches, and each term
has the operator of the first in the log that fits, the program's own terms included. -/
theorem EmulatorProgram.hamiltonian_compiled (hp : p.Distinct) (h : cache.Recalls e log) :
    ∃ home state, (log.registers ++ [p.register]).find? (·.matches p.register) = some home ∧
      p.hamiltonian e cache = .ok state ∧
      Compiled e p home
        ({ log with registers := log.registers ++ [p.register] }.add p.register home p.shifts
          p.drives)
        p.shifts p.drives state := by
  obtain ⟨home, cache', hfind, hspace, hrecalls⟩ := h.space p.register
  have hstart : Compiled e p home { log with registers := log.registers ++ [p.register] } [] []
      (⟨p.duration, home.exactSpace, interactionDiagonal e home.sites home.exactSpace, [], []⟩,
        cache') :=
    ⟨hrecalls, rfl, rfl, rfl, .nil, .nil⟩
  refine ⟨home, _, hfind, ?_, hstart.addPulses hp.shifts hp.drives⟩
  rw [EmulatorProgram.hamiltonian, hspace]
  rfl

end Entries

end AtomArray
