import AtomArray.Chain.Compile
import AtomArray.Proofs.ChainAgreement
import AtomArray.Proofs.PinnedCircuit
import AtomArray.Proofs.RecordedNames

/-!
Three ways to supply a parameter of a program.

A parameter can be fixed, be the only column of a batch, or be left to an argument. What is fixed
is bound before recorded values are looked for, and the others after; an argument is not checked
against the names of the circuit and the number of its sites.

The order in which values are bound does not matter (`Routine.boundCircuits_fixed`), so only the
check can tell the three ways apart (`Chain.supplied_alike_iff`).
-/

namespace AtomArray

open List Outcome ParamRules Routine Circuit Tiling

variable {N : Type}

/-! ### Environments -/

namespace Env

variable {x : String} {env : Env N}

theorem insert_of_absent (h : env.lookup x = none) (p : Param N) :
    env.insert x p = env ++ [(x, p)] :=
  Json.insert_of_not_mem (lookup_eq_none.mp h)

theorem supplies_append (h : env.lookup x = none) (v : N) :
    env.Supplies x v (env ++ [(x, .number v)]) := by
  refine ⟨h, fun y => ?_⟩
  rw [← insert_of_absent h, lookup_insert]

theorem extend_append (h : env.lookup x = none) (p : Param N) (more : Env N) :
    (env ++ [(x, p)]).extend more = env.extend ((x, p) :: more) := by
  have hinsert : Json.insert x p env = env ++ [(x, p)] := insert_of_absent h p
  rw [extend, extend, Json.merge, Json.merge, foldl_cons, hinsert]

end Env

variable [Arith N] {x : String} {v : N}

/-! ### Binding before and after looking for recorded values -/

variable {jobs : List (HardwareJob N)} {args : List (Param N)} {p : Param N}

namespace Routine

variable {q : Circuit N} {fixed : Env N}

theorem boundCircuits_eq (q : Circuit N) (fixed row : Env N) :
    boundCircuits ⟨q, ⟨fixed, [row], []⟩⟩ [] = do
      let circuit ← q.assign fixed
      return [do
        let recorded ← circuit.scanRecords (Env.extend [] row)
        return (← circuit.assign recorded, fixed.extend recorded)] := rfl

theorem boundCircuits_args (q : Circuit N) (fixed : Env N) (hp : p.asArgument = .ok v) :
    boundCircuits ⟨q, ⟨fixed, [[]], [x]⟩⟩ [p] =
      boundCircuits ⟨q, ⟨fixed, [[(x, .number v)]], []⟩⟩ [] := by
  have hpoints : Params.points ⟨fixed, [[]], [x]⟩ [p] = .ok [[(x, .number v)]] := by
    simp [Params.points, Params.named, hp, Env.extend, Json.merge]
  rw [boundCircuits, hpoints]
  rfl

/-- Fixed or not, a parameter is bound to the same number in the end, and what is recorded is the
same. -/
theorem boundCircuits_fixed [Arith.Exact N] (hq : q.Clear x)
    (hx : some x ∉ q.sequence.vectorNames) (hfixed : fixed.lookup x = none) :
    boundCircuits ⟨q, ⟨fixed ++ [(x, .number v)], [[]], []⟩⟩ [] =
      boundCircuits ⟨q, ⟨fixed, [[(x, .number v)]], []⟩⟩ [] := by
  rw [boundCircuits_eq, boundCircuits_eq]
  apply (assign_supplies (Env.supplies_append hfixed v) hq hx).results.flip.bind_eq
  rintro pinned free ⟨hpins, hfree, -⟩
  have hfree := mt (mem_vectorNames_assign hfree).mp hx
  -- The point of the batch is the empty one with the parameter in front.
  have hpoint : Env.Precedes x v (Env.extend [] []) (Env.extend [] [(x, .number v)]) :=
    ⟨rfl, rfl⟩
  refine congrArg (fun job => Except.ok [job]) ?_
  apply (hpins.scanRecords_agree hpoint).bind_eq
  rintro recorded _ ⟨habsent, rfl⟩
  rw [hpins.assign_eq (Env.Precedes.supplies ⟨habsent, rfl⟩) hfree, Env.extend_append hfixed]

/-- Each job is made of a row of the batch: the values recorded with it are added, and all are
bound. -/
theorem hardwareJobs_eq_ok {r : Routine N} {limits : Capabilities N} {shots : Int}
    (h : r.hardwareJobs limits shots args = .ok jobs) :
    ∃ circuit given, r.circuit.assign r.params.fixed = .ok circuit ∧
      r.params.named args = .ok given ∧ Forall₂ (fun row job => ∃ recorded bound,
        circuit.scanRecords (given.extend row) = .ok recorded ∧
        circuit.assign recorded = .ok bound ∧ job.metadata = r.params.fixed.extend recorded)
        r.params.batch jobs := by
  obtain ⟨bounds, hbounds, h⟩ := bind_eq_ok.mp h
  obtain ⟨circuit, points, hcircuit, hpoints, hbounds⟩ := bind₂_eq_ok.mp hbounds
  obtain ⟨given, hgiven, hpoints⟩ := bind_eq_ok.mp hpoints
  cases hbounds
  cases hpoints
  have hjobs := mapM_eq_ok_iff.mp h
  rw [map_map, forall₂_map_left_iff] at hjobs
  refine ⟨circuit, given, hcircuit, hgiven, hjobs.imp fun row job hjob => ?_⟩
  obtain ⟨⟨bound, metadata⟩, hbound, hjob⟩ := bind_eq_ok.mp hjob
  obtain ⟨recorded, _, hrecorded, hassign, hbound⟩ := bind₂_eq_ok.mp hbound
  cases hbound
  obtain ⟨program, draft, -, -, hjob⟩ := bind₂_eq_ok.mp hjob
  obtain ⟨spec, -, hjob⟩ := bind_eq_ok.mp hjob
  cases hjob
  exact ⟨recorded, _, hrecorded, hassign, rfl⟩

end Routine

/-! ### Checking a number -/

theorem Param.asArgument_of_asNumber (h : p.asNumber = .ok v) : p.asArgument = .ok v := by
  cases p with
  | number | whole => exact h
  | _ => cases h

variable {r : ParamRules}

theorem ParamRules.check_number {q : Param N} (hp : p.asNumber = .ok v) : r.check x p = .ok q ↔
      x ∉ r.names.vectors ∧ x ∈ r.names.scalars ∧ q = .number v := by
  have hvector : ∀ q, p.asVector x r.sites ≠ .ok q := by
    cases p with
    | number | whole => rintro q ⟨⟩
    | _ => cases hp
  have hscalar : p.asNumber.map Param.number = .ok (.number v) := by rw [hp]; rfl
  rw [check, contains_eq_mem, contains_eq_mem, hscalar]
  by_cases hx : x ∈ r.names.vectors
  · simp [hx, hvector]
  · by_cases hs : x ∈ r.names.scalars
    · simp [hx, hs, eq_comm]
    · simp [hx, hs]

theorem ParamRules.checkAll_append (r : ParamRules) (env : Env N) (x : String) (p : Param N) :
    r.checkAll (env ++ [(x, p)]) = do return (← r.checkAll env) ++ [(x, ← r.check x p)] := by
  rw [checkAll, checkAll, mapM_append]
  simp

variable {env checked : Env N}

theorem ParamRules.checkAll_forall₂ (h : r.checkAll env = .ok checked) :
    Forall₂ (fun a b => a.1 = b.1 ∧ r.check a.1 a.2 = .ok b.2) env checked := by
  refine (mapM_eq_ok_iff.mp h).imp fun a b hab => ?_
  obtain ⟨q, hq, hab⟩ := bind_eq_ok.mp hab
  cases hab
  exact ⟨rfl, hq⟩

theorem ParamRules.lookup_checkAll
    (h : r.checkAll env = .ok checked) (hx : env.lookup x = none) : checked.lookup x = none := by
  rw [lookup_eq_none] at hx ⊢
  rwa [← keys_eq (checkAll_forall₂ h)]

/-! ### The jobs of a chain -/

/-- The parameters of a register, those of a rectangular lattice included. -/
def Register.scalarNames : Register N → List String
  | list ss => ss.flatMap fun s => s.x.names ++ s.y.names
  | lattice (.rectangular _ _ ratio) s _ => ratio.names ++ s.names
  | lattice _ s _ => s.names

variable {r : Register N}

omit [Arith N] in
theorem Register.names_eq_ok {own : List String} (h : r.names = .ok own) : own = r.scalarNames := by
  cases r with
  | list ss =>
    cases h
    rfl
  | lattice l s scaled =>
    cases l <;> cases h <;> rfl

theorem Tiling.ofRegister_keeps {spacing : Scalar N} {t : Tiling N}
    (h : ofRegister r spacing = .ok t) : t.register = r ∧ t.spacing = spacing := by
  obtain ⟨count, -, h⟩ := bind_eq_ok.mp h
  split at h
  · cases h
  obtain ⟨sites, -, h⟩ := bind_eq_ok.mp h
  cases sites with
  | nil => cases h
  | cons s ss =>
    obtain ⟨_, _, -, -, h⟩ := bind₂_eq_ok.mp h
    cases h
    exact ⟨rfl, rfl⟩

variable {α : Type}

theorem mapM_id_eq_some {l : List (Option α)} {as : List α} :
    l.mapM id = some as ↔ l = as.map some := by
  induction l generalizing as with
  | nil => cases as <;> simp
  | cons a l ih =>
    cases a with
    | none => cases as <;> simp
    | some a => cases as <;> simp [Option.bind_eq_some_iff, ih, and_comm]

theorem exists_mapM_id {l : List (Option α)} (h : none ∉ l) : ∃ as, l.mapM id = some as := by
  induction l with
  | nil => exact ⟨[], rfl⟩
  | cons a l ih =>
    obtain ⟨as, has⟩ := ih fun hl => h (mem_cons_of_mem a hl)
    cases a with
    | none => exact absurd mem_cons_self h
    | some a => exact ⟨a :: as, by simp [has]⟩

namespace Chain

/-- The step that asks for copies of the register, at a distance. -/
def copies : Option N → List (Step N)
  | none => []
  | some d => [.parallelize (.lit d)]

variable (c : Chain N)

/-- The jobs of a chain for a device, of its register or of copies of it. -/
def deviceJobs (spacing : Option N) (limits : Capabilities N) (shots : Int)
    (args : List (Param N)) : Outcome (List (HardwareJob N)) := do
  (← (c.extend (copies spacing)).routine).hardwareJobs limits shots args

def arranged : Option N → Outcome (Arrangement N)
  | none => .ok (.plain c.register)
  | some d => do return .tiled (← ofRegister c.register (.lit d))

/-- The jobs of a chain whose parameters are supplied in some way. -/
def jobsWith (spacing : Option N) (limits : Capabilities N) (shots : Int)
    (params : Params N) (args : List (Param N)) : Outcome (List (HardwareJob N)) := do
  let circuit ← c.circuit
  let register ← c.arranged spacing
  Routine.hardwareJobs ⟨⟨register, circuit.sequence⟩, params⟩ limits shots args

variable {c : Chain N} {spacing : Option N} {limits : Capabilities N} {shots : Int}

theorem foldlM_copies (register : Register N) (params : Params N) :
    (copies spacing).foldlM addPragma (.plain register, params) = do
      return (← arranged ⟨register, []⟩ spacing, params) := by
  cases spacing with
  | none => rfl
  | some d =>
    rw [copies, foldlM_cons, addPragma, arranged]
    cases ofRegister register (.lit d) <;> rfl

variable {params : Params N} {ps : List (Step N)}

/-- The jobs of a chain are told by its circuit, the register and the parameters. -/
theorem deviceJobs_eq (hne : c.steps ≠ []) (hbody : ∀ s ∈ c.steps, isPragma s = false)
    (hps : ∀ p ∈ ps, isPragma p)
    (hparams : ps.foldlM addPragma (.plain c.register, {}) = .ok (.plain c.register, params))
    (args : List (Param N)) :
    (c.extend ps).deviceJobs spacing limits shots args =
      c.jobsWith spacing limits shots params args := by
  have hcopies : ∀ p ∈ copies spacing, isPragma p := by
    cases spacing with
    | none => simp [copies]
    | some d => simp [copies, isPragma, Step.sort]
  have hall : ∀ p ∈ ps ++ copies spacing, isPragma p :=
    forall_mem_append.mpr ⟨hps, hcopies⟩
  have hsettings : (c.extend (ps ++ copies spacing)).settings = do
      return (← c.arranged spacing, params) := by
    rw [settings, pragmas_eq rfl hbody hall, foldlM_append]
    have hregister : (c.extend (ps ++ copies spacing)).register = c.register := rfl
    rw [hregister, hparams, ok_bind, foldlM_copies]
    rfl
  rw [deviceJobs, jobsWith, ← extend_append, routine, circuit_extend_pragmas hne hall, hsettings]
  cases c.circuit with
  | error fault => rfl
  | ok circuit => cases c.arranged spacing <;> rfl

/-! ### What values are checked against -/

def rules (c : Chain N) : Outcome ParamRules := do (← c.paramRules).2

variable {rules : ParamRules} {circuit : Circuit N} {names : CircuitNames}

theorem rules_eq_ok : c.rules = .ok rules ↔ ∃ circuit, c.circuit = .ok circuit ∧
    circuit.names = .ok rules.names ∧ c.register.siteCount = .ok rules.sites := by
  rw [Chain.rules, paramRules]
  constructor
  · intro h
    obtain ⟨_, h, hrules⟩ := bind_eq_ok.mp h
    obtain ⟨circuit, names, hcircuit, hnames, h⟩ := bind₂_eq_ok.mp h
    cases h
    obtain ⟨sites, hsites, hrules⟩ := bind_eq_ok.mp hrules
    cases hrules
    exact ⟨circuit, hcircuit, hnames, hsites⟩
  · rintro ⟨circuit, hcircuit, hnames, hsites⟩
    rw [hcircuit, ok_bind, hnames, hsites]
    rfl

theorem rules_extend (hne : c.steps ≠ []) (hps : ∀ p ∈ ps, isPragma p) :
    (c.extend ps).rules = c.rules := by
  rw [Chain.rules, Chain.rules, paramRules, paramRules, circuit_extend_pragmas hne hps]
  rfl

theorem assign_eq (env : Env N) :
    c.assign env = do return c.extend [.assign (← (← c.rules).checkAll env)] := by
  unfold assign Chain.rules
  cases c.paramRules <;> rfl

theorem assignColumns_eq : c.assignColumns [(x, .list [p])] = do
    return c.extend [.columns [[(x, ← (← c.rules).check x p)]]] := by
  have hrow : ∀ rules : ParamRules, ([[(x, p)]] : List (Env N)).mapM rules.checkAll = do
      return [[(x, ← rules.check x p)]] := by
    intro rules
    simp [checkAll]
  have hrows : columnRows [(x, Param.list [p])] = .ok [[(x, p)]] := rfl
  unfold assignColumns Chain.rules
  rw [if_neg (by simp)]
  cases c.paramRules with
  | error fault => rfl
  | ok known =>
    simp only [ok_bind, hrows, hrow, bind_assoc]
    rfl

/-! ### The jobs on each route -/

/-- The ways to supply a parameter. -/
inductive Route where
  | fixed
  | batch
  | argument

/-- The chain with other parameters fixed, if any are to be. -/
def fixOthers : Option (Env N) → Outcome (Chain N)
  | none => .ok c
  | some others => c.assign others

/-- The jobs of a chain if one parameter is supplied in some way, and others are fixed. -/
def jobsBy (spacing : Option N) (limits : Capabilities N) (shots : Int)
    (others : Option (Env N)) (x : String) (p : Param N) : Route → Outcome (List (HardwareJob N))
  | .fixed => do
    (← c.assign (others.getD [] ++ [(x, p)])).deviceJobs spacing limits shots []
  | .batch => do
    (← (← c.fixOthers others).assignColumns [(x, .list [p])]).deviceJobs spacing limits shots []
  | .argument => do
    ((← c.fixOthers others).push (.args [x])).deviceJobs spacing limits shots [p]

def checkOthers : Option (Env N) → Outcome (Env N)
  | none => .ok []
  | some others => do (← c.rules).checkAll others

def fixing : Option (Env N) → Env N → List (Step N)
  | none, _ => []
  | some _, checked => [.assign checked]

theorem checkOthers_eq (h : c.rules = .ok rules) (others : Option (Env N)) :
    c.checkOthers others = rules.checkAll (others.getD []) := by
  cases others with
  | none => rfl
  | some others => rw [checkOthers, h]; rfl

theorem fixOthers_eq (others : Option (Env N)) : c.fixOthers others = do
    return c.extend (fixing others (← c.checkOthers others)) := by
  cases others with
  | none => simp [fixOthers, checkOthers, fixing, extend]
  | some others =>
    rw [fixOthers, assign_eq, checkOthers, bind_assoc]
    rfl

omit [Arith N] in
theorem isPragma_fixing (others : Option (Env N)) (checked : Env N) :
    ∀ p ∈ fixing others checked, isPragma p := by
  cases others <;> simp [fixing, isPragma, Step.sort]

section Routes

variable {others : Option (Env N)} {p : Param N} (hne : c.steps ≠ [])
  (hbody : ∀ s ∈ c.steps, isPragma s = false)

include hne hbody

theorem jobsBy_fixed : c.jobsBy spacing limits shots others x p .fixed = (do
    let rules ← c.rules
    let checked ← rules.checkAll (others.getD [])
    let q ← rules.check x p
    c.jobsWith spacing limits shots ⟨checked ++ [(x, q)], [[]], []⟩ []) := by
  simp only [jobsBy, assign_eq, checkAll_append, bind_assoc, pure_bind]
  refine bind_congr fun rules => bind_congr fun checked => bind_congr fun q => ?_
  exact deviceJobs_eq hne hbody (by simp [isPragma, Step.sort]) rfl []

theorem deviceJobs_after (h : c.checkOthers others = .ok checked) {s : Step N} (hs : isPragma s)
    (hparams : addPragma (.plain c.register, ⟨checked, [[]], []⟩) s = .ok (.plain c.register, params))
    (args : List (Param N)) :
    ((c.extend (fixing others checked)).extend [s]).deviceJobs spacing limits shots args =
      c.jobsWith spacing limits shots params args := by
  have hall : ∀ p ∈ fixing others checked ++ [s], isPragma p :=
    forall_mem_append.mpr ⟨isPragma_fixing others checked, by simpa using hs⟩
  have hfold : (fixing others checked).foldlM addPragma (.plain c.register, {}) =
      .ok (.plain c.register, ⟨checked, [[]], []⟩) := by
    cases others with
    | none => cases h; rfl
    | some others => rfl
  rw [← extend_append, deviceJobs_eq hne hbody hall]
  rw [foldlM_append, hfold, ok_bind, foldlM_cons, hparams]
  rfl

theorem jobsBy_batch : c.jobsBy spacing limits shots others x p .batch = (do
    let checked ← c.checkOthers others
    let q ← (← c.rules).check x p
    c.jobsWith spacing limits shots ⟨checked, [[(x, q)]], []⟩ []) := by
  rw [jobsBy, fixOthers_eq]
  cases hchecked : c.checkOthers others with
  | error fault => rfl
  | ok checked =>
    simp only [ok_bind, pure_bind, assignColumns_eq, rules_extend hne (isPragma_fixing _ _),
      bind_assoc]
    refine bind_congr fun rules => bind_congr fun q => ?_
    exact deviceJobs_after hne hbody hchecked rfl rfl []

theorem jobsBy_argument : c.jobsBy spacing limits shots others x p .argument = (do
    let checked ← c.checkOthers others
    c.jobsWith spacing limits shots ⟨checked, [[]], [x]⟩ [p]) := by
  rw [jobsBy, fixOthers_eq]
  cases hchecked : c.checkOthers others with
  | error fault => rfl
  | ok checked => exact deviceJobs_after hne hbody hchecked rfl rfl [p]

end Routes

/-! ### The routes compared -/

theorem circuit_register (h : c.circuit = .ok circuit) : circuit.register = .plain c.register := by
  obtain ⟨⟨register, rest⟩, hregister, h⟩ := bind_eq_ok.mp h
  cases hregister
  obtain ⟨s, -, h⟩ := bind_eq_ok.mp h
  cases h
  rfl

theorem arranged_clear {a : Arrangement N} (h : c.arranged spacing = .ok a)
    (hr : c.register.Clear x) : a.Clear x := by
  cases spacing with
  | none =>
    cases h
    exact hr
  | some d =>
    obtain ⟨t, ht, h⟩ := bind_eq_ok.mp h
    cases h
    obtain ⟨hregister, hspacing⟩ := ofRegister_keeps ht
    refine ⟨?_, ?_⟩
    · rwa [hregister]
    · rw [hspacing]
      trivial

theorem arranged_names {a a' : Arrangement N} (h : c.arranged spacing = .ok a)
    (hassign : a.assign env = .ok a') : ∃ own, c.register.names = .ok own := by
  have hregister : ∃ r', c.register.assign env = .ok r' := by
    cases spacing with
    | none =>
      cases h
      obtain ⟨r', hr', -⟩ := bind_eq_ok.mp hassign
      exact ⟨r', hr'⟩
    | some d =>
      obtain ⟨t, ht, h⟩ := bind_eq_ok.mp h
      cases h
      obtain ⟨t', ht', -⟩ := bind_eq_ok.mp hassign
      obtain ⟨r', hr', -⟩ := bind_eq_ok.mp ht'
      rw [(ofRegister_keeps ht).1] at hr'
      exact ⟨r', hr'⟩
  obtain ⟨r', hr'⟩ := hregister
  cases hr : c.register with
  | list ss => exact ⟨_, rfl⟩
  | lattice l s scaled =>
    rw [hr] at hr'
    cases l with
    | rectangular => cases hr'
    | _ => exact ⟨_, rfl⟩

omit [Arith N] in
theorem mem_vectors (h : circuit.names = .ok names) :
    x ∈ names.vectors ↔ some x ∈ circuit.sequence.vectorNames := by
  obtain ⟨own, -, h⟩ := bind_eq_ok.mp h
  split at h
  · rename_i vectors hvectors
    cases h
    rw [mapM_id_eq_some.mp hvectors]
    simp
  · cases h

section Compared

variable {circuit : Circuit N} {fixed : Env N} {p : Param N} {jobs : List (HardwareJob N)}

theorem jobsWith_fixed [Arith.Exact N] (hcircuit : c.circuit = .ok circuit)
    (hclear : circuit.Clear x) (hx : some x ∉ circuit.sequence.vectorNames)
    (hfixed : fixed.lookup x = none) :
    c.jobsWith spacing limits shots ⟨fixed ++ [(x, .number v)], [[]], []⟩ [] =
      c.jobsWith spacing limits shots ⟨fixed, [[(x, .number v)]], []⟩ [] := by
  have hregister : c.register.Clear x := by
    have h := hclear.1
    rwa [circuit_register hcircuit] at h
  rw [jobsWith, jobsWith, hcircuit, ok_bind, ok_bind]
  cases harranged : c.arranged spacing with
  | error fault => rfl
  | ok a =>
    have hq : Clear x ⟨a, circuit.sequence⟩ :=
      ⟨arranged_clear harranged hregister, hclear.2⟩
    rw [ok_bind, ok_bind, hardwareJobs, hardwareJobs,
      boundCircuits_fixed hq hx hfixed]

theorem jobsWith_argument (hp : p.asNumber = .ok v) :
    c.jobsWith spacing limits shots ⟨fixed, [[]], [x]⟩ [p] =
      c.jobsWith spacing limits shots ⟨fixed, [[(x, .number v)]], []⟩ [] := by
  simp only [jobsWith, hardwareJobs,
    boundCircuits_args _ _ (Param.asArgument_of_asNumber hp)]

theorem jobsWith_vector [Arith.Exact N] (hcircuit : c.circuit = .ok circuit)
    (hx : some x ∈ circuit.sequence.vectorNames) :
    c.jobsWith spacing limits shots ⟨fixed, [[(x, .number v)]], []⟩ [] ≠ .ok jobs := by
  intro h
  rw [jobsWith, hcircuit, ok_bind] at h
  obtain ⟨a, -, h⟩ := bind_eq_ok.mp h
  obtain ⟨free, given, hfree, hgiven, hjobs⟩ := hardwareJobs_eq_ok h
  cases hgiven
  obtain ⟨_, _, ⟨recorded, bound, hrecorded, hbound, -⟩, -⟩ := forall₂_cons_left_iff.mp hjobs
  -- The parameter is still a number after the recorded values were added.
  obtain ⟨u, hu⟩ : ∃ u, recorded.lookup x = some (.number u) := by
    refine Sequence.scanRecords_keeps (P := fun env => ∃ u, env.lookup x = some (.number u))
      (fun env name u _ henv => ?_) ⟨v, by simp [Env.extend, Json.merge, Json.insert]⟩ hrecorded
    simp only [Env.lookup_insert]
    split
    · exact ⟨u, rfl⟩
    · exact henv
  exact assign_vector_ne_ok hu ((mem_vectorNames_assign hfree).mpr hx) hbound

theorem length_jobsWith (h : c.jobsWith spacing limits shots params args = .ok jobs) :
    jobs.length = params.batch.length := by
  obtain ⟨_, _, -, -, h⟩ := bind₂_eq_ok.mp h
  obtain ⟨_, _, -, -, hjobs⟩ := hardwareJobs_eq_ok h
  exact hjobs.length_eq.symm

end Compared

/-- Supplied values can be checked: every vector of coefficients has a name, and the number of
sites is known. -/
def Checkable : Prop :=
  (∀ circuit, c.circuit = .ok circuit → none ∉ circuit.sequence.vectorNames) ∧
    ∃ sites, c.register.siteCount = .ok sites

theorem checkable_of_rules (h : c.rules = .ok rules) : c.Checkable := by
  obtain ⟨circuit, hcircuit, hnames, hsites⟩ := rules_eq_ok.mp h
  refine ⟨fun circuit' hcircuit' => ?_, rules.sites, hsites⟩
  rw [hcircuit] at hcircuit'
  cases hcircuit'
  obtain ⟨own, -, h⟩ := bind_eq_ok.mp hnames
  split at h
  · rename_i vectors hvectors
    rw [mapM_id_eq_some.mp hvectors]
    simp
  · cases h

/-- Where values can be checked they are, unless the program cannot be compiled at all. -/
theorem Checkable.exists_rules (h : c.Checkable)
    (hjobs : c.jobsWith spacing limits shots params args = .ok jobs) :
    ∃ rules, c.rules = .ok rules := by
  obtain ⟨hnamed, sites, hsites⟩ := h
  obtain ⟨circuit, a, hcircuit, harranged, hjobs⟩ := bind₂_eq_ok.mp hjobs
  obtain ⟨_, _, hbound, -⟩ := hardwareJobs_eq_ok hjobs
  obtain ⟨a', ha', -⟩ := bind_eq_ok.mp hbound
  obtain ⟨own, hown⟩ := arranged_names harranged ha'
  obtain ⟨vectors, hvectors⟩ := exists_mapM_id (hnamed circuit hcircuit)
  have hnames : circuit.names = .ok ⟨own ++ circuit.sequence.scalarNames, vectors⟩ := by
    rw [Circuit.names, circuit_register hcircuit, Arrangement.names, hown, ok_bind, hvectors]
    rfl
  exact ⟨⟨sites, _⟩, rules_eq_ok.mpr ⟨circuit, hcircuit, hnames, hsites⟩⟩

/-- A scalar parameter of a program: it occurs in it, is bound nowhere, and is no recorded name.
There are no profiles, whose parameters have defaults. -/
structure ScalarParameter (c : Chain N) (x : String) : Prop where
  clear {circuit : Circuit N} : c.circuit = .ok circuit → circuit.Clear x
  occurs {circuit : Circuit N} : c.circuit = .ok circuit →
    x ∈ c.register.scalarNames ++ circuit.sequence.scalarNames

theorem ScalarParameter.mem_scalars (h : c.ScalarParameter x) (hcircuit : c.circuit = .ok circuit)
    (hnames : circuit.names = .ok names) : x ∈ names.scalars := by
  obtain ⟨own, hown, hnames⟩ := bind_eq_ok.mp hnames
  rw [circuit_register hcircuit] at hown
  split at hnames
  · cases hnames
    rw [Register.names_eq_ok hown]
    exact h.occurs hcircuit
  · cases hnames

section Alike

variable [Arith.Exact N] {others : Option (Env N)} {p : Param N} (hne : c.steps ≠ [])
  (hbody : ∀ s ∈ c.steps, isPragma s = false) (hx : c.ScalarParameter x) (hp : p.asNumber = .ok v)

include hne hbody hx hp

theorem jobsBy_fixed_eq_batch (hrules : c.rules = .ok rules)
    (hothers : (others.getD []).lookup x = none) :
    c.jobsBy spacing limits shots others x p .fixed =
      c.jobsBy spacing limits shots others x p .batch := by
  obtain ⟨circuit, hcircuit, hnames, -⟩ := rules_eq_ok.mp hrules
  rw [jobsBy_fixed hne hbody, jobsBy_batch hne hbody, checkOthers_eq hrules, hrules, ok_bind]
  cases hchecked : rules.checkAll (others.getD []) with
  | error fault => rfl
  | ok checked =>
    cases hq : rules.check x p with
    | error fault => simp [hq]
    | ok q =>
      obtain ⟨hvectors, -, rfl⟩ := (check_number hp).mp hq
      rw [mem_vectors hnames] at hvectors
      simp only [ok_bind, hq]
      exact jobsWith_fixed hcircuit (hx.clear hcircuit) hvectors (lookup_checkAll hchecked hothers)

theorem jobsBy_batch_iff_argument (hrules : c.rules = .ok rules) :
    c.jobsBy spacing limits shots others x p .batch = .ok jobs ↔
      c.jobsBy spacing limits shots others x p .argument = .ok jobs := by
  obtain ⟨circuit, hcircuit, hnames, -⟩ := rules_eq_ok.mp hrules
  rw [jobsBy_batch hne hbody, jobsBy_argument hne hbody, hrules]
  simp only [bind_eq_ok, ok_bind, jobsWith_argument hp]
  refine exists_congr fun checked => and_congr_right fun _ => ⟨?_, fun h => ?_⟩
  · rintro ⟨q, hq, h⟩
    obtain ⟨-, -, rfl⟩ := (check_number hp).mp hq
    exact h
  · -- A number is refused for a vector when it is checked, and else when it is bound.
    have hvectors : x ∉ rules.names.vectors := by
      rw [mem_vectors hnames]
      exact fun hvector => jobsWith_vector hcircuit hvector h
    exact ⟨_, (check_number hp).mpr ⟨hvectors, hx.mem_scalars hcircuit hnames, rfl⟩, h⟩

end Alike

theorem toOption_eq_some {z : Outcome α} {a : α} : z.toOption = some a ↔ z = .ok a := by
  cases z <;> simp [Except.toOption]

/-- A number for a scalar parameter gives one job, the same whether it is fixed or stands in a
batch. The job is the same, too, if the number is an argument, but in one case: where values cannot
be checked and nothing else is fixed, the argument may go through, and the other ways do not. -/
theorem supplied_alike_iff {c : Chain Rat} (hne : c.steps ≠ [])
    (hbody : ∀ s ∈ c.steps, isPragma s = false) {x : String} (hx : c.ScalarParameter x)
    {others : Option (Env Rat)} (hothers : ∀ env ∈ others, env.lookup x = none) {p : Param Rat}
    {v : Rat} (hp : p.asNumber = .ok v) (spacing : Option Rat) (limits : Capabilities Rat)
    (shots : Int) :
    let jobs? route := (c.jobsBy spacing limits shots others x p route).toOption
    (∀ route jobs, jobs? route = some jobs → ∃ job, jobs = [job]) ∧
      jobs? .fixed = jobs? .batch ∧
      (jobs? .fixed = jobs? .argument ↔
        others.isSome ∨ c.Checkable ∨ jobs? .argument = none) := by
  intro jobs?
  have hothers : (others.getD []).lookup x = none := by
    cases others with
    | none => rfl
    | some env => exact hothers env rfl
  have hfixed : jobs? .fixed = _ := congrArg Except.toOption (jobsBy_fixed hne hbody)
  have hbatch : jobs? .batch = _ := congrArg Except.toOption (jobsBy_batch hne hbody)
  have hargument : jobs? .argument = _ := congrArg Except.toOption (jobsBy_argument hne hbody)
  constructor
  · intro route jobs hjobs
    rw [← List.length_eq_one_iff]
    cases route with
    | fixed =>
      rw [hfixed, toOption_eq_some] at hjobs
      simp only [bind_eq_ok] at hjobs
      obtain ⟨_, -, _, -, _, -, h⟩ := hjobs
      exact length_jobsWith h
    | batch =>
      rw [hbatch, toOption_eq_some] at hjobs
      simp only [bind_eq_ok] at hjobs
      obtain ⟨_, -, _, -, _, -, h⟩ := hjobs
      exact length_jobsWith h
    | argument =>
      rw [hargument, toOption_eq_some] at hjobs
      obtain ⟨_, -, h⟩ := bind_eq_ok.mp hjobs
      exact length_jobsWith h
  cases hrules : c.rules with
  | ok rules =>
    have heq : jobs? .fixed = jobs? .batch :=
      congrArg Except.toOption (jobsBy_fixed_eq_batch hne hbody hx hp hrules hothers)
    have heq' : jobs? .batch = jobs? .argument := by
      refine Option.ext fun jobs => ?_
      rw [toOption_eq_some, toOption_eq_some]
      exact jobsBy_batch_iff_argument hne hbody hx hp hrules
    exact ⟨heq, iff_of_true (heq.trans heq') (.inr (.inl (checkable_of_rules hrules)))⟩
  | error fault =>
    -- Without a check the first two ways are closed.
    have hnone : jobs? .fixed = none := by rw [hfixed, hrules]; rfl
    have hnone' : jobs? .batch = none := by
      rw [hbatch, hrules]
      cases c.checkOthers others <;> rfl
    refine ⟨hnone.trans hnone'.symm, ?_⟩
    rw [hnone, eq_comm]
    refine ⟨fun h => .inr (.inr h), fun h => ?_⟩
    refine Option.eq_none_iff_forall_ne_some.mpr fun jobs hjobs => ?_
    have hjobs' := hjobs
    rw [hargument, toOption_eq_some] at hjobs'
    obtain ⟨checked, hchecked, hjobs'⟩ := bind_eq_ok.mp hjobs'
    rcases h with hsome | hcheckable | hnone
    · obtain ⟨env, rfl⟩ := Option.isSome_iff_exists.mp hsome
      rw [checkOthers, hrules] at hchecked
      cases hchecked
    · obtain ⟨rules, h⟩ := hcheckable.exists_rules hjobs'
      cases hrules.symm.trans h
    · cases hnone.symm.trans hjobs

/-- One atom with a detuning that rises to a value, which is recorded, and stays there. -/
def recordedRise : Chain Rat :=
  ⟨.list [⟨.lit 0, .lit 0, true⟩], [.rydberg, .detuning, .uniform,
    .linear (.lit 0) (.var "x") (.var "t"), .record "top", .constant (.var "top") (.lit 1)]⟩

theorem recordedRise_circuit : recordedRise.circuit = .ok ⟨.plain recordedRise.register,
    .pulses [(.rydberg, .fields [(.detuning, ⟨[(.uniform, .append [
      .record (.linear (.lit 0) (.var "x") (.var "t")) "top",
      .constant (.var "top") (.lit 1)])]⟩)])]⟩ := by
  with_unfolding_all rfl

theorem recordedRise_scalarParameter : recordedRise.ScalarParameter "x" where
  clear h := by
    rw [recordedRise_circuit] at h
    cases h
    simp [Clear, Arrangement.Clear, Register.Clear, Site.Clear, Sequence.Clear, Pulse.Clear,
      Bundle.fold, Bundle.all, Field.Clear, Field.ClearDrive, Modulation.Clear, Waveform.Clear, Waveform.ClearAll,
      Scalar.Clear, recordedRise]
  occurs h := by
    rw [recordedRise_circuit] at h
    cases h
    simp [Sequence.scalarNames, Pulse.scalarNames, Bundle.fold, Bundle.gather, Field.scalarNames,
      Waveform.names, Waveform.namesAll, Scalar.names]

/-- The rise is compiled to the same job in all three ways. -/
theorem recordedRise_supplied_alike :
    ∃ job, ∀ route, (recordedRise.jobsBy none .standard 1 (some [("t", .whole 2)]) "x"
      (.number (1 / 2)) route).toOption = some [job] := by
  have hothers : ∀ env ∈ (some [("t", .whole 2)] : Option (Env Rat)), env.lookup "x" = none := by
    simp
  have hp : (Param.number (1 / 2 : Rat)).asNumber = .ok (1 / 2) := rfl
  obtain ⟨hone, hbatch, hargument⟩ := supplied_alike_iff (by simp [recordedRise])
    (by simp [recordedRise, isPragma, Step.sort]) recordedRise_scalarParameter hothers hp none
    .standard 1
  have hfixed : (recordedRise.jobsBy none .standard 1 (some [("t", .whole 2)]) "x"
      (.number (1 / 2)) .fixed).toOption.isSome = true := by
    decide +kernel
  obtain ⟨jobs, hjobs⟩ := Option.isSome_iff_exists.mp hfixed
  obtain ⟨job, rfl⟩ := hone .fixed jobs hjobs
  refine ⟨job, fun route => ?_⟩
  cases route with
  | fixed => exact hjobs
  | batch => exact hbatch.symm.trans hjobs
  | argument => exact (hargument.mpr (.inl rfl)).symm.trans hjobs

/-- One atom with a detuning that has coefficients without a name. -/
def unnamedDetuning : Chain Rat :=
  ⟨.list [⟨.lit 0, .lit 0, true⟩],
    [.rydberg, .detuning, .values [.whole 1], .constant (.var "x") (.lit 1)]⟩

theorem unnamedDetuning_circuit : unnamedDetuning.circuit = .ok ⟨.plain unnamedDetuning.register,
    .pulses [(.rydberg, .fields [(.detuning, ⟨[(.boundVector none [1],
      .constant (.var "x") (.lit 1))]⟩)])]⟩ := by
  with_unfolding_all rfl

/-- A program that takes a scalar parameter as an argument, and in no other way. -/
theorem unnamed_vector_only_by_argument : unnamedDetuning.ScalarParameter "x" ∧
      (∀ route, route ≠ .argument →
        (unnamedDetuning.jobsBy none .standard 1 none "x" (.whole 1) route).toOption = none) ∧
      ∃ job, unnamedDetuning.jobsBy none .standard 1 none "x" (.whole 1) .argument = .ok [job] := by
  refine ⟨⟨fun h => ?_, fun h => ?_⟩, fun route hroute => ?_, ?_⟩
  · rw [unnamedDetuning_circuit] at h
    cases h
    simp [Clear, Arrangement.Clear, Register.Clear, Site.Clear, Sequence.Clear, Pulse.Clear,
      Bundle.fold, Bundle.all, Field.Clear, Field.ClearDrive, Modulation.Clear, Waveform.Clear, Scalar.Clear,
      unnamedDetuning]
  · rw [unnamedDetuning_circuit] at h
    cases h
    simp [Sequence.scalarNames, Pulse.scalarNames, Bundle.fold, Bundle.gather, Field.scalarNames,
      Waveform.names, Scalar.names]
  · cases route with
    | argument => exact absurd rfl hroute
    | _ => with_unfolding_all rfl
  · have hsome : (unnamedDetuning.jobsBy none .standard 1 none "x" (.whole 1)
        .argument).toOption.isSome = true := by
      decide +kernel
    obtain ⟨jobs, hjobs⟩ := Option.isSome_iff_exists.mp hsome
    have hjobs := toOption_eq_some.mp hjobs
    have hwith := hjobs
    rw [jobsBy_argument (by simp [unnamedDetuning])
      (by simp [unnamedDetuning, isPragma, Step.sort])] at hwith
    obtain ⟨_, -, hwith⟩ := bind_eq_ok.mp hwith
    obtain ⟨job, rfl⟩ := List.length_eq_one_iff.mp (length_jobsWith hwith)
    exact ⟨job, hjobs⟩

end Chain

end AtomArray
