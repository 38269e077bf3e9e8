import AtomArray.Emulator.Compile
import AtomArray.Number.Exact
import AtomArray.Proofs.HardwareDraft
import AtomArray.Proofs.Lookup

/-!
Which sites a drive may name.

A drive with scales names sites by their numbers. Compiled for a device, it is refused if a number is
too large; compiled for emulation, also if one is negative.
-/

namespace AtomArray

open List Outcome EmulatorScope

variable {N : Type} [Arith N]

/-- Something comes out exactly under the condition; otherwise it is refused as a wrong value. -/
def Outcome.Guards {α : Type} (x : Outcome α) (P : Prop) : Prop :=
  (P → ∃ a, x = .ok a) ∧ (¬P → ∃ fault : Fault, x = .error fault ∧ fault.kind = .wrongValue)

theorem Outcome.Guards.bind {α β : Type} {x : Outcome α} {P : Prop} {f : α → Outcome β}
    (h : x.Guards P) (hf : ∀ a, ∃ b, f a = .ok b) : (x >>= f).Guards P := by
  refine ⟨fun hP => ?_, fun hP => ?_⟩
  · obtain ⟨a, rfl⟩ := h.1 hP
    exact hf a
  · obtain ⟨fault, rfl, hkind⟩ := h.2 hP
    exact ⟨fault, rfl, hkind⟩

/-- A check that refuses the first item that is not allowed. -/
theorem Outcome.guards_find? {α β : Type} {ok : α → Prop} {xs : List α} {x : Outcome β}
    (bad : α → Bool) (hok : ∀ a, ok a ↔ bad a = false)
    (hbad : ∀ a, xs.find? bad = some a → ∃ fault, x = .error fault ∧ fault.kind = .wrongValue)
    (hgood : xs.find? bad = none → ∃ b, x = .ok b) : x.Guards (∀ a ∈ xs, ok a) := by
  simp only [hok]
  cases hfind : xs.find? bad with
  | none => exact ⟨fun _ => hgood hfind, fun h => absurd (by simpa using hfind) h⟩
  | some a =>
    refine ⟨fun h => ?_, fun _ => hbad a hfind⟩
    simpa [find?_some hfind] using h a (mem_of_find?_eq_some hfind)

variable {env : Env N} {scales : Scales N} {d : HardwareDraft N} {s : EmulatorScope N} {n : Nat}

theorem HardwareDraft.addModulation_scaled (hn : d.siteCount = some n) (hdecoder : d.decoder = none)
    (hscales : ∀ p ∈ scales, ∃ x, p.2.eval env = .ok x) :
    (addModulation env d (.scaled scales)).Guards (∀ p ∈ scales, p.1 < n) := by
  rw [addModulation, knownSites_eq_ok.mpr hn, ok_bind]
  refine guards_find? (fun p => decide ((n : Int) ≤ p.1)) (by simp) (fun p hp => ?_) fun hp => ?_
  · exact ⟨.locationBeyondRegister p.1, by rw [hp]; rfl, rfl⟩
  have hall : ∀ i ∈ range n, ∃ c, (((scales.lookup (i : Int)).getD unscaled).eval env).map
      Param.number = .ok c ∧ True := by
    intro i _
    cases hi : scales.lookup (i : Int) with
    | none => exact ⟨_, rfl, trivial⟩
    | some e =>
      obtain ⟨x, hx⟩ := hscales _ (mem_of_lookup hi)
      exact ⟨.number x, congrArg (Except.map _) hx, trivial⟩
  obtain ⟨cs, hcs, -⟩ := exists_mapM_eq_ok hall
  simp [hp, hcs, spread, hdecoder]

namespace EmulatorScope

omit [Arith N] in
theorem exists_weighted {weight : Nat → Outcome (Option N)} (h : ∀ site, ∃ w, weight site = .ok w) :
    ∃ ts, s.weighted weight = .ok ts := by
  have hall : ∀ q ∈ s.places, ∃ c, (do return (q.1, ← weight q.2)) = Except.ok c ∧ True := by
    intro q _
    obtain ⟨w, hw⟩ := h q.2
    exact ⟨(q.1, w), by simp [hw], trivial⟩
  obtain ⟨found, hfound, -⟩ := exists_mapM_eq_ok hall
  exact ⟨_, by rw [weighted, hfound]; rfl⟩

theorem targets_scaled (hscales : ∀ p ∈ scales, ∃ x, p.2.eval s.env = .ok x) :
    (s.targets (.scaled scales)).Guards (∀ p ∈ scales, 0 ≤ p.1 ∧ p.1 < s.fleet.siteCount) := by
  rw [targets]
  refine guards_find? (fun p => decide (s.fleet.siteCount ≤ p.1 ∨ p.1 < 0)) (by simp [and_comm])
    (fun p hp => ?_) fun hp => ?_
  · exact ⟨.locationOutOfBounds p.1 s.fleet.siteCount.toNat, by rw [hp]; rfl, rfl⟩
  rw [hp]
  refine exists_weighted fun site => ?_
  cases hq : scales.lookup (site : Int) with
  | none => exact ⟨_, rfl⟩
  | some e =>
    obtain ⟨x, hx⟩ := hscales _ (mem_of_lookup hq)
    exact ⟨some x, congrArg (Except.map _) hx⟩

end EmulatorScope

/-- **What each compiler accepts of a drive with scales** on a register of `n` sites: numbers below
`n` for a device, and for emulation those of them that are not negative. Any other drive is refused
as a wrong value. -/
theorem Scales.accepted_by_each {r : Register N} {sites : List (Site N)} {w : Waveform N}
    {own : PiecewiseLinear N} {t t' stop : N} (hsites : r.sites = .ok sites)
    (hd : HardwareDraft.addRegister s.env {} r = .ok d) (hs : s.fleet.siteCount = sites.length)
    (hscales : ∀ p ∈ scales, ∃ x, p.2.eval s.env = .ok x)
    (hown : PiecewiseLinear.ofWaveform s.env w = .ok own) (hstop : lastItem? own.times = .ok stop)
    (ht : s.extend t w = .ok t') :
    (d.addDetuning s.env ⟨[(.scaled scales, w)]⟩).Guards (∀ p ∈ scales, p.1 < sites.length) ∧
      (s.detuning t (some ⟨[(.scaled scales, w)]⟩)).Guards
        (∀ p ∈ scales, 0 ≤ p.1 ∧ p.1 < sites.length) := by
  constructor
  · simp only [HardwareDraft.addRegister, hsites, ok_bind, bind_eq_ok, return_eq_ok] at hd
    obtain ⟨_, -, rfl⟩ := hd
    simp only [HardwareDraft.addDetuning, hown, hstop, ok_bind]
    exact HardwareDraft.addModulation_scaled rfl rfl hscales
  · have htargets := s.targets_scaled hscales
    rw [hs] at htargets
    rw [detuning]
    split
    · simp only [detuningByDrive, byDrive, ht, ok_bind]
      exact htargets.bind fun ts => ⟨_, rfl⟩
    · rename_i hfew
      -- without atoms the targets are found, and nothing is left to do
      have hatoms : s.atoms = [] := by
        simp [isSmall] at hfew
        simp [atoms]
        omega
      simp only [aimed, mapM_cons, mapM_nil, hatoms, bind_assoc]
      exact htargets.bind fun ts => ⟨_, rfl⟩

theorem Scales.vacant_site_accepted :
    let r : Register Rat := .list [⟨.lit 0, .lit 0, true⟩, ⟨.lit 5, .lit 0, false⟩]
    let s : EmulatorScope Rat := ⟨[], [], ⟨[0], 1, 2⟩⟩
    let f : Field Rat := ⟨[(.scaled [(1, .lit 1)], .constant (.lit 1) (.lit 1))]⟩
    ∃ d, HardwareDraft.addRegister [] {} r = .ok d ∧ (∃ d', d.addDetuning [] f = .ok d') ∧
      ∃ ts, s.detuning 0 (some f) = .ok ts := by
  intro r s f
  have h := @Scales.accepted_by_each Rat _ [(1, .lit 1)] _ s r _ (.constant (.lit 1) (.lit 1))
    _ 0 _ _ rfl rfl rfl (by simp [Scalar.eval]) rfl rfl rfl
  exact ⟨_, rfl, h.1.1 (by simp), h.2.1 (by simp)⟩

/-- The site before the first is no site; a device gets the drive without it. -/
theorem Scales.before_first_accepted :
    let c : Circuit Rat := ⟨.plain (.list [⟨.lit 0, .lit 0, true⟩]), .pulses [(.rydberg, .fields
      [(.detuning, ⟨[(.scaled [(-1, .lit 1)], .constant (.lit 1) (.lit 1))]⟩)])]⟩
    (∃ p, HardwareProgram.ofCircuit [] none 1 c = .ok p) ∧
      EmulatorProgram.ofCircuit [] 5 false c = .error (.locationOutOfBounds (-1) 1) :=
  ⟨⟨_, by with_unfolding_all rfl⟩, by with_unfolding_all rfl⟩

end AtomArray
