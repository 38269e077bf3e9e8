import AtomArray.Proofs.Targets

/-!
Drives that are aimed at atoms.

`AimedDrive.valueAt given a t` is what a drive contributes at the atom `a` and the time `t`.
Drives on an atom are added up by `Waveform.plus` (`EmulatorScope.total_keeps`), so nothing in their
waveforms may take a negative time.
-/

namespace AtomArray

open List Outcome Scalar

/-- Nothing in the waveforms of a field takes a negative time. -/
def Field.Lasting (given : Env Rat) (f : Field Rat) : Prop := ∀ d ∈ f.drives, d.2.Lasting given

namespace EmulatorScope

variable {τ : Type}

section Making

variable {N : Type} {ds : List (AimedDrive N)}

theorem byAtom_eq_ok {R : Nat → τ → Prop} {step : N → Nat → Outcome N}
    {make : N → Nat → Outcome (N × τ)}
    (hmake : ∀ {t t' b term}, make t b = .ok (t', term) → R b term ∧ step t b = .ok t')
    {clock clock' : N} {atoms : List Nat} {terms : List τ}
    (h : byAtom ds make clock atoms = .ok (clock', terms)) :
    Forall₂ R (atoms.filter (isDriven ds)) terms ∧
      (atoms.filter (isDriven ds)).foldlM step clock = .ok clock' := by
  induction atoms generalizing clock terms with
  | nil =>
    cases h
    exact ⟨.nil, rfl⟩
  | cons b atoms ih =>
    cases hb : isDriven ds b with
    | true =>
      simp only [byAtom, hb, if_true, bind_eq_ok, return_eq_ok, Prod.mk.injEq] at h
      obtain ⟨⟨next, term⟩, hterm, ⟨_, more⟩, hmore, rfl, rfl⟩ := h
      obtain ⟨hown, hnext⟩ := hmake hterm
      rw [filter_cons_of_pos hb, foldlM_cons, hnext]
      exact ⟨.cons hown (ih hmore).1, (ih hmore).2⟩
    | false =>
      rw [filter_cons_of_neg (by simp [hb])]
      exact ih (by simpa [byAtom, hb] using h)

variable [Arith N] {s : EmulatorScope N} {f : Field N}

theorem aimed_eq_ok : s.aimed f = .ok ds ↔
    Forall₂ (fun d e => e.waveform = d.2 ∧ s.targets d.1 = .ok e.targets) f.drives ds := by
  rw [aimed, mapM_eq_ok_iff]
  refine iff_of_eq (congrArg (Forall₂ · f.drives ds) (funext₂ fun d e => propext ?_))
  simp only [bind_eq_ok, return_eq_ok]
  constructor
  · rintro ⟨targets, htargets, rfl⟩
    exact ⟨rfl, htargets⟩
  · rintro ⟨hw, htargets⟩
    exact ⟨e.targets, htargets, by rw [← hw]⟩

theorem forall_aimed {Q : Waveform N → Prop} (hds : s.aimed f = .ok ds)
    (hf : ∀ d ∈ f.drives, Q d.2) : ∀ d ∈ ds, Q d.waveform := by
  intro d hd
  obtain ⟨drive, hdrive, hw, -⟩ := exists_of_mem_forall₂ (aimed_eq_ok.mp hds).flip hd
  rw [hw]
  exact hf drive hdrive

end Making

variable {s : EmulatorScope Rat} {f : Field Rat} {ds : List (AimedDrive Rat)} {a k : Nat}
  {t v : Rat} {w : Waveform Rat}

def AimedDrive.valueAt (given : Env Rat) (a : Nat) (t : Rat) (d : AimedDrive Rat) :
    Outcome Rat := do
  return d.targets.weightOn a * (← d.waveform.eval given t)

variable {given : Env Rat}

open AimedDrive

/-! ### Aimed drives -/

theorem nothing_lasting (given : Env Rat) : (nothing : Waveform Rat).Lasting given :=
  .constant (x := 0) (by simp [const, eval, Decimal.toRat, Arith.ofDecimal]) le_rfl

/-- One step of a sum of drives. -/
def withDrive (a : Nat) (acc : Waveform Rat) (d : AimedDrive Rat) : Outcome (Waveform Rat) :=
  match d.targets.lookup a with
  | some weight => acc.plus (.scale (.lit weight) d.waveform)
  | none => .ok acc

theorem total_eq_foldlM : total ds a = ds.foldlM (withDrive a) nothing := by
  rw [total]
  congr 1
  funext acc d
  rw [withDrive]
  cases d.targets.lookup a <;> rfl

end EmulatorScope

end AtomArray
