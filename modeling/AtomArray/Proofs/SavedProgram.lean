import AtomArray.Proofs.SavedBatch

/-!
Reading saved emulator programs back.

The saved forms of waveforms hold texts only and are read as the waveforms that were written, or not
at all. So the fate of a program follows from those of its parts
(`EmulatorProgram.hasFate_document`). A program with atoms is never kept, since sites are written as
tuples and targets stand under whole numbers (`EmulatorProgram.kept_fate_of_sites`).
-/

namespace AtomArray

open Outcome Json Except Bool

/-! ### Saved forms -/

/-- The saved form of an object holds no fractions if those of its parts do not. -/
theorem Json.isVerbal_object {head : String} {parts : Members}
    (h : keysTidy (head :: parts.map Prod.fst)) :
    (obj [(head, obj parts)]).isVerbal = haveAll (fun _ => false) keysTidy parts := by
  rw [keysTidy, and_eq_true, decide_eq_true_eq, List.nodup_cons, List.all_cons,
    and_eq_true] at h
  have hhead : keysTidy [head] := by simp [keysTidy, h.2.1]
  have hparts : keysTidy (parts.map Prod.fst) := by simp [keysTidy, h.1.2, h.2.2]
  simp [every, haveAll, hhead, hparts]

namespace Scalar

variable {N : Type} [Arith N]

open Json (isVerbal_object)

mutual

theorem isVerbal_saved (e : Scalar N) : e.saved.isVerbal := by
  cases e <;> rw [saved, isVerbal_object rfl]
  case lit | var | assigned => rfl
  case neg e => simp [haveAll, isVerbal_saved e]
  case add a b | mul a b | div a b => simp [haveAll, isVerbal_saved a, isVerbal_saved b]
  case min ts | max ts => simp [haveAll, every, areAll_savedAll ts]
  case slice e start stop =>
    rw [haveAll, haveAll, ← isVerbal, isVerbal_object rfl]
    simp [haveAll, isVerbal_saved e, isVerbal_savedBound start, isVerbal_savedBound stop]

theorem areAll_savedAll : ∀ ts : List (Scalar N),
    areAll (fun _ => false) keysTidy (savedAll ts)
  | [] => rfl
  | t :: ts => by simp [savedAll, areAll, isVerbal_saved t, areAll_savedAll ts]

theorem isVerbal_savedBound : ∀ b : Option (Scalar N), (savedBound b).isVerbal
  | none => rfl
  | some e => isVerbal_saved e

end

end Scalar

theorem Interval.isVerbal_saved {N : Type} [Arith N] (i : Interval N) :
    i.saved.isVerbal := by
  rw [saved, isVerbal_object rfl]
  simp [haveAll, Scalar.isVerbal_savedBound]

namespace Waveform

section Verbal

variable {N : Type} [Arith N]

open Json (isVerbal_object)

mutual

theorem isVerbal_saved : ∀ {w : Waveform N} {j : Json}, w.saved = .ok j → j.isVerbal
  | linear .., j, h | constant .., j, h | poly .., j, h => by
    cases h
    rw [isVerbal_object rfl]
    simp [haveAll, every, areAll_eq, Scalar.isVerbal_saved]
  | profile .., j, h | record .., j, h => by cases h
  | smooth _ _ w, j, h | slice w _, j, h | neg w, j, h | scale _ w, j, h | sample w _ _, j, h => by
    obtain ⟨l, hl, h⟩ := bind_eq_ok.mp h
    cases h
    rw [isVerbal_object rfl]
    simp [haveAll, isVerbal_saved hl, Scalar.isVerbal_saved, Interval.isVerbal_saved,
      every]
  | append ws, j, h => by
    obtain ⟨ls, hls, h⟩ := bind_eq_ok.mp h
    cases h
    rw [isVerbal_object rfl]
    simp [haveAll, every, areAll_savedAll hls]
  | add a b, j, h => by
    obtain ⟨l, r, hl, hr, h⟩ := bind₂_eq_ok.mp h
    cases h
    rw [isVerbal_object rfl]
    simp [haveAll, isVerbal_saved hl, isVerbal_saved hr]
  | aligned .., j, h => by
    obtain ⟨l, hl, h⟩ := bind_eq_ok.mp h
    cases h

theorem areAll_savedAll : ∀ {ws : List (Waveform N)} {js : List Json}, savedAll ws = .ok js →
    areAll (fun _ => false) keysTidy js
  | [], js, h => by
    cases h
    rfl
  | w :: ws, js, h => by
    obtain ⟨l, ls, hl, hls, h⟩ := bind₂_eq_ok.mp h
    cases h
    simp [areAll, isVerbal_saved hl, areAll_savedAll hls]

end

end Verbal

mutual

theorem same_self {w : Waveform Quantity} (hs : w.isSavable) (h : w.isReadable) :
    w.same w := by
  cases w <;> simp only [isReadable, and_eq_true] at h <;> rw [same]
  case linear | constant => simp [Scalar.same_self, h]
  case poly =>
    have hsame := sameList_map (g := id) (Scalar.same_self_of_mem h.1)
    rw [List.map_id] at hsame
    simp [Scalar.same_self, hsame, h.2]
  case profile | record | aligned => cases hs
  case smooth w => simp [Scalar.same_self h.1.2, same_self (w := w) hs h.1.1]
  case slice w i =>
    simp only [Interval.isFinite, and_eq_true] at h
    simp [Interval.same, Scalar.sameBound_self, h.2, same_self (w := w) hs h.1]
  case append => exact sameAll_self hs h
  case neg w => exact same_self (w := w) hs h
  case scale w => simp [Scalar.same_self h.2, same_self (w := w) hs h.1]
  case sample w _ _ => simp [Scalar.same_self h.2, same_self (w := w) hs h.1]
  case add =>
    simp only [isSavable, and_eq_true] at hs
    simp [same_self hs.1 h.1, same_self hs.2 h.2]

theorem sameAll_self : ∀ {ws : List (Waveform Quantity)}, areSavable ws →
    areReadable ws → sameAll ws ws
  | [], _, _ => rfl
  | w :: ws, hs, h => by
    simp only [areSavable, areReadable, and_eq_true] at hs h
    simp [sameAll, same_self hs.1 h.1, sameAll_self hs.2 h.2]

end

theorem isOk_saved {N : Type} [Arith N] (w : Waveform N) : w.saved.isOk = w.isSavable := by
  rw [Bool.eq_iff_iff, ← exists_saved_iff]
  cases w.saved <;> simp [Except.isOk, Except.toBool]

/-- A saved waveform is read exactly if its numbers are finite and no kernel is Gaussian. -/
theorem ofJson_saved_answers {w : Waveform Quantity} {j : Json} (h : w.isFormed)
    (hj : w.saved = .ok j) : Answers (Loaded.ofJson j) w.isReadable (.waveform w) := by
  cases hread : w.isReadable with
  | true => exact (ofJson_saved_eq_ok h hj).mpr ⟨hread, rfl⟩
  | false =>
    cases hx : (Loaded.ofJson j : Outcome (Loaded Quantity)) with
    | error e => rfl
    | ok x =>
      rw [((ofJson_saved_eq_ok h hj).mp hx).1] at hread
      cases hread

end Waveform

open List Document Fate

/-! ### Emulator programs -/

/-- A waveform is read from its saved form, and its parameters are as they are given. -/
theorem Document.build_waveform {j : Json} (h : j.isVerbal) (env : Document) {r : Bool}
    {l : Loaded Quantity} (hl : Answers (Loaded.ofJson j) r l) :
    Answers (build .waveform (dict [(.text "assignments", env), (.text "source", j.document)])) r
      (object .waveform [("assignments", env), ("source", source l)]) := by
  have hgiven := given?_dict [("assignments", env), ("source", j.document)]
  have hneed : need [("assignments", env), ("source", j.document)] "source" = .ok j.document := rfl
  have hsource : Answers (asSource j.document) r (source l) := by
    rw [asSource, if_pos (Json.isBasic_of_isVerbal h), Json.plain_document]
    cases hx : (Loaded.ofJson j : Outcome (Loaded Quantity)) <;> exact (hx ▸ hl).map source
  have hput : put "source" (source l) [("assignments", env), ("source", j.document)] =
      [("assignments", env), ("source", source l)] := by
    simp [put, Json.insert]
  have hbuild := hsource.bind (s := true) (f := fun x =>
    construct .waveform (put "source" x [("assignments", env), ("source", j.document)]))
    (by rw [hput]; exact construct_eq_ok rfl)
  rw [Bool.and_true] at hbuild
  simp only [map_cons, map_nil] at hgiven
  simpa [build, hgiven, hneed] using hbuild

namespace CompiledWaveform

/-- Are the values of the parameters such that a text can give them, and all expressions as the
operations build them? -/
def isFormed (w : CompiledWaveform Quantity) : Bool :=
  (Param.record w.env).isFormed && w.source.isFormed

def fate (w : CompiledWaveform Quantity) : Fate :=
  (Param.record w.env).fate.and ⟨w.source.isSavable, w.source.isReadable, true⟩

variable {w : CompiledWaveform Quantity}

/-- What a waveform is loaded as depends on what its saved form is read as. -/
theorem saved_document (h : w.isFormed) : w.document.Saved w.fate := by
  rw [isFormed, and_eq_true] at h
  obtain ⟨e, hsource, hbuild⟩ : ∃ e, Document.SavedAs w.source.saved w.source.isSavable true e ∧
      (w.source.isSavable → ∀ env, Answers
        (Document.build .waveform (.dict [(.text "assignments", env), (.text "source", e)]))
        w.source.isReadable
        (.object .waveform [("assignments", env), ("source", .source (.waveform w.source))])) := by
    rw [← w.source.isOk_saved]
    cases hl : w.source.saved with
    | error e => exact ⟨.null, ⟨.null, rfl, fun hw => by cases hw⟩, fun hw => by cases hw⟩
    | ok l =>
      have hverbal := Waveform.isVerbal_saved hl
      exact ⟨l.document, savedAs_verbal hverbal, fun _ env =>
        build_waveform hverbal env (Waveform.ofJson_saved_answers h.2 hl)⟩
  have hparts : Document.PartsSaved .waveform
      [("assignments", envDocument w.env), ("source", .source (.waveform w.source))]
      [(Param.record w.env).fate, ⟨w.source.isSavable, true, true⟩]
      [("assignments", (envDocument w.env).reloaded), ("source", e)] :=
    .cons rfl (Param.hasFate_document h.1).saved (.cons rfl hsource .nil)
  have hsaved := hparts.savedAs rfl fun hw =>
    hbuild (written_and.mp (written_and.mp hw).2).1 _
  rwa [Fate.all_cons, Fate.all_cons, Fate.all_nil, and_unchanged] at hsaved

theorem hasFate_document (h : w.isFormed) : w.document.HasFate w.fate where
  saved := saved_document h
  same hw hr := by
    obtain ⟨henv, hs⟩ := written_and.mp hw
    have hsame : (envDocument w.env).same (envDocument w.env).reloaded = _ :=
      (Param.hasFate_document (and_eq_true_iff.mp h).1).same henv rfl
    have hsource := Waveform.same_self hs (readable_and.mp hr).2
    simp [document, Document.reloaded, Document.reloadedParts, Document.same, Document.sameParts,
      Document.sameSource, hsame, hsource, fate, Fate.and]

end CompiledWaveform

namespace Json

theorem toString_int_injective : Function.Injective (toString : Int → String) := by
  intro i j h
  have hends : Ends [] := by simp [Ends]
  have hi := readNumber?_int i hends
  rw [h, readNumber?_int j hends] at hi
  simpa using hi.symm

theorem ofKey?_toString_int (i : Int) : SavedClass.ofKey? (toString i) = none := by
  refine SavedClass.ofKey?_eq_none fun hb => ?_
  have hmem := mem_of_mem_head? (Option.mem_def.mpr hb)
  rw [toList_toString_int, mem_append] at hmem
  rcases hmem with hsign | hdigit
  · unfold Decimal.signChars at hsign
    split at hsign <;> simp at hsign
  · exact absurd (Decimal.areDigits_toDigits _ _ hdigit) (by decide)

theorem keysTidy_map {α : Type} {f : α → String} {as : List α} (h : as.Nodup)
    (hinjective : Function.Injective f) (hkey : ∀ a, SavedClass.ofKey? (f a) = none) :
    keysTidy (as.map f) := by
  rw [keysTidy, and_eq_true, decide_eq_true_eq, all_eq_true]
  refine ⟨h.map hinjective, fun k hk => ?_⟩
  obtain ⟨a, -, rfl⟩ := mem_map.mp hk
  rw [hkey]
  rfl

end Json

namespace Targets

/-- Does no atom occur twice, and can a text give all weights? -/
def isFormed (ts : Targets Quantity) : Bool :=
  decide (ts.map Prod.fst).Nodup && ts.all fun t => (Param.number t.2).isFormed

/-- The numbers of the atoms are read as texts. -/
def fate (ts : Targets Quantity) : Fate := .all (ts.map fun t => (Param.number t.2).fate.lost)

theorem hasFate_document {ts : Targets Quantity} (h : Targets.isFormed ts) :
    (targetsDocument ts).HasFate (Targets.fate ts) := by
  rw [isFormed, and_eq_true, decide_eq_true_eq, all_eq_true] at h
  have hkeys := Json.keysTidy_map h.1 (Json.toString_int_injective.comp Int.ofNat_injective)
    fun a => Json.ofKey?_toString_int a
  rw [map_map] at hkeys
  exact hasFate_dict (fun t : Nat × Quantity => .whole t.1)
    (fun t ht => Param.hasFate_document (h.2 t ht)) hkeys

end Targets

namespace DetuningTerm

def isFormed (t : DetuningTerm Quantity) : Bool :=
  Targets.isFormed t.targets && t.amplitude.isFormed

def fate (t : DetuningTerm Quantity) : Fate := (Targets.fate t.targets).and t.amplitude.fate

theorem hasFate_document {t : DetuningTerm Quantity} (h : t.isFormed) :
    t.document.HasFate t.fate := by
  rw [isFormed, and_eq_true] at h
  have hoperator : (Document.object .detuningOperator
      [("target_atoms", targetsDocument t.targets)]).HasFate (.all [Targets.fate t.targets]) :=
    hasFate_object rfl rfl (.cons (Targets.hasFate_document h.1) .nil)
  have hterm : t.document.HasFate (.all [.all [Targets.fate t.targets], t.amplitude.fate]) :=
    hasFate_object rfl rfl (.cons hoperator (.cons (CompiledWaveform.hasFate_document h.2) .nil))
  simpa [fate] using hterm

end DetuningTerm

namespace RabiTerm

def isFormed (t : RabiTerm Quantity) : Bool :=
  Targets.isFormed t.targets && t.amplitude.isFormed && t.phase.all CompiledWaveform.isFormed

def fate (t : RabiTerm Quantity) : Fate :=
  (Targets.fate t.targets).and
    (t.amplitude.fate.and ((t.phase.map CompiledWaveform.fate).getD .unchanged))

theorem hasFate_document {t : RabiTerm Quantity} (h : t.isFormed) :
    t.document.HasFate t.fate := by
  rw [isFormed, and_eq_true, and_eq_true] at h
  obtain ⟨⟨htargets, hamplitude⟩, hphase⟩ := h
  have hoperator (i : Int) : (Document.object .rabiOperator
      [("operator_type", .int i), ("target_atoms", targetsDocument t.targets)]).HasFate
        (.all [.unchanged, Targets.fate t.targets]) :=
    hasFate_object rfl rfl (.cons (hasFate_int i) (.cons (Targets.hasFate_document htargets) .nil))
  have hphase : ((t.phase.map CompiledWaveform.document).getD .null).HasFate
      ((t.phase.map CompiledWaveform.fate).getD .unchanged) := by
    cases hw : t.phase with
    | none => exact hasFate_null
    | some w =>
      rw [hw] at hphase
      exact CompiledWaveform.hasFate_document hphase
  have hterm : t.document.HasFate (.all [.all [.unchanged, Targets.fate t.targets],
      t.amplitude.fate, (t.phase.map CompiledWaveform.fate).getD .unchanged]) :=
    hasFate_object rfl rfl (.cons (hoperator _)
      (.cons (CompiledWaveform.hasFate_document hamplitude) (.cons hphase .nil)))
  simpa [fate] using hterm

end RabiTerm

namespace AtomRegister

variable (r : AtomRegister Quantity)

def isFormed : Bool :=
  (r.sites.all fun s => (Param.number s.1).isFormed && (Param.number s.2).isFormed) &&
    (Param.number r.radius).isFormed

/-- Every site is read as a list of its coordinates. -/
def fate : Fate :=
  (Fate.all (r.sites.map fun s => ((Param.number s.1).fate.and (Param.number s.2).fate).lost)).and
    (Param.number r.radius).fate

theorem exists_document : ∃ c, Document.isPlainClass c ∧
    Document.partsOf c = [] ∧ r.document = .object .register [("atom_type", .object c []),
      ("sites", .list (r.sites.map fun s => .tuple [s.1.document, s.2.document])),
      ("blockade_radius", r.radius.document)] := by
  obtain ⟨kind, sites, radius⟩ := r
  cases kind with
  | twoLevel => exact ⟨.twoLevels, rfl, rfl, rfl⟩
  | threeLevel => exact ⟨.threeLevels, rfl, rfl, rfl⟩

theorem hasFate_document {r : AtomRegister Quantity} (h : r.isFormed) :
    r.document.HasFate r.fate := by
  rw [isFormed, and_eq_true, all_eq_true] at h
  obtain ⟨c, hc, hparts, hdocument⟩ := r.exists_document
  have hkind : (Document.object c []).HasFate (.all []) :=
    hasFate_object hc (by rw [hparts]; rfl) .nil
  have hsite : ∀ s ∈ r.sites, (Document.tuple [s.1.document, s.2.document]).HasFate
      ((Param.number s.1).fate.and (Param.number s.2).fate).lost := by
    intro s hs
    obtain ⟨hx, hy⟩ := and_eq_true_iff.mp (h.1 s hs)
    have htuple := hasFate_tuple
      (.cons (Param.hasFate_document hx) (.cons (Param.hasFate_document hy) .nil))
    rwa [Fate.all_cons, Fate.all_cons, Fate.all_nil, and_unchanged] at htuple
  have hfate : r.fate = .all [.all [],
      .all (r.sites.map fun s => ((Param.number s.1).fate.and (Param.number s.2).fate).lost),
      (Param.number r.radius).fate] := by
    simp [fate]
  rw [hdocument, hfate]
  exact hasFate_object rfl rfl (.cons hkind (.cons (hasFate_list (forall₂_hasFate hsite))
      (.cons (Param.hasFate_document h.2) .nil)))

end AtomRegister

namespace DriveTerms

def isFormed (d : DriveTerms Quantity) : Bool :=
  d.detuning.all DetuningTerm.isFormed && d.rabi.all RabiTerm.isFormed

def fate (d : DriveTerms Quantity) : Fate :=
  (Fate.all (d.detuning.map DetuningTerm.fate)).and (.all (d.rabi.map RabiTerm.fate))

theorem hasFate_document {d : DriveTerms Quantity} (h : d.isFormed) :
    (Document.object .fields [("detuning", .list (d.detuning.map DetuningTerm.document)),
      ("rabi", .list (d.rabi.map RabiTerm.document))]).HasFate d.fate := by
  rw [isFormed, and_eq_true, all_eq_true, all_eq_true] at h
  have hdetuning := hasFate_list (forall₂_hasFate fun t ht =>
    DetuningTerm.hasFate_document (h.1 t ht))
  have hrabi := hasFate_list (forall₂_hasFate fun t ht =>
    RabiTerm.hasFate_document (h.2 t ht))
  have hfate : d.fate =
      .all [.all (d.detuning.map DetuningTerm.fate), .all (d.rabi.map RabiTerm.fate)] := by
    simp [fate]
  rw [hfate]
  exact hasFate_object rfl rfl (.cons hdetuning (.cons hrabi .nil))

end DriveTerms

theorem Coupling.key_injective : Function.Injective key := by
  intro c c' h
  cases c <;> cases c' <;> simp_all [key]

namespace EmulatorProgram

/-- Does no coupling occur twice, and is each part as the operations build it? -/
def isFormed (p : EmulatorProgram Quantity) : Bool :=
  p.register.isFormed && decide (p.pulses.map Prod.fst).Nodup &&
    p.pulses.all fun d => d.2.isFormed

def fate (p : EmulatorProgram Quantity) : Fate :=
  p.register.fate.and ((Param.number (.binary p.duration.toFloat)).fate.and
    (.all (p.pulses.map fun d => d.2.fate)))

variable {p : EmulatorProgram Quantity}

theorem hasFate_document (h : p.isFormed) : p.document.HasFate p.fate := by
  rw [isFormed, and_eq_true, and_eq_true, decide_eq_true_eq, all_eq_true] at h
  obtain ⟨⟨hregister, hcouplings⟩, hterms⟩ := h
  have hduration := Param.hasFate_document (p := .number (.binary p.duration.toFloat)) rfl
  have hkeys := Json.keysTidy_map hcouplings Coupling.key_injective fun c => by cases c <;> rfl
  rw [map_map] at hkeys
  have hpulses := hasFate_dict (fun d : Coupling × DriveTerms Quantity => .coupling d.1)
    (fun d hd => DriveTerms.hasFate_document (hterms d hd)) hkeys
  have hprogram : p.document.HasFate (.all [p.register.fate,
      (Param.number (.binary p.duration.toFloat)).fate, .all (p.pulses.map fun d => d.2.fate)]) :=
    hasFate_object rfl rfl (.cons (AtomRegister.hasFate_document hregister)
      (.cons hduration (.cons hpulses .nil)))
  simpa [fate] using hprogram

theorem kept_fate_of_sites (h : p.register.sites ≠ []) : p.fate.kept = false := by
  obtain ⟨s, ss, hs⟩ := exists_cons_of_ne_nil h
  simp [fate, AtomRegister.fate, hs, Fate.and, lost]

end EmulatorProgram

end AtomArray
