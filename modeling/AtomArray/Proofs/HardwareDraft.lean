import AtomArray.Hardware.Compile
import AtomArray.Proofs.Outcome

/-!
What compiling does to a draft.

A field, the completion of a draft and the program of a completed draft have one inversion lemma
each (`exists_sets`, `completed_eq_ok`, `toProgram_eq_ok`). `Kept d d'` is what every step keeps: the
register of the draft, and that coefficients are there exactly if a drive of single sites is, as
many as the register needs (`Covered`).

A draft without a register therefore has a program that can be neither cut nor joined. So `Adds` has
only four rules, and everything that is compiled is an instance of them (`Adds.of_addSequence`).
-/

namespace AtomArray

open List Outcome PiecewiseLinear

namespace HardwareDraft

/-! ### Coefficients of sites -/

section Coefficients

variable {N : Type} {d d' : HardwareDraft N} {base cs : List (Param N)}

theorem knownSites_eq_ok {n : Nat} : d.knownSites = .ok n ↔ d.siteCount = some n := by
  unfold knownSites
  cases d.siteCount <;> simp

/-- The coefficients `cs` of the sites of a device are the coefficients `base` of a register: as
they are, or repeated for the copies of a tiling. -/
def SpreadOver (decoder : Option Decoder) (base cs : List (Param N)) : Prop :=
  match decoder with
  | none => cs = base
  | some decoder => decoder.mapping.mapM (fun s => item? base s.localIndex) = .ok cs

theorem spread_eq_ok (h : d.spread base = .ok d') :
    ∃ cs, SpreadOver d.decoder base cs ∧ d' = { d with coefficients := some cs } := by
  unfold spread at h
  cases hdecoder : d.decoder with
  | none =>
    simp only [hdecoder, return_eq_ok] at h
    exact ⟨base, rfl, hdecoder ▸ h.symm⟩
  | some decoder =>
    simp only [hdecoder, bind_eq_ok, return_eq_ok] at h
    obtain ⟨cs, hcs, rfl⟩ := h
    exact ⟨cs, hcs, hdecoder ▸ rfl⟩

/-- Coefficients are there exactly if there is a drive of single sites, and they are those of the
sites of the register. -/
structure Covered (d : HardwareDraft N) : Prop where
  paired : d.localDetuning.isSome = d.coefficients.isSome
  spread : ∀ cs, d.coefficients = some cs →
    ∃ base, d.siteCount = some base.length ∧ SpreadOver d.decoder base cs

theorem Covered.of_none (hlocal : d.localDetuning = none) (hcoefficients : d.coefficients = none) :
    d.Covered where
  paired := by rw [hlocal, hcoefficients]; rfl
  spread cs hcs := by simp [hcoefficients] at hcs

theorem Covered.none_of_siteCount (h : d.Covered) (hcount : d.siteCount = none) :
    d.localDetuning = none ∧ d.coefficients = none := by
  have hcoefficients : d.coefficients = none := by
    cases hcs : d.coefficients with
    | none => rfl
    | some cs =>
      obtain ⟨_, hbase, -⟩ := h.spread cs hcs
      simp [hcount] at hbase
  exact ⟨by simpa [hcoefficients] using h.paired, hcoefficients⟩

/-- What compiling keeps of a draft. -/
structure Kept (d d' : HardwareDraft N) : Prop where
  decoder : d'.decoder = d.decoder
  siteCount : d'.siteCount = d.siteCount
  sites : d.sites = [] → d'.sites = []
  filling : d.filling = [] → d'.filling = []
  covered : d.Covered → d'.Covered

theorem Kept.refl (d : HardwareDraft N) : d.Kept d := ⟨rfl, rfl, id, id, id⟩

theorem Kept.trans {e : HardwareDraft N} (h : d.Kept d') (h' : d'.Kept e) : d.Kept e :=
  ⟨h'.decoder.trans h.decoder, h'.siteCount.trans h.siteCount, h'.sites ∘ h.sites,
    h'.filling ∘ h.filling, h'.covered ∘ h.covered⟩

theorem Kept.blank (h : Kept {} d) :
    d.sites = [] ∧ d.filling = [] ∧ d.localDetuning = none ∧ d.coefficients = none :=
  ⟨h.sites rfl, h.filling rfl, (h.covered (.of_none rfl rfl)).none_of_siteCount h.siteCount⟩

end Coefficients

variable {N : Type} [Arith N] {env : Env N} {shots : Int} {d d' own : HardwareDraft N}
  {p : HardwareProgram N} {f : Field N} {m : Modulation N}

/-! ### Modulations -/

/-- The coefficients that a modulation has on a register of `n` sites. -/
def Weighs (env : Env N) (n : Nat) : Modulation N → List (Param N) → Prop
  | .uniform, cs => cs = replicate n (.number (Arith.ofDecimal (.finite false 10 (-1))))
  | .scaled scales, cs =>
    (∀ s ∈ scales, s.1 < n) ∧ (range n).mapM (fun (i : Nat) =>
      (((scales.lookup (i : Int)).getD unscaled).eval env).map Param.number) = .ok cs
  | .vector name, cs => ∃ v, env.lookup name = some v ∧ vectorItems v = .ok cs ∧ cs.length = n
  | .boundVector _ values, cs => values.length = n ∧ cs = values.map Param.number

theorem Weighs.length {n : Nat} {cs : List (Param N)} (h : Weighs env n m cs) : cs.length = n := by
  cases m with
  | uniform =>
    obtain rfl := h
    exact length_replicate
  | scaled scales => simpa using (mapM_eq_ok_iff.mp h.2).length_eq.symm
  | vector name =>
    obtain ⟨_, -, -, hlength⟩ := h
    exact hlength
  | boundVector name values =>
    obtain ⟨rfl, rfl⟩ := h
    exact length_map _

/-- The coefficients of a modulation are spread over the sites of the device. -/
theorem addModulation_eq_ok (h : addModulation env d m = .ok d') :
    ∃ n base cs, d.siteCount = some n ∧ Weighs env n m base ∧ SpreadOver d.decoder base cs ∧
      d' = { d with coefficients := some cs } := by
  suffices h : ∃ n base, d.siteCount = some n ∧ Weighs env n m base ∧ d.spread base = .ok d' by
    obtain ⟨n, base, hn, hbase, hspread⟩ := h
    obtain ⟨cs, hcs, hd'⟩ := spread_eq_ok hspread
    exact ⟨n, base, cs, hn, hbase, hcs, hd'⟩
  cases m with
  | uniform =>
    obtain ⟨n, hn, h⟩ := bind_eq_ok.mp h
    exact ⟨n, _, knownSites_eq_ok.mp hn, rfl, h⟩
  | scaled scales =>
    obtain ⟨n, hn, h⟩ := bind_eq_ok.mp h
    cases hfind : scales.find? fun s => decide ((n : Int) ≤ s.1) with
    | some s => simp [hfind] at h
    | none =>
      simp only [hfind, bind_eq_ok] at h
      obtain ⟨cs, hcs, h⟩ := h
      refine ⟨n, cs, knownSites_eq_ok.mp hn, ⟨fun s hs => ?_, hcs⟩, h⟩
      simpa using find?_eq_none.mp hfind s hs
  | vector name =>
    cases hv : env.lookup name with
    | none => simp [addModulation, hv] at h
    | some v =>
      simp only [addModulation, hv, bind_eq_ok] at h
      obtain ⟨cs, hcs, n, hn, h⟩ := h
      by_cases hlength : cs.length = n
      · rw [if_neg (not_not.mpr hlength)] at h
        exact ⟨n, cs, knownSites_eq_ok.mp hn, ⟨v, hv, hcs, hlength⟩, h⟩
      · simp [hlength] at h
  | boundVector name values =>
    obtain ⟨n, hn, h⟩ := bind_eq_ok.mp h
    by_cases hlength : values.length = n
    · rw [if_neg (not_not.mpr hlength)] at h
      exact ⟨n, _, knownSites_eq_ok.mp hn, ⟨hlength, rfl⟩, h⟩
    · simp [hlength] at h

/-! ### Fields -/

/-- What a field does to any draft: it sets an amplitude, a phase, a detuning of all atoms, or a
detuning by coefficients next to one of all atoms, which may be zero. -/
inductive Sets (env : Env N) :
    FieldName × Field N → (HardwareDraft N → Outcome (HardwareDraft N)) → Prop where
  | amplitude {f : Field N} {w : Waveform N} {q : PiecewiseLinear N} :
      ofWaveform env w = .ok q →
      Sets env (.amplitude, f) fun d => .ok { d with amplitude := some q }
  | phase {f : Field N} {w : Waveform N} {q : PiecewiseConstant N} :
      PiecewiseConstant.ofWaveform env w = .ok q →
      Sets env (.phase, f) fun d => .ok { d with phase := some q }
  | detuning {f : Field N} {w : Waveform N} {all : PiecewiseLinear N} :
      f.drives = [(.uniform, w)] → ofWaveform env w = .ok all →
      Sets env (.detuning, f) fun d => .ok { d with detuning := some all }
  | sites {f : Field N} {m : Modulation N} {v : Waveform N} {all own : PiecewiseLinear N} :
      ofWaveform env v = .ok own →
      ((f.drives = [(m, v)] ∧ ∃ stop, lastItem? own.times = .ok stop ∧ all = zeroLinear stop) ∨
        ∃ w, ofWaveform env w = .ok all ∧
          (f.drives = [(.uniform, w), (m, v)] ∨ f.drives = [(m, v), (.uniform, w)])) →
      Sets env (.detuning, f) fun d =>
        addModulation env { d with detuning := some all, localDetuning := some own } m

variable {x : FieldName × Field N}

/-- A field whose series can be made does the same to all drafts. -/
theorem exists_sets (h : addField env d x = .ok d') :
    ∃ step, Sets env x step ∧ ∀ own, addField env own x = step own := by
  obtain ⟨name, f⟩ := x
  cases name with
  | amplitude | phase =>
    simp only [addField, addAmplitude, addPhase] at h ⊢
    cases hf : soleUniform? f with
    | none => simp [hf] at h
    | some w =>
      simp only [hf, bind_eq_ok] at h ⊢
      obtain ⟨q, hq, -⟩ := h
      exact ⟨_, by constructor; exact hq, fun own => by rw [hq]; rfl⟩
  | detuning =>
    change addDetuning env d f = .ok d' at h
    change ∃ step, Sets env (.detuning, f) step ∧ ∀ own, addDetuning env own f = step own
    unfold addDetuning at h ⊢
    split at h
    · rename_i w hdrives
      obtain ⟨all, hall, -⟩ := bind_eq_ok.mp h
      exact ⟨_, .detuning hdrives hall, fun own => by simp_all⟩
    · rename_i m v _ hdrives
      obtain ⟨own, stop, hown, hstop, -⟩ := bind₂_eq_ok.mp h
      exact ⟨_, .sites hown (.inl ⟨hdrives, stop, hstop, rfl⟩), fun own => by simp_all⟩
    · rename_i w m v hdrives
      obtain ⟨all, own, hall, hown, -⟩ := bind₂_eq_ok.mp h
      exact ⟨_, .sites hown (.inr ⟨w, hall, .inl hdrives⟩), fun own => by simp_all⟩
    · rename_i m v w _ hdrives
      obtain ⟨own, all, hown, hall, -⟩ := bind₂_eq_ok.mp h
      exact ⟨_, .sites hown (.inr ⟨w, hall, .inr hdrives⟩), fun own => by simp_all⟩
    · cases h

theorem addField_eq_ok (hx : x.1 ≠ .detuning) (h : addField env d x = .ok d') :
    ∃ amplitude phase, d' = { d with amplitude := amplitude, phase := phase } := by
  obtain ⟨step, hsets, hstep⟩ := exists_sets h
  rw [hstep] at h
  cases hsets with
  | amplitude | phase => exact ⟨_, _, (Except.ok.inj h).symm⟩
  | detuning | sites => exact absurd rfl hx

theorem addField_kept (h : addField env d x = .ok d') : d.Kept d' := by
  obtain ⟨step, hsets, hstep⟩ := exists_sets h
  rw [hstep] at h
  cases hsets with
  | sites =>
    obtain ⟨n, base, cs, hn, hbase, hcs, rfl⟩ := addModulation_eq_ok h
    refine ⟨rfl, rfl, id, id, fun _ => ⟨rfl, fun cs' hcs' => ?_⟩⟩
    obtain rfl := Option.some.inj hcs'
    exact ⟨base, by rw [hbase.length]; exact hn, hcs⟩
  | _ =>
    cases h
    exact ⟨rfl, rfl, id, id, fun hd => ⟨hd.paired, hd.spread⟩⟩

theorem addFields_kept {fs : List (FieldName × Field N)}
    (h : fs.foldlM (addField env) d = .ok d') : d.Kept d' :=
  foldlM_keeps (fun _ _ _ _ hd hnext => hd.trans (addField_kept hnext)) (.refl d) h

/-! ### Completed drafts -/

/-- Completing a draft at most sets drives of all atoms that are missing. -/
theorem completed_eq_ok (h : d.completed = .ok d') : d' = d ∨ ∃ t amplitude phase, d' = { d with
      amplitude := amplitude
      phase := phase
      detuning := some (d.detuning.getD (zeroLinear t)) } := by
  simp only [completed, bind_eq_ok] at h
  obtain ⟨_, -, _, -, _, -, t, -, driven, -, h⟩ := h
  cases driven with
  | false => exact .inl (by simpa using h.symm)
  | true => exact .inr ⟨t, _, _, by simpa using h.symm⟩

theorem completed_kept (h : d.completed = .ok d') : d.Kept d' := by
  rcases completed_eq_ok h with rfl | ⟨_, _, _, rfl⟩
  · exact .refl _
  · exact ⟨rfl, rfl, id, id, fun hd => ⟨hd.paired, hd.spread⟩⟩

/-- A program has the register and the drives of a draft, with all numbers as they are stored. -/
structure Emits (d : HardwareDraft N) (p : HardwareProgram N) : Prop where
  decoder : p.decoder = d.decoder
  sites : d.sites.mapM (fun q => do return (← Arith.stored q.1, ← Arith.stored q.2)) = .ok p.sites
  filling : p.filling = d.filling
  detuning : d.detuning = some p.detuning
  localDetuning : p.localDetuning = d.localDetuning
  coefficients : Option.Rel (fun cs xs => cs.mapM Param.stored? = .ok xs) d.coefficients
    p.coefficients

theorem Emits.isSome_coefficients (h : d.Emits p) :
    p.coefficients.isSome = d.coefficients.isSome := by
  have hrel := h.coefficients
  revert hrel
  cases d.coefficients <;> cases p.coefficients <;> rintro ⟨⟩ <;> rfl

theorem Emits.exists_coefficients {xs : List N} (h : d.Emits p) (hxs : p.coefficients = some xs) :
    ∃ cs, d.coefficients = some cs ∧ cs.mapM Param.stored? = .ok xs := by
  have hrel := h.coefficients
  rw [hxs] at hrel
  cases hcs : d.coefficients with
  | none =>
    rw [hcs] at hrel
    cases hrel
  | some cs =>
    rw [hcs] at hrel
    cases hrel with
    | some hstored => exact ⟨cs, rfl, hstored⟩

theorem toProgram_eq_ok (h : d.toProgram shots = .ok p) :
    d.Emits p ∧ p.shots = shots ∧ d.amplitude = some p.amplitude ∧ d.phase = some p.phase := by
  unfold toProgram at h
  cases hidle : d.isIdle with
  | true => simp [hidle] at h
  | false =>
    rw [hidle, if_neg Bool.false_ne_true] at h
    split at h
    · rename_i detuning amplitude phase hdetuning hamplitude hphase
      obtain ⟨sites, hsites, h⟩ := bind_eq_ok.mp h
      cases hcs : d.coefficients with
      | none =>
        simp only [hcs, pure_eq_ok, ok_bind, Except.ok.injEq] at h
        obtain rfl := h
        exact ⟨⟨rfl, hsites, rfl, hdetuning, rfl, hcs ▸ .none⟩, rfl, hamplitude, hphase⟩
      | some cs =>
        simp only [hcs, bind_eq_ok, return_eq_ok] at h
        obtain ⟨_, hmap, rfl⟩ := h
        cases hxs : cs.mapM Param.stored? with
        | error e => simp [hxs, Except.map] at hmap
        | ok xs =>
          obtain rfl : some xs = _ := by simpa [hxs, Except.map] using hmap
          exact ⟨⟨rfl, hsites, rfl, hdetuning, rfl, hcs ▸ .some hxs⟩, rfl, hamplitude, hphase⟩
    · cases h

theorem emit_eq_ok_iff :
    d.emit shots = .ok (d', p) ↔ d.completed = .ok d' ∧ d'.toProgram shots = .ok p := by
  simp only [emit, bind_eq_ok, return_eq_ok, Prod.mk.injEq]
  grind

theorem emit_eq_ok (h : d.emit shots = .ok (d', p)) : d.completed = .ok d' ∧ d'.Emits p :=
  (emit_eq_ok_iff.mp h).imp_right fun hp => (toProgram_eq_ok hp).1

/-- A program of a draft that grew from nothing says nothing about single sites. -/
structure Siteless (p : HardwareProgram N) : Prop where
  sites : p.sites = []
  filling : p.filling = []
  localDetuning : p.localDetuning = none
  coefficients : p.coefficients = none

theorem emit_siteless (hown : Kept {} own) (h : own.emit shots = .ok (d, p)) : Siteless p := by
  obtain ⟨hd, hp⟩ := emit_eq_ok h
  obtain ⟨hsites, hfilling, hlocal, hcoefficients⟩ := (hown.trans (completed_kept hd)).blank
  refine ⟨?_, hp.filling.trans hfilling, hp.localDetuning.trans hlocal, ?_⟩
  · simpa [hsites] using hp.sites.symm
  · simpa [hcoefficients] using hp.isSome_coefficients

theorem Siteless.slice_ne_ok {q : HardwareProgram N} {start stop : N} (hp : Siteless p) :
    p.slice start stop ≠ .ok q := by
  intro h
  simp only [HardwareProgram.slice, hp.localDetuning, presentSeries, bind_eq_ok, error_bind] at h
  obtain ⟨_, -, _, -, _, -, h⟩ := h
  simp at h

theorem Siteless.append_ne_ok {q r : HardwareProgram N} (hp : Siteless p) : p.append q ≠ .ok r := by
  intro h
  simp [HardwareProgram.append, hp.localDetuning, presentSeries, bind_eq_ok] at h

omit [Arith N] in
theorem adopt_kept (hp : Siteless p) : d.Kept (d.adopt p) :=
  ⟨rfl, rfl, fun _ => hp.sites, fun _ => hp.filling, fun _ =>
    .of_none hp.localDetuning (by simp [adopt, hp.coefficients])⟩

/-! ### Pulses and sequences -/

/-- A pulse comes down to the given fields. -/
inductive PlainPulse : Pulse N → List (FieldName × Field N) → Prop where
  | fields (fs : List (FieldName × Field N)) : PlainPulse (.fields fs) fs
  | named {fs : List (FieldName × Field N)} {p : Pulse N} (name : String) :
      PlainPulse p fs → PlainPulse (.named name p) fs

/-- Only plain pulses are compiled: one that is cut has been compiled without a register. -/
theorem exists_plainPulse {d d' : HardwareDraft N} :
    ∀ {p : Pulse N}, addPulse env shots d p = .ok d' →
      ∃ fs, PlainPulse p fs ∧ fs.foldlM (addField env) d = .ok d'
  | .fields fs, h => ⟨fs, .fields fs, by rwa [addPulse] at h⟩
  | .named name p, h => by
    obtain ⟨fs, hp, hfs⟩ := exists_plainPulse (p := p) (by rwa [addPulse] at h)
    exact ⟨fs, .named name hp, hfs⟩
  | .append ps, h => by
    rw [addPulse] at h
    cases h
  | .slice p i, h => by
    simp only [addPulse, bind_eq_ok] at h
    obtain ⟨_, -, _, -, own, hown, ⟨_, program⟩, hemit, q, hq, -⟩ := h
    obtain ⟨fs, -, hfs⟩ := exists_plainPulse hown
    exact absurd hq (emit_siteless (addFields_kept hfs) hemit).slice_ne_ok

/-- What compiling a sequence adds to a draft. -/
inductive Adds (env : Env N) (shots : Int) :
    HardwareDraft N → Sequence N → HardwareDraft N → Prop where
  | pulses {d d' : HardwareDraft N} {ps : List (Coupling × Pulse N)} {x : Coupling × Pulse N}
      {fs : List (FieldName × Field N)} : ps.find? (fun y => y.1 = .rydberg) = some x →
      PlainPulse x.2 fs → fs.foldlM (addField env) d = .ok d' → Adds env shots d (.pulses ps) d'
  | silent {d : HardwareDraft N} {ps : List (Coupling × Pulse N)} :
      ps.find? (fun y => y.1 = .rydberg) = none → Adds env shots d (.pulses ps) d
  | named {d d' : HardwareDraft N} {s : Sequence N} (name : String) :
      Adds env shots d s d' → Adds env shots d (.named s name) d'
  | lone {d own own' : HardwareDraft N} {s : Sequence N} {p : HardwareProgram N} :
      Adds env shots {} s own → own.emit shots = .ok (own', p) →
      Adds env shots d (.append [s]) (d.adopt p)

namespace Adds

variable {s : Sequence N}

theorem kept (h : Adds env shots d s d') : d.Kept d' := by
  induction h with
  | pulses _ _ hfs => exact addFields_kept hfs
  | silent => exact .refl _
  | named _ _ ih => exact ih
  | lone _ hemit ih => exact adopt_kept (emit_siteless ih hemit)

/-- Pieces after the first are not joined: the first has been compiled without a register. -/
theorem of_addSequence {d d' : HardwareDraft N} :
    ∀ {s : Sequence N}, addSequence env shots d s = .ok d' → Adds env shots d s d'
  | .pulses ps, h => by
    simp only [addSequence, addPulses] at h
    split at h
    · cases h
    · cases hfind : ps.find? fun y => y.1 = .rydberg with
      | none =>
        obtain rfl : d = d' := by simpa [hfind] using h
        exact .silent hfind
      | some x =>
        obtain ⟨fs, hp, hfs⟩ := exists_plainPulse (p := x.2) (by simpa [hfind] using h)
        exact .pulses hfind hp hfs
  | .named s name, h => .named name (of_addSequence (by rwa [addSequence] at h))
  | .append [], h => by
    rw [addSequence] at h
    cases h
  | .append (s :: ss), h => by
    simp only [addSequence, bind_eq_ok, return_eq_ok] at h
    obtain ⟨own, hown, ⟨own', p⟩, hemit, q, hq, rfl⟩ := h
    have hadds := of_addSequence hown
    cases ss with
    | nil =>
      rw [appendAll] at hq
      cases hq
      exact .lone hadds hemit
    | cons s' ss =>
      simp only [appendAll, bind_eq_ok] at hq
      obtain ⟨_, -, _, -, _, hjoined, -⟩ := hq
      exact absurd hjoined (emit_siteless hadds.kept hemit).append_ne_ok
  | .slice s i, h => by
    simp only [addSequence, bind_eq_ok] at h
    obtain ⟨_, -, _, -, own, hown, ⟨_, p⟩, hemit, _, hq, -⟩ := h
    exact absurd hq (emit_siteless (of_addSequence hown).kept hemit).slice_ne_ok

end Adds

end HardwareDraft

end AtomArray
