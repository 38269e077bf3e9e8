import AtomArray.Proofs.HardwareDraft

/-!
How long the drives of a draft last.

A draft is completed by comparing the ends of its series one after the other (`completed_eq`). The
series are stored, so that their times are decimals (`Dated`), which can be compared unless one of
them is not a number. So the ends of a draft that was completed can be compared again
(`Dated.of_completed`).
-/

namespace AtomArray

open List Outcome PiecewiseLinear Except

/-! ### Comparing times -/

namespace Decimal

theorem exists_lt_iff {a b : Decimal} :
    (∃ c, lt a b = .ok c) ↔ a.isNaN = false ∧ b.isNaN = false := by
  cases a <;> cases b <;> simp [lt, compare?, isNaN]

end Decimal

namespace Quantity

/-- A decimal that can be compared. -/
def IsTime (q : Quantity) : Prop := ∃ d : Decimal, q = .decimal d ∧ d.isNaN = false

theorem isTime_zero : IsTime Arith.zero := ⟨Decimal.zero, rfl, rfl⟩

theorem lt_decimal (a b : Decimal) : Arith.lt (decimal a) (decimal b) = ofDecimal (a.lt b) := rfl

variable {a : Quantity} {b : Quantity}

theorem IsTime.exists_lt (ha : a.IsTime) (hb : b.IsTime) : ∃ c, Arith.lt a b = .ok c := by
  obtain ⟨x, rfl, hx⟩ := ha
  obtain ⟨y, rfl, hy⟩ := hb
  obtain ⟨c, hc⟩ := Decimal.exists_lt_iff.mpr ⟨hx, hy⟩
  exact ⟨c, by rw [lt_decimal, hc]; rfl⟩

theorem IsTime.of_lt {y : Decimal} {c : Bool} (ha : a.IsTime)
    (h : Arith.lt a (decimal y) = .ok c) : IsTime (decimal y) := by
  obtain ⟨x, rfl, -⟩ := ha
  rw [lt_decimal] at h
  cases hc : x.lt y with
  | error trap => simp [hc, ofDecimal] at h
  | ok c => exact ⟨y, rfl, (Decimal.exists_lt_iff.mp ⟨c, hc⟩).2⟩

theorem exists_decimal_of_stored (h : Arith.stored a = .ok b) : ∃ d, b = .decimal d := by
  cases a with
  | decimal d => exact ⟨d, (ok.inj h).symm⟩
  | binary x =>
    simp only [Arith.stored] at h
    split at h
    · exact ⟨_, (ok.inj h).symm⟩
    · cases h

end Quantity

theorem mem_of_lastItem? {α : Type} {xs : List α} {x : α} (h : lastItem? xs = .ok x) : x ∈ xs := by
  unfold lastItem? at h
  split at h
  · rename_i hlast
    cases h
    exact mem_of_getLast? hlast
  · cases h

namespace HardwareDraft

/-! ### Ends of series -/

/-- The times of a series, if there is one, are decimals. -/
def IsDated : Option (List Quantity) → Prop
  | none => True
  | some ts => ∀ t ∈ ts, ∃ x, t = .decimal x

/-- A series, if there is one, has an end that can be compared. -/
def IsEnding : Option (List Quantity) → Prop
  | none => True
  | some ts => ∃ t, lastItem? ts = .ok t ∧ t.IsTime

theorem isDated_of_stored {xs ts : List Quantity} (h : xs.mapM Arith.stored = .ok ts) :
    IsDated (some ts) := by
  intro t ht
  obtain ⟨x, -, hx⟩ := exists_of_mem_forall₂ (mapM_eq_ok_iff.mp h).flip ht
  exact Quantity.exists_decimal_of_stored hx

variable {env : Env Quantity}

theorem isDated_ofWaveform {k : SeriesRules Quantity} {w : Waveform Quantity}
    {p : Series Quantity} (h : k.ofWaveform env w = .ok p) : IsDated (some p.times) := by
  simp only [SeriesRules.ofWaveform, ofCollected, Series.stored, bind_eq_ok, return_eq_ok] at h
  obtain ⟨_, -, ts, hts, _, -, rfl⟩ := h
  exact isDated_of_stored hts

section LaterEnd

variable {t t' : Quantity} {span : Option (List Quantity)} {spans : List (Option (List Quantity))}

theorem laterEnd_eq_ok (ht : t.IsTime) (hspan : IsDated span) (h : laterEnd t span = .ok t') :
    t'.IsTime ∧ IsEnding span := by
  cases span with
  | none =>
    cases h
    exact ⟨ht, trivial⟩
  | some ts =>
    simp only [laterEnd, bind_eq_ok, return_eq_ok] at h
    obtain ⟨stop, hstop, later, hlater, rfl⟩ := h
    obtain ⟨x, rfl⟩ := hspan stop (mem_of_lastItem? hstop)
    have htime := ht.of_lt hlater
    refine ⟨?_, _, hstop, htime⟩
    cases later
    · exact ht
    · exact htime

theorem exists_laterEnd (ht : t.IsTime) (hspan : IsEnding span) :
    ∃ t', laterEnd t span = .ok t' ∧ t'.IsTime := by
  cases span with
  | none => exact ⟨t, rfl, ht⟩
  | some ts =>
    obtain ⟨stop, hstop, htime⟩ := hspan
    obtain ⟨later, hlater⟩ := ht.exists_lt htime
    refine ⟨if later then stop else t, ?_, ?_⟩
    · simp [laterEnd, hstop, hlater]
    · cases later
      · exact ht
      · exact htime

theorem foldlM_laterEnd_eq_ok (ht : t.IsTime) (hspans : ∀ span ∈ spans, IsDated span)
    (h : spans.foldlM laterEnd t = .ok t') : t'.IsTime ∧ ∀ span ∈ spans, IsEnding span := by
  induction spans generalizing t with
  | nil =>
    cases h
    exact ⟨ht, by simp⟩
  | cons span spans ih =>
    rw [foldlM_cons] at h
    obtain ⟨next, hnext, h⟩ := bind_eq_ok.mp h
    obtain ⟨hspan, hspans⟩ := forall_mem_cons.mp hspans
    obtain ⟨htime, hend⟩ := laterEnd_eq_ok ht hspan hnext
    obtain ⟨htime', hends⟩ := ih htime hspans h
    exact ⟨htime', forall_mem_cons.mpr ⟨hend, hends⟩⟩

theorem exists_foldlM_laterEnd (ht : t.IsTime) (hspans : ∀ span ∈ spans, IsEnding span) :
    ∃ t', spans.foldlM laterEnd t = .ok t' ∧ t'.IsTime := by
  induction spans generalizing t with
  | nil => exact ⟨t, rfl, ht⟩
  | cons span spans ih =>
    obtain ⟨hspan, hspans⟩ := forall_mem_cons.mp hspans
    obtain ⟨next, hnext, htime⟩ := exists_laterEnd ht hspan
    obtain ⟨t', ht', htime'⟩ := ih htime hspans
    exact ⟨t', by rw [foldlM_cons, hnext, ok_bind, ht'], htime'⟩

end LaterEnd

variable {N : Type}

/-- The times of the series of a draft, in the order in which their ends are compared. -/
def spans (d : HardwareDraft N) : List (Option (List N)) :=
  [d.amplitude.map (·.times), d.phase.map (·.times), d.detuning.map (·.times),
    d.localDetuning.map (·.times)]

theorem completed_eq [Arith N] (d : HardwareDraft N) :
    d.completed = d.spans.foldlM laterEnd Arith.zero >>= fun t =>
      Arith.lt Arith.zero t >>= fun driven =>
        .ok (if driven then { d with
          amplitude := some (d.amplitude.getD (zeroLinear t))
          phase := some (d.phase.getD (zeroConstant t))
          detuning := some (d.detuning.getD (zeroLinear t)) } else d) := by
  simp only [completed, spans, foldlM_cons, foldlM_nil, bind_assoc, pure_bind]
  refine bind_congr fun _ => bind_congr fun _ => bind_congr fun _ => bind_congr fun _ =>
    bind_congr fun driven => ?_
  cases driven <;> rfl

/-! ### Series of the fields -/

section Dated

variable {env : Env Quantity} {shots : Int} {d d' : HardwareDraft Quantity}
  {p : HardwareProgram Quantity}

/-- All times of a draft are decimals. -/
def Dated (d : HardwareDraft Quantity) : Prop := ∀ span ∈ d.spans, IsDated span

theorem dated_iff : d.Dated ↔
    IsDated (d.amplitude.map (·.times)) ∧ IsDated (d.phase.map (·.times)) ∧
      IsDated (d.detuning.map (·.times)) ∧ IsDated (d.localDetuning.map (·.times)) := by
  simp [Dated, spans]

theorem isDated_zero {t : Quantity} (ht : ∃ x, t = .decimal x) :
    IsDated (some [Arith.zero, t]) := by
  intro u hu
  rcases mem_pair.mp hu with rfl | rfl
  · exact ⟨_, rfl⟩
  · exact ht

theorem Dated.of_addField {x : FieldName × Field Quantity} (hd : d.Dated)
    (h : addField env d x = .ok d') : d'.Dated := by
  obtain ⟨hamplitude, hphase, hdetuning, hlocal⟩ := dated_iff.mp hd
  obtain ⟨step, hsets, hstep⟩ := exists_sets h
  rw [hstep] at h
  cases hsets with
  | amplitude hq =>
    cases h
    exact dated_iff.mpr ⟨isDated_ofWaveform hq, hphase, hdetuning, hlocal⟩
  | phase hq =>
    cases h
    exact dated_iff.mpr ⟨hamplitude, isDated_ofWaveform hq, hdetuning, hlocal⟩
  | detuning _ hall =>
    cases h
    exact dated_iff.mpr ⟨hamplitude, hphase, isDated_ofWaveform hall, hlocal⟩
  | sites hown hall =>
    obtain ⟨_, _, _, -, -, -, rfl⟩ := addModulation_eq_ok h
    refine dated_iff.mpr ⟨hamplitude, hphase, ?_, isDated_ofWaveform hown⟩
    rcases hall with ⟨-, stop, hstop, rfl⟩ | ⟨w, hall, -⟩
    · exact isDated_zero (isDated_ofWaveform hown stop (mem_of_lastItem? hstop))
    · exact isDated_ofWaveform hall

theorem Dated.of_addFields {fs : List (FieldName × Field Quantity)} (hd : d.Dated)
    (h : fs.foldlM (addField env) d = .ok d') : d'.Dated :=
  foldlM_keeps (fun _ _ _ _ hd hnext => hd.of_addField hnext) hd h

omit env shots d d' p in
theorem getD_span {P : Option (List Quantity) → Prop} {series : Option (Series Quantity)}
    {idle : Series Quantity} (hseries : P (series.map Series.times))
    (hidle : P (some idle.times)) : P (some (series.getD idle).times) := by
  cases series with
  | none => exact hidle
  | some _ => exact hseries

/-- A draft whose times are decimals has only series with ends that can be compared, or it is not
completed. -/
theorem Dated.of_completed (hd : d.Dated) (h : d.completed = .ok d') :
    d'.Dated ∧ ∀ span ∈ d'.spans, IsEnding span := by
  rw [completed_eq] at h
  obtain ⟨t, driven, ht, -, h⟩ := bind₂_eq_ok.mp h
  cases h
  obtain ⟨htime, hends⟩ := foldlM_laterEnd_eq_ok Quantity.isTime_zero hd ht
  cases driven with
  | false => exact ⟨hd, hends⟩
  | true =>
    have hdated : IsDated (some [Arith.zero, t]) := isDated_zero ⟨_, htime.choose_spec.1⟩
    have hending : IsEnding (some [Arith.zero, t]) := ⟨t, rfl, htime⟩
    obtain ⟨hamplitude, hphase, hdetuning, hlocal⟩ := dated_iff.mp hd
    simp only [spans, forall_mem_cons] at hends ⊢
    obtain ⟨hamplitude', hphase', hdetuning', hlocal'⟩ := hends
    refine ⟨dated_iff.mpr ⟨?_, ?_, ?_, hlocal⟩, ?_, ?_, ?_, hlocal'⟩
    · exact getD_span hamplitude hdated
    · exact getD_span hphase hdated
    · exact getD_span hdetuning hdated
    · exact getD_span hamplitude' hending
    · exact getD_span hphase' hending
    · exact getD_span hdetuning' hending

theorem completed_of_isSome (hamplitude : d.amplitude.isSome)
    (hphase : d.phase.isSome) (hdetuning : d.detuning.isSome)
    (hends : ∀ span ∈ d.spans, IsEnding span) : d.completed = .ok d := by
  obtain ⟨amplitude, hamplitude⟩ := Option.isSome_iff_exists.mp hamplitude
  obtain ⟨phase, hphase⟩ := Option.isSome_iff_exists.mp hphase
  obtain ⟨detuning, hdetuning⟩ := Option.isSome_iff_exists.mp hdetuning
  obtain ⟨t, ht, htime⟩ := exists_foldlM_laterEnd Quantity.isTime_zero hends
  obtain ⟨driven, hdriven⟩ := Quantity.isTime_zero.exists_lt htime
  rw [completed_eq, ht, ok_bind, hdriven, ok_bind]
  cases driven with
  | false => rfl
  | true =>
    obtain ⟨⟩ := d
    simp_all

end Dated

/-! ### Programs of drafts -/

theorem spans_adopt [Arith N] {shots : Int} {d own : HardwareDraft N}
    {p : HardwareProgram N} (h : own.toProgram shots = .ok p) : (d.adopt p).spans = own.spans := by
  obtain ⟨hp, -, hamplitude, hphase⟩ := toProgram_eq_ok h
  simp [spans, adopt, hamplitude, hphase, hp.detuning, hp.localDetuning]

theorem dated_blank : Dated {} := dated_iff.mpr ⟨trivial, trivial, trivial, trivial⟩

theorem Adds.dated {shots : Int} {d d' : HardwareDraft Quantity}
    {s : Sequence Quantity} (h : Adds env shots d s d') (hd : d.Dated) : d'.Dated := by
  induction h with
  | pulses _ _ hfs => exact hd.of_addFields hfs
  | silent => exact hd
  | named _ _ ih => exact ih hd
  | lone _ hemit ih =>
    obtain ⟨hcompleted, hprogram⟩ := emit_eq_ok_iff.mp hemit
    rw [Dated, spans_adopt hprogram]
    exact ((ih dated_blank).of_completed hcompleted).1

end HardwareDraft

end AtomArray
