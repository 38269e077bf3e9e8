import AtomArray.Number.Exact
import AtomArray.Proofs.ChainSelection
import AtomArray.Proofs.Outcome
import AtomArray.Proofs.Lookup

/-!
Reading a chain drive by drive.

The reader of a chain goes over its steps once and carries what it holds from one drive to the
next. Where one waveform ends the steps can be cut (`readDrives_append`). So what further steps do is
local: those of one more drive change one field, the one that was named last
(`circuit_extend_drive`).
-/

namespace AtomArray

open List Outcome Step StepSort

variable {N : Type}

/-! ### Fields of a sequence -/

theorem lookup_setMember {κ α : Type} [DecidableEq κ] (k j : κ) (a : α) (l : List (κ × α)) :
    (setMember k a l).lookup j = if j = k then some a else l.lookup j := by
  induction l with
  | nil => rw [setMember, lookup_cons_ite]
  | cons p l ih =>
    obtain ⟨i, b⟩ := p
    rw [setMember]
    by_cases hi : i = k
    · rw [if_pos hi, lookup_cons_ite, lookup_cons_ite, hi]
      by_cases hj : j = k
      · rw [if_pos hj, if_pos hj]
      · rw [if_neg hj, if_neg hj, if_neg hj]
    · rw [if_neg hi, lookup_cons_ite, lookup_cons_ite, ih]
      by_cases hj : j = i
      · have hne : ¬j = k := fun h => hi (hj.symm.trans h)
        rw [if_pos hj, if_neg hne, if_pos hj]
      · rw [if_neg hj, if_neg hj]

namespace Sequence

def members : Sequence N → List (Coupling × Pulse N)
  | .pulses ps => ps
  | _ => []

variable (s : Sequence N)

/-- The fields that drive a transition. -/
def fieldsOf (k : Coupling) : List (FieldName × Field N) :=
  ((s.members.lookup k).map Chain.pulseFields).getD []

/-- The field of a name that drives a transition. -/
def field? (k : Coupling) (n : FieldName) : Option (Field N) :=
  (s.fieldsOf k).lookup n

def setField (k : Coupling) (n : FieldName) (f : Field N) : Sequence N :=
  .pulses (setMember k (.fields (setMember n f (s.fieldsOf k))) s.members)

theorem field?_setField (k k' : Coupling) (n n' : FieldName) (f : Field N) :
    (s.setField k n f).field? k' n' = if (k', n') = (k, n) then some f else s.field? k' n' := by
  have hmembers : (s.setField k n f).members.lookup k' =
      if k' = k then some (.fields (setMember n f (s.fieldsOf k))) else s.members.lookup k' :=
    lookup_setMember k k' _ _
  rw [field?, fieldsOf, hmembers]
  by_cases hk : k' = k
  · have hlookup : (setMember n f (s.fieldsOf k)).lookup n' =
        if n' = n then some f else (s.fieldsOf k).lookup n' := lookup_setMember n n' f _
    rw [if_pos hk, hk]
    simp only [Prod.mk.injEq, true_and]
    exact hlookup
  · have hne : (k', n') ≠ (k, n) := fun h => hk (Prod.mk.inj h).1
    rw [if_neg hk, if_neg hne]
    rfl

end Sequence

namespace Chain

/-! ### Where a waveform ends -/

/-- The steps are none, or begin with one that belongs to no waveform. -/
def EndsBefore (ys : List (Step N)) : Prop := ∀ y ∈ ys.head?, y.isWaveform = false

variable [Arith N]
variable {s : Step N} {ys rest xs ps : List (Step N)} {r : Reading N} {c : Chain N}

theorem modulation?_eq_none : modulation? s = none ↔ s.sort ≠ .modulation := by
  cases s <;> simp [modulation?, sort]

variable (name : FieldName)

theorem readWaveform_stops (w : Option (Waveform N))
    (h : EndsBefore ys) : readWaveform name w ys = .ok w := by
  cases ys with
  | nil => rw [readWaveform]
  | cons y ys =>
    have hy : y.isWaveform = false := h y rfl
    cases y with
    | linear | constant | poly | apply | piecewiseLinear | piecewiseConstant | profile | sample
    | slice | record => cases hy
    | _ => rfl

theorem readWaveform_shape (before : Option (Waveform N)) {step : Step N}
    {w : Outcome (Waveform N)} (hshape : shape? step = some w)
    (hwhole : ∀ p d dt i left, step = .profile p d → rest ≠ .sample dt i :: left) :
    readWaveform name before (step :: rest) =
      (do readWaveform name (some (← joinTo before (← w))) rest) := by
  cases step with
  | linear | constant | poly | apply | piecewiseLinear | piecewiseConstant =>
    cases hshape
    rfl
  | profile p d =>
    cases hshape
    cases rest with
    | nil => rfl
    | cons y rest =>
      cases y with
      | sample dt i => exact absurd rfl (hwhole p d dt i rest rfl)
      | _ => rfl
  | _ => cases hshape

theorem readWaveform_append (w : Option (Waveform N)) (xs : List (Step N))
    (h : EndsBefore ys) : readWaveform name w (xs ++ ys) = readWaveform name w xs := by
  fun_induction readWaveform name w xs with
  | case1 _ _ _ _ _ _ ih | case5 _ _ _ ih => simp [readWaveform, ih]
  | case2 a b rest w next hopen ih =>
    simp only [cons_append, readWaveform, hopen, if_true]
    rfl
  | case3 a b rest w next hopen ih =>
    simp only [cons_append, readWaveform, hopen, ih, next]
    rfl
  | case4 before _ _ _ hnone | case6 before _ _ hnone =>
    cases before with
    | none => rfl
    | some w => exact absurd rfl (hnone w)
  | case7 before step rest hsample hslice hrecord w hshape ih =>
    rw [cons_append, readWaveform_shape name before hshape]
    · simp only [ih]
    · intro p d dt i left hstep hrest
      cases rest with
      | nil =>
        -- a sample right after the end would belong to the waveform
        have hwave := h (.sample dt i) (by rw [← nil_append ys, hrest]; rfl)
        cases hwave
      | cons y rest =>
        cases hrest
        exact hsample p d dt i rest hstep rfl
  | case8 before step rest hsample hslice hrecord hshape =>
    cases step with
    | linear | constant | poly | apply | piecewiseLinear | piecewiseConstant | profile =>
      cases hshape
    | slice a b => exact absurd rfl (hslice a b)
    | record n => exact absurd rfl (hrecord n)
    | _ => rfl
  | case9 before => exact readWaveform_stops name before h

/-! ### Drives one after the other -/

/-- A reading that goes on with the field and the transition which the last steps name. -/
def Reading.redirect (r : Reading N) (before : List (Step N)) : Reading N :=
  { r with
    field := (address before).1 <|> r.field
    coupling := (address before).2 <|> r.coupling }

/-- A reading with a field added to one of its fields. -/
def Reading.add (r : Reading N) (k : Coupling) (n : FieldName) (f : Field N) :
    Outcome (Reading N) := do
  let sum ← (((Sequence.pulses r.sequence).field? k n).getD ⟨[]⟩).plus f
  return { r with sequence := ((Sequence.pulses r.sequence).setField k n sum).members }

/-- The field of a single drive, which has a waveform. -/
def oneDrive (m : Outcome (Modulation N)) (n : FieldName) (waveform : List (Step N)) :
    Outcome (Field N) := do
  let m ← m
  let some w ← readWaveform n none waveform | throw .refused
  return .ofDrives [(m, w)]

variable {m : Outcome (Modulation N)}

theorem readDrives_modulation (r : Reading N) (before : List (Step N)) (hm : modulation? s = some m) (rest : List (Step N)) :
    readDrives r before (s :: rest) =
      (do readDrives (← addDrive (r.redirect before) m rest) (s :: before) rest) := by
  rw [readDrives, hm]
  rfl

theorem readDrives_skip (r : Reading N) (h : ∀ x ∈ xs, modulation? x = none)
    (before ys : List (Step N)) :
    readDrives r before (xs ++ ys) = readDrives r (xs.reverse ++ before) ys := by
  induction xs generalizing before with
  | nil => rfl
  | cons x xs ih =>
    obtain ⟨hx, hxs⟩ := forall_mem_cons.mp h
    rw [cons_append, readDrives, hx, ih hxs, reverse_cons, append_assoc]
    rfl

theorem addDrive_append (r : Reading N) (m : Outcome (Modulation N)) (xs : List (Step N))
    (h : EndsBefore ys) : addDrive r m (xs ++ ys) = addDrive r m xs := by
  simp only [addDrive, readWaveform_append _ _ xs h]

theorem readDrives_append (r : Reading N) (xs before : List (Step N)) (h : EndsBefore ys) :
    readDrives r before (xs ++ ys) =
      (do readDrives (← readDrives r before xs) (xs.reverse ++ before) ys) := by
  induction xs generalizing r before with
  | nil => rfl
  | cons x xs ih =>
    have happend : (x :: xs).reverse ++ before = xs.reverse ++ x :: before := by simp
    rw [cons_append, readDrives, readDrives, happend]
    cases modulation? x with
    | none => exact ih r (x :: before)
    | some m => simp [addDrive_append _ _ xs h, ih]

theorem addDrive_eq {k : Coupling} {n : FieldName} (hk : r.coupling = some k)
    (hn : r.field = some n) (m : Outcome (Modulation N)) (after : List (Step N)) :
    addDrive r m after = (do r.add k n (← oneDrive m n after)) := by
  obtain ⟨sequence, coupling, field⟩ := r
  subst hk hn
  simp only [addDrive, oneDrive, bind_assoc]
  refine bind_congr fun m => bind_congr fun w => ?_
  cases w with
  | none => rfl
  | some w => rfl

theorem addDrive_keeps {r' : Reading N} {after : List (Step N)}
    (h : addDrive r m after = .ok r') : r'.field = r.field ∧ r'.coupling = r.coupling := by
  obtain ⟨sequence, coupling, field⟩ := r
  cases coupling with
  | none => cases h
  | some k =>
    cases field with
    | none => cases h
    | some n =>
      rw [addDrive_eq rfl rfl] at h
      obtain ⟨f, sum, -, -, h⟩ := bind₂_eq_ok.mp h
      cases h
      exact ⟨rfl, rfl⟩

theorem readDrives_held {r' : Reading N} {before : List (Step N)}
    (h : readDrives r before xs = .ok r') (hfield : r.field = (held before).1)
    (hcoupling : r.coupling = (held before).2) :
    r'.field = (held (xs.reverse ++ before)).1 ∧ r'.coupling = (held (xs.reverse ++ before)).2 := by
  induction xs generalizing r before with
  | nil =>
    cases h
    exact ⟨hfield, hcoupling⟩
  | cons x xs ih =>
    rw [reverse_cons, append_assoc]
    by_cases hx : x.sort = .modulation
    · cases hm : modulation? x with
      | none => exact absurd hx (modulation?_eq_none.mp hm)
      | some m =>
        rw [readDrives_modulation r before hm] at h
        obtain ⟨r₁, hr₁, h⟩ := bind_eq_ok.mp h
        obtain ⟨hf, hk⟩ := addDrive_keeps hr₁
        apply ih h
        · rw [hf, held, if_pos hx, ← hfield]
          rfl
        · rw [hk, held, if_pos hx, ← hcoupling]
          rfl
    · rw [readDrives, modulation?_eq_none.mpr hx] at h
      apply ih h
      · rw [held, if_neg hx, hfield]
      · rw [held, if_neg hx, hcoupling]

/-! ### Steps that supply parameters -/

omit [Arith N] in
theorem sort_of_isPragma (h : isPragma s) : s.sort ≠ .modulation ∧ s.isWaveform = false := by
  cases s with
  | assign | columns | batch | args | parallelize => exact ⟨by simp [sort], rfl⟩
  | _ => cases h

omit [Arith N] in
theorem endsBefore_pragmas (h : ∀ p ∈ ps, isPragma p) : EndsBefore ps :=
  fun _ hp => (sort_of_isPragma (h _ (mem_of_mem_head? hp))).2

theorem readDrives_pragmas (r : Reading N)
    (h : ∀ p ∈ ps, isPragma p) (before : List (Step N)) :
    readDrives r before ps = .ok r := by
  have hskip : ∀ p ∈ ps, modulation? p = none :=
    fun p hp => modulation?_eq_none.mpr (sort_of_isPragma (h p hp)).1
  rw [← append_nil ps, readDrives_skip r hskip]
  rfl

omit [Arith N] in
/-- What follows a ready-made sequence, or a step that supplies parameters, supplies parameters. -/
theorem isPragma_of_offers {t : Step N} (ht : isPragma t ∨ t.sort = .sequence)
    (h : t.sort.offers s.offer) : isPragma s := by
  have hwave : t.sort.endsWaveform = false ∧ t.sort ≠ .coupling ∧ t.sort ≠ .rabi ∧
      t.sort ≠ .field ∧ t.sort ≠ .modulation ∧ t.sort ≠ .profile := by
    rcases ht with ht | ht
    · cases t with
      | assign | columns | batch | args | parallelize =>
        simp [sort, endsWaveform]
      | _ => cases ht
    · simp [ht, endsWaveform]
  cases s with
  | assign | columns | batch | args | parallelize => rfl
  | _ => simp [offer, StepSort.offers, hwave] at h

omit [Arith N] in
/-- A ready-made sequence stands alone, with the steps that supply parameters after it. -/
theorem Built.after_sequence (h : c.Built) {s : Sequence N}
    (hsteps : c.steps = .sequence s :: rest) : ∀ p ∈ rest, isPragma p := by
  induction h generalizing rest with
  | start r => cases hsteps
  | @push c t hc hoffer ih =>
    cases hbefore : c.steps with
    | nil =>
      simp only [Chain.push, hbefore, nil_append, cons.injEq] at hsteps
      obtain ⟨-, rfl⟩ := hsteps
      simp
    | cons u before =>
      simp only [Chain.push, hbefore, cons_append, cons.injEq] at hsteps
      obtain ⟨rfl, rfl⟩ := hsteps
      have hpragmas := ih hbefore
      have hlast : isPragma t := by
        rcases eq_nil_or_concat before with rfl | ⟨before, u, rfl⟩
        · refine isPragma_of_offers (t := .sequence s) (.inr rfl) ?_
          have happend : c.steps = [] ++ [.sequence s] := hbefore
          rw [← hoffer, offers_of_append happend]
        · refine isPragma_of_offers (t := u) (.inl (hpragmas u (by simp))) ?_
          rw [concat_eq_append, ← cons_append] at hbefore
          rw [← hoffer, offers_of_append hbefore]
      exact forall_mem_append.mpr ⟨hpragmas, by simpa using hlast⟩

/-! ### Circuits -/

/-- Where no ready-made sequence is applied, the drives of a chain make its circuit. -/
theorem circuit_eq (hne : c.steps ≠ []) (hdrives : ∀ s rest, c.steps ≠ .sequence s :: rest) :
    c.circuit = (do return ⟨.plain c.register, .pulses (← readDrives {} [] c.steps).sequence⟩) := by
  obtain ⟨register, steps⟩ := c
  cases steps with
  | nil => exact absurd rfl hne
  | cons step rest =>
    cases step with
    | sequence s => exact absurd rfl (hdrives s rest)
    | _ =>
      simp only [circuit, unread, Unread.takeRegister, Unread.sequence, ok_bind, bind_assoc]
      rfl

theorem circuit_of_sequence {s : Sequence N}
    (h : c.steps = .sequence s :: rest) : c.circuit = .ok ⟨.plain c.register, s⟩ := by
  obtain ⟨register, steps⟩ := c
  cases h
  rfl

theorem circuit_extend_pragmas (hne : c.steps ≠ [])
    (h : ∀ p ∈ ps, isPragma p) : (c.extend ps).circuit = c.circuit := by
  have hextend : (c.extend ps).steps ≠ [] := by simp [extend, hne]
  by_cases hsequence : ∃ s rest, c.steps = .sequence s :: rest
  · obtain ⟨s, rest, hs⟩ := hsequence
    have hsPragmas : (c.extend ps).steps = .sequence s :: (rest ++ ps) := by simp [extend, hs]
    rw [circuit_of_sequence hs, circuit_of_sequence hsPragmas]
    rfl
  · simp only [not_exists] at hsequence
    have hdrives : ∀ s rest, (c.extend ps).steps ≠ .sequence s :: rest := by
      intro s rest hs
      cases hsteps : c.steps with
      | nil => exact hne hsteps
      | cons step before =>
        rw [extend, hsteps, cons_append, cons.injEq] at hs
        exact hsequence s before (by rw [hsteps, hs.1])
    rw [circuit_eq hextend hdrives, circuit_eq hne hsequence]
    have hread : readDrives {} [] (c.extend ps).steps = readDrives {} [] c.steps := by
      rw [extend, readDrives_append _ _ _ (endsBefore_pragmas h)]
      simp only [readDrives_pragmas _ h]
      cases readDrives {} [] c.steps <;> rfl
    rw [hread]
    rfl

/-- The steps of one drive: some that select a transition or a field, a modulation, and those of a
waveform. -/
structure DriveSteps (N : Type) [Arith N] where
  selectors : List (Step N)
  modulation : Step N
  waveform : List (Step N)
  selects : ∀ s ∈ selectors, s.sort = .coupling ∨ s.sort = .rabi ∨ s.sort = .field
  modulates : (modulation? modulation).isSome
  shapes : ∀ s ∈ waveform, s.isWaveform

variable (d : DriveSteps N)

namespace DriveSteps

def steps : List (Step N) := d.selectors ++ d.modulation :: d.waveform

def field (n : FieldName) : Outcome (Field N) :=
  oneDrive ((modulation? d.modulation).get d.modulates) n d.waveform

theorem sort_modulation : d.modulation.sort = .modulation := by
  by_contra h
  have hsome := d.modulates
  rw [modulation?_eq_none.mpr h] at hsome
  cases hsome

theorem sort_selectors {s : Step N} (h : s ∈ d.selectors) :
    s.isWaveform = false ∧ s.sort ≠ .modulation := by
  rcases d.selects s h with hs | hs | hs <;> simp [isWaveform, hs, endsWaveform]

theorem endsBefore_steps : EndsBefore d.steps := by
  intro y hy
  cases hselectors : d.selectors with
  | nil =>
    obtain rfl : d.modulation = y := by simpa [steps, hselectors] using hy
    rw [isWaveform, d.sort_modulation]
    rfl
  | cons s rest =>
    obtain rfl : s = y := by simpa [steps, hselectors] using hy
    exact (d.sort_selectors (by rw [hselectors]; exact mem_cons_self)).1

end DriveSteps

omit [Arith N] in
theorem held_append (h : ∀ x ∈ xs, x.sort ≠ .modulation)
    (before : List (Step N)) : held (xs ++ before) = held before := by
  induction xs with
  | nil => rfl
  | cons x xs ih =>
    obtain ⟨hx, hxs⟩ := forall_mem_cons.mp h
    rw [cons_append, held_cons hx, ih hxs]

/-- A drive that is read where it is offered goes to the field named last. -/
theorem readDrives_drive {d : DriveSteps N} {k : Coupling} {n : FieldName}
    (hn : ((address (c.extend d.selectors).steps.reverse).1 <|>
      (held (c.extend d.selectors).steps.reverse).1) = some n)
    (hk : ((address (c.extend d.selectors).steps.reverse).2 <|>
      (held (c.extend d.selectors).steps.reverse).2) = some k) :
    readDrives {} [] (c.extend d.steps).steps = (do
      let r ← readDrives {} [] c.steps
      let f ← d.field n
      (r.redirect (c.extend d.selectors).steps.reverse).add k n f) := by
  rw [extend, readDrives_append _ _ _ d.endsBefore_steps]
  cases hread : readDrives {} [] c.steps with
  | error e => rfl
  | ok r =>
    obtain ⟨hfield, hcoupling⟩ := readDrives_held hread rfl rfl
    have hselectors : ∀ s ∈ d.selectors, modulation? s = none :=
      fun s hs => modulation?_eq_none.mpr (d.sort_selectors hs).2
    have hwaveform : ∀ s ∈ d.waveform, modulation? s = none :=
      fun s hs => modulation?_eq_none.mpr (sort_ne_of_isWaveform (d.shapes s hs)).2.2
    have hsteps : d.selectors.reverse ++ (c.steps.reverse ++ []) =
        (c.extend d.selectors).steps.reverse := by simp [extend]
    have hheld : held (c.extend d.selectors).steps.reverse = held (c.steps.reverse ++ []) := by
      rw [← hsteps, held_append]
      intro s hs
      exact (d.sort_selectors (mem_reverse.mp hs)).2
    rw [hheld, ← hfield] at hn
    rw [hheld, ← hcoupling] at hk
    rw [ok_bind, DriveSteps.steps, readDrives_skip _ hselectors, hsteps,
      readDrives_modulation _ _ (Option.some_get d.modulates).symm, addDrive_eq hk hn]
    -- the steps of the waveform hold no further modulation
    have hrest : ∀ r before, readDrives r before d.waveform = .ok r := by
      intro r before
      rw [← append_nil d.waveform, readDrives_skip r hwaveform]
      rfl
    simp only [hrest, ok_bind, DriveSteps.field]
    exact bind_pure _

theorem DriveSteps.named_last (c : Chain N) :
    lastField? (c.extend d.steps).steps.reverse = lastField? (c.extend d.selectors).steps.reverse ∧
      lastCoupling? (c.extend d.steps).steps.reverse =
        lastCoupling? (c.extend d.selectors).steps.reverse := by
  have hsteps : (c.extend d.steps).steps.reverse =
      (d.modulation :: d.waveform).reverse ++ (c.extend d.selectors).steps.reverse := by
    simp [extend, DriveSteps.steps]
  have hrest : ∀ s ∈ (d.modulation :: d.waveform).reverse,
      fieldName? s = none ∧ coupling? s = none := by
    intro s hs
    rcases mem_cons.mp (mem_reverse.mp hs) with rfl | hs
    · exact ⟨fieldName?_eq_none (by simp [d.sort_modulation]),
        coupling?_eq_none (by simp [d.sort_modulation])⟩
    · obtain ⟨hcoupling, hfield, -⟩ := sort_ne_of_isWaveform (d.shapes s hs)
      exact ⟨fieldName?_eq_none hfield, coupling?_eq_none hcoupling⟩
  rw [hsteps, lastField?, lastCoupling?, findSome?_append, findSome?_append,
    findSome?_eq_none_iff.mpr fun s hs => (hrest s hs).1,
    findSome?_eq_none_iff.mpr fun s hs => (hrest s hs).2]
  exact ⟨rfl, rfl⟩

omit [Arith N] in
/-- A chain with a step that selects, drives or shapes applies no ready-made sequence. -/
theorem Built.no_sequence (h : c.Built) {x : Step N} (hx : x ∈ c.steps)
    (hpragma : isPragma x = false) (hsort : x.sort ≠ .sequence) :
    ∀ s rest, c.steps ≠ .sequence s :: rest := by
  intro s rest hs
  rw [hs] at hx
  rcases mem_cons.mp hx with rfl | hx
  · exact hsort rfl
  · rw [h.after_sequence hs x hx] at hpragma
    cases hpragma

theorem DriveSteps.no_sequence {d : DriveSteps N} (h : (c.extend d.steps).Built) :
    ∀ s rest, (c.extend d.steps).steps ≠ .sequence s :: rest := by
  have hmem : d.modulation ∈ (c.extend d.steps).steps := by simp [extend, DriveSteps.steps]
  have hpragma : isPragma d.modulation = false := by
    rw [isPragma, d.sort_modulation]
  exact h.no_sequence hmem hpragma (by simp [d.sort_modulation])

/-- One more drive changes the field that was named last, to which it is added, and no other part of
the circuit. Steps that supply parameters change nothing. -/
theorem circuit_extend_drive {c : Chain N} {d : DriveSteps N} (hne : c.steps ≠ [])
    (h : (c.extend d.steps).Built) :
    ∃ k n, lastCoupling? (c.extend d.steps).steps.reverse = some k ∧
      lastField? (c.extend d.steps).steps.reverse = some n ∧
      (c.extend d.steps).circuit = (do
        let before ← c.circuit
        let drive ← d.field n
        let sum ← ((before.sequence.field? k n).getD ⟨[]⟩).plus drive
        return { before with sequence := before.sequence.setField k n sum }) ∧
      (∀ before after, c.circuit = .ok before → (c.extend d.steps).circuit = .ok after →
        after.register = before.register ∧ ∀ k' n', (k', n') ≠ (k, n) →
          after.sequence.field? k' n' = before.sequence.field? k' n') ∧
      ∀ ps, (∀ p ∈ ps, isPragma p = true) → (c.extend ps).circuit = c.circuit ∧
        ((c.extend d.steps).extend ps).circuit = (c.extend d.steps).circuit := by
  have hdrives := DriveSteps.no_sequence h
  have hdrivesBefore : ∀ s rest, c.steps ≠ .sequence s :: rest :=
    fun s rest hs => hdrives s (rest ++ d.steps) (by simp [extend, hs])
  have hneAfter : (c.extend d.steps).steps ≠ [] := by simp [extend, hne]
  -- the modulation is offered where the selectors end
  rw [DriveSteps.steps, extend_append] at h
  obtain ⟨hbuilt, hoffer⟩ := h.of_extend
  rw [offer_of_modulation d.sort_modulation] at hoffer
  obtain ⟨n, k, hlastField, hlastCoupling, hn, hk⟩ := hbuilt.ready hoffer
  have hcircuit : (c.extend d.steps).circuit = (do
      let before ← c.circuit
      let drive ← d.field n
      let sum ← ((before.sequence.field? k n).getD ⟨[]⟩).plus drive
      return { before with sequence := before.sequence.setField k n sum }) := by
    rw [circuit_eq hneAfter hdrives, circuit_eq hne hdrivesBefore, readDrives_drive hn hk]
    simp only [Reading.add, bind_assoc]
    rfl
  refine ⟨k, n, ?_, ?_, hcircuit, ?_, ?_⟩
  · rw [(d.named_last c).2, hlastCoupling]
  · rw [(d.named_last c).1, hlastField]
  · intro before after hbefore hafter
    rw [hcircuit, hbefore, Outcome.ok_bind] at hafter
    obtain ⟨drive, sum, -, -, hafter⟩ := Outcome.bind₂_eq_ok.mp hafter
    cases hafter
    refine ⟨rfl, ?_⟩
    intro k' n' hother
    rw [Sequence.field?_setField, if_neg hother]
  · intro ps hps
    exact ⟨circuit_extend_pragmas hne hps, circuit_extend_pragmas hneAfter hps⟩

def detunedAtom : Chain Rat :=
  ⟨.list [⟨.lit 0, .lit 0, true⟩], [.rydberg, .detuning, .uniform, .constant (.lit 1) (.lit 2)]⟩

/-- The steps of a ramp of the amplitude, whose last value is recorded. -/
def amplitudeRamp : DriveSteps Rat where
  selectors := [.rabi, .amplitude]
  modulation := .uniform
  waveform := [.linear (.lit 0) (.lit 3) (.lit 2), .record "top"]
  selects := by simp [Step.sort]
  modulates := rfl
  shapes := by simp [Step.isWaveform, Step.sort, endsWaveform]

theorem detunedAtom_amplitudeRamp : ∃ before after, detunedAtom.circuit = .ok before ∧
      (detunedAtom.extend amplitudeRamp.steps).circuit = .ok after ∧
      before.sequence.field? .rydberg .amplitude = none ∧
      after.sequence.field? .rydberg .amplitude =
        some ⟨[(.uniform, .record (.linear (.lit 0) (.lit 3) (.lit 2)) "top")]⟩ ∧
      after.sequence.field? .rydberg .detuning = before.sequence.field? .rydberg .detuning := by
  have hbefore : detunedAtom.circuit = .ok ⟨.plain detunedAtom.register, .pulses [(.rydberg,
      .fields [(.detuning, ⟨[(.uniform, .constant (.lit 1) (.lit 2))]⟩)])]⟩ := by
    with_unfolding_all rfl
  have hbuilt : (detunedAtom.extend amplitudeRamp.steps).Built := by decide
  obtain ⟨k, n, hk, hn, hcircuit, hframe, -⟩ := circuit_extend_drive (by simp [detunedAtom]) hbuilt
  obtain rfl : Coupling.rydberg = k := Option.some.inj hk
  obtain rfl : FieldName.amplitude = n := Option.some.inj hn
  rw [hbefore] at hcircuit
  have hafter : (detunedAtom.extend amplitudeRamp.steps).circuit =
      .ok ⟨.plain detunedAtom.register, .pulses [(.rydberg, .fields [
        (.detuning, ⟨[(.uniform, .constant (.lit 1) (.lit 2))]⟩),
        (.amplitude, ⟨[(.uniform, .record (.linear (.lit 0) (.lit 3) (.lit 2)) "top")]⟩)])]⟩ := by
    rw [hcircuit]
    with_unfolding_all rfl
  refine ⟨_, _, hbefore, hafter, rfl, rfl, ?_⟩
  exact (hframe _ _ hbefore hafter).2 .rydberg .detuning (by simp)

end Chain

end AtomArray
