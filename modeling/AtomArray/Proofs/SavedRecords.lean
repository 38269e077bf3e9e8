import AtomArray.Saved.Document
import AtomArray.Proofs.JsonText
import AtomArray.Proofs.Lookup
import AtomArray.Proofs.SavedCircuit

/-!
Reading the records of a saved task back.

A record is tidy if no key occurs twice in an object, none is that of a class, and all numbers are
real: then it is loaded as the plain document that it writes (`Json.load_reread`). Results and
decoders are read from it as they were (`TaskResults.ofRecord_record`, `Decoder.ofRecord_record`),
and specifications up to the sign of a zero (`TaskSpec.ofRecord_reread`).
-/

namespace AtomArray

open List Bool TimeSeries Quantity

/-! ### Keys of classes -/

namespace SavedClass

theorem ofKey?_key (c : SavedClass) : ofKey? c.key = some c := by
  cases c <;> rfl

theorem ofKey?_eq_none {k : String} (h : k.toList.head? ≠ some 'b') : ofKey? k = none := by
  cases hk : ofKey? k with
  | none => rfl
  | some c =>
    have hkey : c.key = k := by simpa using find?_some hk
    refine absurd ?_ h
    rw [← hkey]
    cases c <;> rfl

end SavedClass

variable {α : Type} {f : α → Json} {as : List α}

namespace Json

/-! ### Tidy records -/

theorem merge_of_nodup (base extra : List (String × α))
    (h : ((base ++ extra).map Prod.fst).Nodup) : merge base extra = base ++ extra := by
  induction extra generalizing base with
  | nil => exact (append_nil base).symm
  | cons m extra ih =>
    have hm : m.1 ∉ base.map Prod.fst := by
      rw [map_append, map_cons] at h
      intro hmem
      exact (nodup_append.mp h).2.2 _ hmem _ mem_cons_self rfl
    have hstep : merge base (m :: extra) = merge (base ++ [m]) extra := by
      simp [merge, insert_of_not_mem hm]
    rw [hstep, ih _ (by simpa using h), append_assoc, singleton_append]

variable (ms : Members)

theorem map_fst_rereadMembers : (rereadMembers ms).map Prod.fst = ms.map Prod.fst := by
  rw [rereadMembers_eq_map, map_map]
  rfl

theorem reread_obj {ms : Members} (h : (ms.map Prod.fst).Nodup) :
    (obj ms).reread = obj (rereadMembers ms) := by
  rw [reread, merge_of_nodup [] _ (by rwa [nil_append, map_fst_rereadMembers]),
    nil_append]

/-- No key occurs twice, and none is that of a class. -/
def keysTidy (keys : List String) : Bool :=
  decide keys.Nodup && keys.all fun k => (SavedClass.ofKey? k).isNone

/-- Is a record written so that nothing of it is lost or mistaken for an object of a class? -/
abbrev isTidy : Json → Bool := every (isReadableNumber .decimal) keysTidy

mutual

/-- The plain document that a record writes. -/
def document : Json → Document
  | null => .null
  | bool b => .bool b
  | int i => .int i
  | binary x => .binary x
  | decimal d => .decimal d
  | str s => .text s
  | arr items => .list (documents items)
  | obj members => .dict (memberDocuments members)

def documents : List Json → List Document
  | [] => []
  | j :: js => j.document :: documents js

def memberDocuments : Members → List (DocumentKey × Document)
  | [] => []
  | (k, j) :: ms => (.text k, j.document) :: memberDocuments ms

end

theorem isReadable_of_isTidy {j : Json} : j.isTidy → j.isReadable :=
  every_mono (fun _ => id) fun _ _ => rfl

mutual

@[simp]
theorem plain_document : ∀ j : Json, j.document.plain = j
  | null | bool _ | int _ | binary _ | decimal _ | str _ => rfl
  | arr items => by rw [document, Document.plain, plainItems_documents]
  | obj members => by rw [document, Document.plain, plainMembers_memberDocuments]

theorem plainItems_documents : ∀ js : List Json, Document.plainItems (documents js) = js
  | [] => rfl
  | j :: js => by rw [documents, Document.plainItems, plain_document j, plainItems_documents js]

theorem plainMembers_memberDocuments : ∀ ms : Members,
    Document.plainMembers (memberDocuments ms) = ms
  | [] => rfl
  | (k, j) :: ms => by
    rw [memberDocuments, Document.plainMembers, plain_document j, plainMembers_memberDocuments ms,
      DocumentKey.written]

end

theorem memberDocuments_eq_map :
    memberDocuments ms = ms.map fun m => (.text m.1, m.2.document) := by
  induction ms with
  | nil => rfl
  | cons m ms ih => rw [memberDocuments, ih, map_cons]

theorem ofMembers_of_keys {ms : List (String × Document)}
    (h : ∀ m ∈ ms, SavedClass.ofKey? m.1 = none) :
    Document.ofMembers ms = .ok (.dict (ms.map fun m => (.text m.1, m.2))) := by
  unfold Document.ofMembers
  split
  · rename_i k d
    rw [h (k, d) mem_cons_self]
  · rfl

mutual

/-- A tidy record is loaded as the plain document that it writes. -/
theorem load_reread : ∀ {j : Json}, j.isTidy → Document.load j.reread = .ok j.reread.document
  | null, _ | bool _, _ | int _, _ | str _, _ | binary _, _ => rfl
  | decimal d, _ => by
    cases d with
    | finite s c e =>
      rw [reread, rereadDecimal]
      split <;> rfl
    | infinite s => rfl
    | nan s g n => rfl
  | arr items, h => by
    rw [reread, Document.load, loadItems_rereadItems h]
    rfl
  | obj members, h => by
    rw [isTidy, every, and_eq_true, keysTidy, and_eq_true, decide_eq_true_eq] at h
    have hkeys : ∀ m ∈ (rereadMembers members).map fun m => (m.1, m.2.document),
        SavedClass.ofKey? m.1 = none := by
      intro m hm
      obtain ⟨n, hn, rfl⟩ := mem_map.mp hm
      have hkey := mem_map_of_mem (f := Prod.fst) hn
      rw [map_fst_rereadMembers] at hkey
      simpa using all_eq_true.mp h.1.2 n.1 hkey
    rw [reread_obj h.1.1, Document.load, loadMembers_rereadMembers h.2, Outcome.ok_bind,
      ofMembers_of_keys hkeys, document, memberDocuments_eq_map, map_map]
    rfl

theorem loadItems_rereadItems : ∀ {js : List Json}, (arr js).isTidy →
    Document.loadItems (rereadItems js) = .ok (documents (rereadItems js))
  | [], _ => rfl
  | j :: js, h => by
    rw [isTidy, every, areAll, and_eq_true] at h
    rw [rereadItems, Document.loadItems, load_reread h.1, loadItems_rereadItems h.2]
    rfl

theorem loadMembers_rereadMembers : ∀ {ms : Members},
    haveAll (isReadableNumber .decimal) keysTidy ms →
    Document.loadMembers (rereadMembers ms) =
      .ok ((rereadMembers ms).map fun m => (m.1, m.2.document))
  | [], _ => rfl
  | (k, j) :: ms, h => by
    rw [haveAll, and_eq_true] at h
    rw [rereadMembers, Document.loadMembers, load_reread h.1, loadMembers_rereadMembers h.2]
    rfl

end

/-! ### Records without fractions -/

/-- Does a value hold no fractions, and no key twice in an object? -/
abbrev isWorded : Json → Bool := every (fun _ => false) fun keys => decide keys.Nodup

/-- Is a record tidy, and does it hold nothing but texts, whole numbers and truth values? -/
abbrev isVerbal : Json → Bool := every (fun _ => false) keysTidy

theorem isTidy_of_isVerbal {j : Json} : j.isVerbal → j.isTidy :=
  every_mono (by simp) fun _ => id

theorem isWorded_of_isVerbal {j : Json} : j.isVerbal → j.isWorded :=
  every_mono (fun _ => id) fun _ h => (and_eq_true_iff.mp h).1

/-- A value without fractions is read as it was written. -/
theorem reread_of_isWorded {j : Json} (h : j.isWorded) : j.reread = j := by
  induction j using induct with
  | null | bool | int | str => rfl
  | binary | decimal => cases h
  | arr js ih =>
    rw [isWorded, every, areAll_eq, all_eq_true] at h
    rw [reread, rereadItems_eq_map, map_congr_left fun j hj => ih j hj (h j hj), map_id']
  | obj ms ih =>
    rw [isWorded, every, and_eq_true, haveAll_eq, all_eq_true, decide_eq_true_eq] at h
    rw [reread_obj h.1, rereadMembers_eq_map, map_congr_left fun m hm => by rw [ih m hm (h.2 m hm)],
      map_id']

theorem isBasic_of_isVerbal {j : Json} (h : j.isVerbal) : j.document.isBasic := by
  induction j using induct with
  | null | bool | int | str => rfl
  | binary | decimal => cases h
  | arr js ih =>
    induction js with
    | nil => rfl
    | cons j js hjs =>
      rw [isVerbal, every, areAll, and_eq_true] at h
      rw [forall_mem_cons] at ih
      exact and_eq_true_iff.mpr ⟨ih.1 h.1, hjs ih.2 h.2⟩
  | obj ms ih =>
    rw [isVerbal, every, and_eq_true] at h
    replace h := h.2
    rw [document, Document.isBasic]
    induction ms with
    | nil => rfl
    | cons m ms hms =>
      rw [haveAll, and_eq_true] at h
      rw [forall_mem_cons] at ih
      exact and_eq_true_iff.mpr ⟨ih.1 h.1, hms ih.2 h.2⟩

theorem load_of_isVerbal {j : Json} (h : j.isVerbal) :
    Document.load j.reread = .ok j.document := by
  rw [load_reread (isTidy_of_isVerbal h), reread_of_isWorded (isWorded_of_isVerbal h)]

/-! ### Lists -/

theorem itemsWithoutNulls_map
    (h : ∀ a ∈ as, (f a).withoutNulls = f a) : itemsWithoutNulls (as.map f) = as.map f := by
  induction as with
  | nil => rfl
  | cons a as ih =>
    rw [map_cons, itemsWithoutNulls, h a mem_cons_self, ih fun b hb => h b (mem_cons_of_mem a hb)]

theorem membersWithoutNulls_cons (k : String) {j : Json} (h : j ≠ null)
    (ms : Members) :
    membersWithoutNulls ((k, j) :: ms) = (k, j.withoutNulls) :: membersWithoutNulls ms := by
  cases j with
  | null => exact absurd rfl h
  | _ => rfl

theorem asList_records {read : Json → Outcome α} (as : List α)
    (h : ∀ a, read (f a) = .ok a) : asList read (arr (as.map f)) = .ok as := by
  rw [asList, mapM_map]
  refine (Outcome.mapM_eq_ok (g := id) fun a _ => h a).trans ?_
  rw [map_id]

end Json

theorem sameList_map {f : α → α → Bool} {g : α → α}
    (h : ∀ a ∈ as, f a (g a)) : sameList f as (as.map g) := by
  induction as with
  | nil => rfl
  | cons a as ih =>
    rw [map_cons, sameList, h a mem_cons_self, ih fun b hb => h b (mem_cons_of_mem a hb)]
    rfl

/-! ### Specifications -/

open Json

namespace Decimal

/-- The number as it is read back: the sign of a zero without fraction and exponent is lost. -/
def reread : Decimal → Decimal
  | finite s c e => if e = 0 then ofInt (if s then -(c : Int) else c) else finite s c e
  | d => d

theorem asDecimal_rereadDecimal (d : Decimal) : asDecimal (rereadDecimal d) = .ok d.reread := by
  cases d with
  | finite s c e =>
    rw [rereadDecimal, reread]
    split <;> rfl
  | infinite s => rfl
  | nan s g n => rfl

theorem sameValue_reread {d : Decimal} (h : d.isFinite) : d.sameValue d.reread := by
  cases d with
  | finite s c e =>
    rw [reread]
    split
    · subst e
      rcases Nat.eq_zero_or_pos c with rfl | hc
      · cases s <;> rfl
      · have hself : ofInt (if s then -(c : Int) else c) = finite s c 0 := by
          cases s <;> simp [ofInt, hc]
        rw [hself]
        exact sameValue_self h
    · exact sameValue_self h
  | infinite s => cases h
  | nan s g n => cases h

end Decimal

namespace Quantity

/-- A decimal that is finite and in range. -/
def isPlain (v : Quantity) : Bool := v.isFinite && v.isWritable

def reread : Quantity → Quantity
  | decimal d => decimal d.reread
  | binary x => binary x

variable {v : Quantity}

theorem same_reread (h : v.isPlain) : Arith.same v v.reread := by
  cases v with
  | decimal d => exact Decimal.sameValue_reread (and_eq_true_iff.mp h).1
  | binary x => cases h

end Quantity

section Quantities

variable {vs : List Quantity}

theorem itemsWithoutNulls_records (vs : List Quantity) :
    itemsWithoutNulls (vs.map Quantity.record) = vs.map Quantity.record :=
  itemsWithoutNulls_map fun v _ => by cases v <;> rfl

theorem sameList_reread (h : vs.all isPlain) :
    sameList Arith.same vs (vs.map reread) :=
  sameList_map fun v hv => same_reread (all_eq_true.mp h v hv)

end Quantities

namespace TimeSeries

def isPlain (t : TimeSeries Quantity) : Bool :=
  t.times.all Quantity.isPlain && t.values.all Quantity.isPlain

/-- Does something to all numbers. -/
def map (g : Quantity → Quantity) (t : TimeSeries Quantity) : TimeSeries Quantity :=
  ⟨t.times.map g, t.values.map g⟩

def reread (t : TimeSeries Quantity) : TimeSeries Quantity :=
  ⟨t.times.map Quantity.reread, t.values.map Quantity.reread⟩

variable {t : TimeSeries Quantity}

theorem withoutNulls_record : t.record.withoutNulls = t.record := by
  simp [record, quantityRecords, withoutNulls, membersWithoutNulls, itemsWithoutNulls_records]

theorem same_reread (h : t.isPlain) : t.same t.reread := by
  rw [isPlain, and_eq_true] at h
  simp [same, reread, sameList_reread h.1, sameList_reread h.2]

end TimeSeries

namespace LocalSeries

def isPlain (t : LocalSeries Quantity) : Bool :=
  t.times.all Quantity.isPlain && t.values.all Quantity.isPlain &&
    t.coefficients.all Quantity.isPlain

def map (g : Quantity → Quantity) (t : LocalSeries Quantity) : LocalSeries Quantity :=
  ⟨t.times.map g, t.values.map g, t.coefficients.map g⟩

def reread (t : LocalSeries Quantity) : LocalSeries Quantity :=
  ⟨t.times.map Quantity.reread, t.values.map Quantity.reread,
    t.coefficients.map Quantity.reread⟩

variable {t : LocalSeries Quantity}

theorem withoutNulls_record : t.record.withoutNulls = t.record := by
  simp [record, quantityRecords, withoutNulls, membersWithoutNulls, itemsWithoutNulls_records]

theorem same_reread (h : t.isPlain) : t.same t.reread := by
  rw [isPlain, and_eq_true, and_eq_true] at h
  simp [same, reread, sameList_reread h.1.1, sameList_reread h.1.2, sameList_reread h.2]

end LocalSeries

namespace TaskSpec

/-- Are all numbers of a specification decimals that are finite and in range? -/
def isPlain (s : TaskSpec Quantity) : Bool :=
  s.sites.all (fun p => p.1.isPlain && p.2.isPlain) && s.amplitude.isPlain && s.phase.isPlain &&
    s.detuning.isPlain && s.localDetuning.all LocalSeries.isPlain

def map (g : Quantity → Quantity) (s : TaskSpec Quantity) : TaskSpec Quantity :=
  { s with
    sites := s.sites.map fun p => (g p.1, g p.2)
    amplitude := s.amplitude.map g
    phase := s.phase.map g
    detuning := s.detuning.map g
    localDetuning := s.localDetuning.map (LocalSeries.map g) }

def reread (s : TaskSpec Quantity) : TaskSpec Quantity :=
  { s with
    sites := s.sites.map fun p => (p.1.reread, p.2.reread)
    amplitude := s.amplitude.reread
    phase := s.phase.reread
    detuning := s.detuning.reread
    localDetuning := s.localDetuning.map LocalSeries.reread }

/-- The record of what drives all atoms and single ones, with these members if none are. -/
def detuningRecord (missing : Members) (s : TaskSpec Quantity) : Json :=
  .obj (("global", s.detuning.record) ::
    (s.localDetuning.map fun t => [("local", t.record)]).getD missing)

def recordWith (missing : Members) (s : TaskSpec Quantity) : Json :=
  .obj [("nshots", .int s.shots),
    ("lattice", .obj [("sites", .arr (s.sites.map fun p => .arr [p.1.record, p.2.record])),
      ("filling", .arr (s.filling.map .int))]),
    ("effective_hamiltonian", .obj [("rydberg", .obj [
      ("rabi_frequency_amplitude", .obj [("global", s.amplitude.record)]),
      ("rabi_frequency_phase", .obj [("global", s.phase.record)]),
      ("detuning", s.detuningRecord missing)])])]

variable {s : TaskSpec Quantity}

theorem record_eq : s.record = s.recordWith [("local", .null)] := by
  unfold record recordWith detuningRecord
  cases s.localDetuning <;> rfl

theorem withoutNulls_record : s.record.withoutNulls = s.recordWith [] := by
  have hseries : ∀ t : TimeSeries Quantity, membersWithoutNulls [("global", t.record)] =
      [("global", t.record)] := by
    intro t
    rw [membersWithoutNulls_cons _ (by simp [TimeSeries.record]),
      TimeSeries.withoutNulls_record]
    rfl
  have hsites : itemsWithoutNulls (s.sites.map fun p => arr [p.1.record, p.2.record]) =
      s.sites.map fun p => arr [p.1.record, p.2.record] := by
    refine itemsWithoutNulls_map fun p _ => ?_
    exact congrArg arr (itemsWithoutNulls_records [p.1, p.2])
  have hfilling : itemsWithoutNulls (s.filling.map Json.int) = s.filling.map Json.int :=
    itemsWithoutNulls_map fun _ _ => rfl
  have hdetuning : membersWithoutNulls [("global", s.detuning.record),
      ("local", ofOption LocalSeries.record s.localDetuning)] = ("global", s.detuning.record) ::
        (s.localDetuning.map fun t => [("local", t.record)]).getD [] := by
    rw [membersWithoutNulls_cons _ (by simp [TimeSeries.record]),
      TimeSeries.withoutNulls_record]
    cases s.localDetuning with
    | none => rfl
    | some t =>
      rw [ofOption, membersWithoutNulls_cons _ (by simp [LocalSeries.record]),
        LocalSeries.withoutNulls_record]
      rfl
  simp [record, withoutNulls, membersWithoutNulls, hseries, hsites, hfilling, hdetuning,
    recordWith, detuningRecord]

theorem same_reread (h : s.isPlain) : s.same s.reread := by
  simp only [isPlain, and_eq_true] at h
  obtain ⟨⟨⟨⟨hsites, hamplitude⟩, hphase⟩, hdetuning⟩, hlocal⟩ := h
  have hpairs : sameList (fun p q : Quantity × Quantity => Arith.same p.1 q.1 && Arith.same p.2 q.2)
      s.sites (s.sites.map fun p => (p.1.reread, p.2.reread)) := by
    refine sameList_map fun p hp => ?_
    have hplain := all_eq_true.mp hsites p hp
    rw [and_eq_true] at hplain
    simp [Quantity.same_reread hplain.1, Quantity.same_reread hplain.2]
  cases hopt : s.localDetuning with
  | none =>
    simp [same, reread, hpairs, TimeSeries.same_reread hamplitude, TimeSeries.same_reread hphase,
      TimeSeries.same_reread hdetuning, hopt]
  | some t =>
    rw [hopt] at hlocal
    simp [same, reread, hpairs, TimeSeries.same_reread hamplitude, TimeSeries.same_reread hphase,
      TimeSeries.same_reread hdetuning, hopt, LocalSeries.same_reread hlocal]

end TaskSpec

/-! ### Records that are changed -/

/-- A tidy record whose numbers pass a test, and which is read as this. -/
def Json.ReadsAs (number : Json → Bool) (read : Json → Outcome α) (j : Json) (a : α) : Prop :=
  j.every number keysTidy ∧ read j = .ok a

/-- A change of records that keeps lists and objects. Numbers are read as others after it, and pass
a test. -/
structure Json.Rewrites (φ : Json → Json) (number : Json → Bool) (g : Quantity → Quantity) :
    Prop where
  null : φ .null = .null
  int (i : Int) : φ (.int i) = .int i
  arr (js : List Json) : φ (.arr js) = .arr (js.map φ)
  obj {ms : Members} : (ms.map Prod.fst).Nodup → φ (.obj ms) = .obj (ms.map fun m => (m.1, φ m.2))
  quantity {v : Quantity} : v.isPlain → ReadsAs number asQuantity (φ v.record) (g v)

namespace Json.Rewrites

variable {φ : Json → Json} {number : Json → Bool} {g : Quantity → Quantity}
  (hφ : Rewrites φ number g)

include hφ

theorem list {β : Type} {read : Json → Outcome β} {r : α → β}
    (h : ∀ a ∈ as, ReadsAs number read (φ (f a)) (r a)) :
    ReadsAs number (asList read) (φ (.arr (as.map f))) (as.map r) := by
  rw [ReadsAs, hφ.arr, map_map, every, areAll_eq, all_map, all_eq_true, asList, mapM_map]
  exact ⟨fun a ha => (h a ha).1, Outcome.mapM_eq_ok fun a ha => (h a ha).2⟩

theorem quantities {vs : List Quantity} (h : vs.all isPlain) :
    ReadsAs number (asList asQuantity) (φ (quantityRecords vs)) (vs.map g) :=
  hφ.list fun v hv => hφ.quantity (all_eq_true.mp h v hv)

theorem series {t : TimeSeries Quantity} (h : t.isPlain) :
    ReadsAs number TimeSeries.ofRecord (φ t.record) (t.map g) := by
  rw [TimeSeries.isPlain, and_eq_true] at h
  obtain ⟨htimes, htimesRead⟩ := hφ.quantities h.1
  obtain ⟨hvalues, hvaluesRead⟩ := hφ.quantities h.2
  have hkeys : keysTidy ["times", "values"] := by decide
  rw [ReadsAs, TimeSeries.record, hφ.obj (by simp)]
  simp [every, haveAll, TimeSeries.ofRecord, field, asObject, lookup_cons, TimeSeries.map, *]

theorem localSeries {t : LocalSeries Quantity} (h : t.isPlain) :
    ReadsAs number LocalSeries.ofRecord (φ t.record) (t.map g) := by
  rw [LocalSeries.isPlain, and_eq_true, and_eq_true] at h
  obtain ⟨htimes, htimesRead⟩ := hφ.quantities h.1.1
  obtain ⟨hvalues, hvaluesRead⟩ := hφ.quantities h.1.2
  obtain ⟨hcoefficients, hcoefficientsRead⟩ := hφ.quantities h.2
  have hkeys : keysTidy ["times", "values", "lattice_site_coefficients"] := by decide
  rw [ReadsAs, LocalSeries.record, hφ.obj (by simp)]
  simp [every, haveAll, LocalSeries.ofRecord, TimeSeries.ofRecord, field, asObject, lookup_cons,
    LocalSeries.map, *]

variable {s : TaskSpec Quantity} {missing : Members}
  (hmissing : missing = [] ∨ missing = [("local", .null)])

include hmissing

theorem detuning (hglobal : s.detuning.isPlain) (hlocal : s.localDetuning.all LocalSeries.isPlain) :
    ReadsAs number TimeSeries.ofGlobal (φ (s.detuningRecord missing)) (s.detuning.map g) ∧
      optionalField "local" LocalSeries.ofRecord (φ (s.detuningRecord missing)) =
        .ok (s.localDetuning.map (LocalSeries.map g)) := by
  obtain ⟨hd, hdRead⟩ := hφ.series hglobal
  have hone : keysTidy ["global"] := by decide
  have htwo : keysTidy ["global", "local"] := by decide
  unfold TaskSpec.detuningRecord ReadsAs
  cases hopt : s.localDetuning with
  | none =>
    rcases hmissing with rfl | rfl <;>
      simp [hφ.obj, hφ.null, every, haveAll, ofGlobal, fieldOr, optionalField, asObject, lookup_cons,
        asOptional, *]
  | some t =>
    obtain ⟨ht, htRead⟩ := hφ.localSeries (hopt ▸ hlocal)
    have hread : asOptional LocalSeries.ofRecord (φ t.record) = .ok (some (t.map g)) := by
      rw [LocalSeries.record, hφ.obj (by simp)] at htRead ⊢
      rw [asOptional, htRead]
      · rfl
      · simp
    simp [hφ.obj, every, haveAll, ofGlobal, fieldOr, optionalField, asObject, lookup_cons, *]

theorem spec (h : s.isPlain) :
    ReadsAs number TaskSpec.ofRecord (φ (s.recordWith missing)) (s.map g) := by
  simp only [TaskSpec.isPlain, and_eq_true] at h
  obtain ⟨⟨⟨⟨hsites, hamplitude⟩, hphase⟩, hdetuning⟩, hlocal⟩ := h
  obtain ⟨hpairs, hpairsRead⟩ : ReadsAs number (asList (asPair asQuantity))
      (φ (.arr (s.sites.map fun p => .arr [p.1.record, p.2.record])))
      (s.sites.map fun p => (g p.1, g p.2)) := by
    refine hφ.list fun p hp => ?_
    obtain ⟨hx, hy⟩ := and_eq_true_iff.mp (all_eq_true.mp hsites p hp)
    obtain ⟨hx, hxRead⟩ := hφ.quantity hx
    obtain ⟨hy, hyRead⟩ := hφ.quantity hy
    simp [ReadsAs, hφ.arr, every, areAll, asPair, *]
  obtain ⟨hfilling, hfillingRead⟩ : ReadsAs number (asList asWhole)
      (φ (.arr (s.filling.map .int))) (s.filling.map id) := by
    refine hφ.list fun i _ => ?_
    rw [hφ.int]
    exact ⟨rfl, rfl⟩
  obtain ⟨ha, haRead⟩ := hφ.series hamplitude
  obtain ⟨hp, hpRead⟩ := hφ.series hphase
  obtain ⟨⟨hd, hdRead⟩, hlocalRead⟩ := hφ.detuning hmissing hdetuning hlocal
  have hspec : keysTidy ["nshots", "lattice", "effective_hamiltonian"] := by decide
  have hlattice : keysTidy ["sites", "filling"] := by decide
  have hrydberg : keysTidy ["rydberg"] := by decide
  have hdrives : keysTidy ["rabi_frequency_amplitude", "rabi_frequency_phase", "detuning"] := by
    decide
  have hglobal : keysTidy ["global"] := by decide
  have hseries : ∀ j, ofGlobal (.obj [("global", j)]) = ofRecord j := fun j => rfl
  rw [ReadsAs, TaskSpec.recordWith]
  generalize Json.arr (s.sites.map fun p => .arr [p.1.record, p.2.record]) = sites at *
  generalize Json.arr (s.filling.map .int) = filling at *
  simp [hφ.obj, hφ.int, every, haveAll, TaskSpec.ofRecord, field, asObject, lookup_cons, asWhole,
    TaskSpec.map, *]

end Json.Rewrites

namespace TaskSpec

variable {s : TaskSpec Quantity}

theorem isTidy_record (h : s.isPlain) : s.record.withoutNulls.isTidy := by
  have hkept : Rewrites id (isReadableNumber .decimal) id := by
    refine ⟨rfl, fun _ => rfl, by simp, by simp, fun {v} hv => ?_⟩
    cases v with
    | decimal d => exact ⟨hv, rfl⟩
    | binary x => cases hv
  rw [withoutNulls_record]
  exact (hkept.spec (.inl rfl) h).1

theorem ofRecord_reread (h : s.isPlain) : ofRecord s.record.withoutNulls.reread = .ok s.reread := by
  have hkept : Rewrites Json.reread (fun _ => true) Quantity.reread := by
    refine ⟨rfl, fun _ => rfl, fun js => ?_, fun hms => ?_, fun {v} hv => ?_⟩
    · rw [Json.reread, rereadItems_eq_map]
    · rw [reread_obj hms, rereadMembers_eq_map]
    · cases v with
      | decimal d =>
        rw [ReadsAs, asQuantity, Quantity.record, Json.reread, Decimal.asDecimal_rereadDecimal]
        refine ⟨?_, rfl⟩
        unfold rereadDecimal
        repeat' split
        all_goals rfl
      | binary x => cases hv
  rw [withoutNulls_record]
  exact (hkept.spec (.inl rfl) h).2

end TaskSpec

/-! ### Results -/

theorem Json.isVerbal_ofBits (bs : Bits) : (ofBits bs).isVerbal := by
  rw [ofBits, isVerbal, every, areAll_eq, all_map, all_eq_true]
  exact fun _ _ => rfl

theorem Json.asList_ofBits (bs : Bits) : asList asBit (ofBits bs) = .ok bs := by
  refine asList_records bs fun b => ?_
  cases b <;> rfl

namespace Shot

theorem isVerbal_record (s : Shot) : s.record.isVerbal := by
  have hkeys : keysTidy ["shot_status", "pre_sequence", "post_sequence"] := by decide
  simp [record, every, haveAll, hkeys, isVerbal_ofBits]

theorem ofRecord_record (s : Shot) : ofRecord s.record = .ok s := by
  have hstatus : statusOfRecord (.str s.status.name) = .ok s.status := by
    cases s.status <;> rfl
  simp [ofRecord, record, fieldD, asObject, lookup_cons, hstatus, asList_ofBits]

end Shot

namespace TaskResults

theorem isVerbal_record (r : TaskResults) : r.record.isVerbal := by
  have hkeys : keysTidy ["task_status", "shot_outputs"] := by decide
  have hshots : (arr (r.shots.map Shot.record)).isVerbal := by
    rw [isVerbal, every, areAll_eq, all_map, all_eq_true]
    exact fun s _ => s.isVerbal_record
  simpa [record, every, haveAll, hkeys] using hshots

theorem ofRecord_record (r : TaskResults) : ofRecord r.record = .ok r := by
  have hstatus : statusOfRecord TaskStatus.all (.str r.status.name) = .ok r.status := by
    cases r.status <;> rfl
  have hshots := asList_records r.shots Shot.ofRecord_record
  simp [ofRecord, ofRecordAmong, record, fieldD, asObject, lookup_cons, hstatus, hshots]

end TaskResults

/-! ### Decoders -/

namespace Decoder

theorem isVerbal_siteRecord (s : ClusterSite) : (siteRecord s).isVerbal := by
  have hkeys : keysTidy ["cluster_index", "global_location_index",
    "cluster_location_index"] := by decide
  simp [siteRecord, every, haveAll, areAll, hkeys]

theorem isVerbal_record (d : Decoder) : d.record.isVerbal := by
  have hkeys : keysTidy ["mapping", "locations_per_cluster", "number_of_cluster"] := by
    decide
  have hsites : (arr (d.mapping.map siteRecord)).isVerbal := by
    rw [isVerbal, every, areAll_eq, all_map, all_eq_true]
    exact fun s _ => isVerbal_siteRecord s
  simpa [record, every, haveAll, hkeys] using hsites

theorem siteOfRecord_siteRecord (s : ClusterSite) : siteOfRecord (siteRecord s) = .ok s := by
  simp [siteOfRecord, siteRecord, field, asObject, lookup_cons, asPair, asWhole]

/-- Is a decoder one of those that are built from a mapping? -/
def isFormed (d : Decoder) : Bool :=
  let sites := d.mapping.map (·.globalIndex)
  (distinct sites).length == sites.length && d.locationsPerCluster == d.clusterCount

theorem ofMapping_of_isFormed {d : Decoder} (h : d.isFormed) :
    ofMapping d.mapping (some d.clusterCount) = .ok d := by
  simp only [isFormed, and_eq_true, beq_iff_eq] at h
  obtain ⟨mapping, perCluster, count⟩ := d
  obtain rfl : perCluster = count := h.2
  unfold ofMapping
  rw [if_neg (not_not.mpr h.1)]
  rfl

theorem ofRecord_record {d : Decoder} (h : d.isFormed) : ofRecord d.record = .ok d := by
  have hsites := asList_records d.mapping siteOfRecord_siteRecord
  simp [ofRecord, record, asObject, lookup_cons, hsites, asWhole, ofMapping_of_isFormed h]

end Decoder

/-! ### Settings of services -/

theorem Json.isVerbal_ofOption (h : ∀ a, (f a).isVerbal)
    (o : Option α) : (ofOption f o).isVerbal := by
  cases o with
  | none => rfl
  | some a => exact h a

theorem Backend.isVerbal_publicRecord (b : Backend) : b.publicRecord.isVerbal := by
  have htext : ∀ o : Option String, (ofOption .str o).isVerbal :=
    isVerbal_ofOption fun _ => rfl
  have hwhole : ∀ o : Option Int, (ofOption .int o).isVerbal :=
    isVerbal_ofOption fun _ => rfl
  cases b with
  | queue s =>
    have hkeys : keysTidy ["api_hostname", "qpu_id", "api_stage", "virtual_queue", "proxy",
      "region", "session_expires", "role_arn", "role_session_name", "profile"] := by decide
    simp [publicRecord, QueueSettings.publicRecord, QueueSettings.record, QueueSettings.secrets,
      every, haveAll, hkeys, htext, hwhole]
  | mock s =>
    have hkeys : keysTidy ["state_file", "submission_error"] := by decide
    simp [publicRecord, record, MockSettings.record, every, haveAll, hkeys]
  | cloud s =>
    have hkeys : keysTidy ["device_arn"] := by decide
    simp [publicRecord, record, CloudSettings.record, every, haveAll, hkeys]

end AtomArray
