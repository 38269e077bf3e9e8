import AtomArray.Saved.Legacy
import AtomArray.Proofs.SavedRemoteBatch

/-!
Reading a batch of the first file format back.

Numbers are written as texts. Specifications, results, decoders and backends are read as they were.
The numbers of metadata come back as texts, and if the only parameter of a task has the name of an
object, it is taken for one and the batch cannot be read (`Legacy.load_of_save`).
-/

namespace AtomArray

open List Bool Json Quantity

namespace Param

def isDecimal : Param Quantity → Bool
  | number (.decimal _) => true
  | _ => false

/-- A decimal as its text. -/
def asText : Param Quantity → Param Quantity
  | number (.decimal d) => text d.text
  | p => p

/-- Is the parameter a decimal, or a list of decimals? -/
def isDecimals : Param Quantity → Bool
  | list ps => ps.all isDecimal
  | p => p.isDecimal

def asTexts : Param Quantity → Param Quantity
  | list ps => list (ps.map asText)
  | p => p.asText

end Param

namespace Legacy

variable {α β : Type} {as : List α} {js : List Json}

/-! ### Numbers as texts -/

theorem textual_arr (js : List Json) : textual (.arr js) = .arr (js.map textual) := by
  rw [textual]
  induction js with
  | nil => rfl
  | cons j js ih => rw [textualItems, map_cons, arr.inj ih]

theorem textual_obj (ms : Members) :
    textual (.obj ms) = .obj (ms.map fun m => (m.1, textual m.2)) := by
  rw [textual]
  induction ms with
  | nil => rfl
  | cons m ms ih => rw [textualMembers, map_cons, obj.inj ih]

theorem textual_of_isWorded {j : Json} (h : j.isWorded) : textual j = j := by
  induction j using induct with
  | null | bool | int | str => rfl
  | binary | decimal => cases h
  | arr js ih =>
    rw [isWorded, every, areAll_eq, all_eq_true] at h
    rw [textual_arr, map_congr_left fun j hj => ih j hj (h j hj), map_id']
  | obj ms ih =>
    rw [isWorded, every, and_eq_true, haveAll_eq, all_eq_true] at h
    rw [textual_obj, map_congr_left fun m hm => by rw [ih m hm (h.2 m hm)], map_id']

/-- With its numbers as texts, a value is kept by a file and read with this outcome. -/
def Returns (read : Json → Outcome α) (j : Json) (o : Outcome α) : Prop :=
  (textual j).isWorded ∧ read (textual j) = o

theorem Returns.of_isVerbal {read : Json → Outcome α} {j : Json} {o : Outcome α} (h : j.isVerbal)
    (hread : read j = o) : Returns read j o := by
  have hworded := isWorded_of_isVerbal h
  rw [Returns, textual_of_isWorded hworded]
  exact ⟨hworded, hread⟩

theorem Returns.list {read : Json → Outcome β} {out : α → Outcome β}
    (h : Forall₂ (fun a j => Returns read j (out a)) as js) :
    Returns (asList read) (.arr js) (as.mapM out) := by
  rw [Returns, textual_arr, isWorded, every, areAll_eq, all_map, all_eq_true, asList, mapM_map]
  induction h with
  | nil => exact ⟨by simp, rfl⟩
  | cons hj _ ih =>
    refine ⟨forall_mem_cons.mpr ⟨hj.1, ih.1⟩, ?_⟩
    rw [mapM_cons, mapM_cons, ← ih.2, ← hj.2]
    rfl

theorem Returns.records {read : Json → Outcome α} {f : α → Json}
    (h : ∀ a ∈ as, Returns read (f a) (.ok a)) :
    Returns (asList read) (.arr (as.map f)) (.ok as) := by
  have hsame : as.mapM (Except.ok : α → Outcome α) = .ok (as.map id) :=
    Outcome.mapM_eq_ok fun _ _ => rfl
  rw [map_id] at hsame
  exact hsame ▸ .list (forall₂_map_right_iff.mpr (forall₂_same.mpr h))

/-! ### Specifications -/

theorem rewrites_textual : Rewrites textual (fun _ => false) id := by
  refine ⟨rfl, fun _ => rfl, textual_arr, fun _ => textual_obj _, fun {v} hv => ?_⟩
  cases v with
  | binary x => cases hv
  | decimal d =>
    obtain ⟨hfinite, hrange⟩ := and_eq_true_iff.mp hv
    have hread : asDecimal (.str d.text) = .ok d := by
      rw [asDecimal, finiteText, Decimal.ofText?_text hrange]
      exact if_pos hfinite
    rw [ReadsAs, record, textual, asQuantity, hread]
    exact ⟨rfl, rfl⟩

theorem returns_spec {s : TaskSpec Quantity} (h : s.isPlain) :
    Returns TaskSpec.ofRecord s.record (.ok s) := by
  have hlocal : LocalSeries.map id = id := funext fun t => by simp [LocalSeries.map]
  have hself : s.map id = s := by simp [TaskSpec.map, TimeSeries.map, hlocal]
  obtain ⟨hverbal, hread⟩ := rewrites_textual.spec (.inr rfl) h
  rw [hself] at hread
  rw [TaskSpec.record_eq]
  exact ⟨isWorded_of_isVerbal hverbal, hread⟩

/-! ### Metadata -/

/-- What is written of a parameter is kept by a file, and read as another parameter. -/
def Rereads (p q : Param Quantity) : Prop :=
  ∃ j, ofParam p = .ok j ∧ (textual j).isWorded ∧ toParam (textual j) = q

theorem rereads_decimal {p : Param Quantity} (h : p.isDecimal) : Rereads p p.asText := by
  match p with
  | .number (.decimal d) => exact ⟨.decimal d, rfl, rfl, rfl⟩

theorem rereads_decimals {p : Param Quantity} (h : p.isDecimals) : Rereads p p.asTexts := by
  match p with
  | .number (.decimal d) => exact rereads_decimal h
  | .list ps =>
    suffices hps : ∃ js, ofParams ps = .ok js ∧ (textual (.arr js)).isWorded ∧
        toParam (textual (.arr js)) = .list (ps.map Param.asText) by
      obtain ⟨js, hjs, hread⟩ := hps
      exact ⟨.arr js, by simp [ofParam, hjs], hread⟩
    replace h : ps.all Param.isDecimal := h
    induction ps with
    | nil => exact ⟨[], rfl, rfl, rfl⟩
    | cons p ps ih =>
      rw [all_cons, and_eq_true] at h
      obtain ⟨j, hj, hjworded, hjread⟩ := rereads_decimal h.1
      obtain ⟨js, hjs, hworded, hread⟩ := ih h.2
      refine ⟨j :: js, by simp [ofParams, hj, hjs], ?_, ?_⟩
      · simpa [textual, textualItems, every, areAll, hjworded] using hworded
      · simpa [textual, textualItems, toParam, toParams, hjread] using hread

theorem ofParamMembers_eq_ok {ms : Env Quantity} (h : ∀ m ∈ ms, m.2.isDecimals) : ∃ js,
    ofParamMembers ms = .ok js ∧ js.map Prod.fst = ms.map Prod.fst ∧
      (∀ j ∈ js, (textual j.2).isWorded) ∧
      js.map (fun j => (j.1, toParam (textual j.2))) = ms.map fun m => (m.1, m.2.asTexts) := by
  induction ms with
  | nil => exact ⟨[], rfl, rfl, by simp, rfl⟩
  | cons m ms ih =>
    rw [forall_mem_cons] at h
    obtain ⟨j, hj, hworded, hread⟩ := rereads_decimals h.1
    obtain ⟨js, hjs, hkeys, hwordeds, hreads⟩ := ih h.2
    exact ⟨(m.1, j) :: js, by simp [ofParamMembers, hj, hjs], by simp [hkeys],
      forall_mem_cons.mpr ⟨hworded, hwordeds⟩, by simp [hread, hreads]⟩

/-- There is one parameter only, under the key of an object. -/
def Misread (ms : Env Quantity) : Prop := ∃ k ∈ objectKeys, ms.map Prod.fst = [k]

instance : DecidablePred Misread := fun _ => inferInstanceAs (Decidable (∃ k ∈ _, _))

theorem toMetadata_obj (ms : Members) : toMetadata (.obj ms) =
    if ∃ k ∈ objectKeys, ms.map Prod.fst = [k] then .error .type
    else .ok (ms.map fun m => (m.1, toParam m.2)) := by
  have hmap : ∀ ms : Members, toParamMembers ms = ms.map fun m => (m.1, toParam m.2) := by
    intro ms
    induction ms with
    | nil => rfl
    | cons m ms ih => rw [toParamMembers, ih, map_cons]
  cases ms with
  | nil => rfl
  | cons m ms =>
    cases ms with
    | nil => simp [toMetadata]
    | cons n ms =>
      rw [if_neg (by simp), ← hmap]
      rfl

theorem returns_metadata {ms : Env Quantity} (hkeys : (ms.map Prod.fst).Nodup)
    (h : ∀ m ∈ ms, m.2.isDecimals) : ∃ js, ofParamMembers ms = .ok js ∧
      Returns toMetadata (.obj js)
        (if Misread ms then .error .type else .ok (ms.map fun m => (m.1, m.2.asTexts))) := by
  obtain ⟨js, hjs, hfst, hwordeds, hreads⟩ := ofParamMembers_eq_ok h
  have htextual : (js.map fun m => (m.1, textual m.2)).map Prod.fst = ms.map Prod.fst := by
    rw [← hfst, map_map]
    rfl
  refine ⟨js, hjs, ?_, ?_⟩
  · rw [textual_obj, isWorded, every, htextual, decide_eq_true hkeys, Bool.true_and, haveAll_eq,
      all_map, all_eq_true]
    exact hwordeds
  · rw [textual_obj, toMetadata_obj, htextual, map_map, ← hreads]
    rfl

/-! ### Tasks -/

/-- A task for a queue over a mock service, with numbers that a file can hold and decimals as
metadata. -/
structure Kept (t : RemoteTask Backend) : Prop where
  queue : t.family = .queue
  mock : ∃ s, t.service = .mock s
  spec : t.spec.isPlain
  decoder : t.decoder.all Decoder.isFormed
  keys : (t.metadata.map Prod.fst).Nodup
  decimals : ∀ m ∈ t.metadata, m.2.isDecimals

/-- The task with the decimals of its metadata as texts. -/
def worded (t : RemoteTask Backend) : RemoteTask Backend :=
  { t with metadata := t.metadata.map fun m => (m.1, m.2.asTexts) }

theorem returns_text (o : Option String) :
    (textual (ofOption .str o)).isWorded ∧ (textual (ofOption .str o)).str? = o := by
  cases o <;> exact ⟨rfl, rfl⟩

theorem returns_optional {read : Json → Outcome α} {key : String} {f : α → Json} {o : Option α}
    (hkey : keysTidy [key]) (hverbal : ∀ a, (f a).isVerbal) (h : ∀ a ∈ o, read (f a) = .ok a) :
    Returns (toOptional key read) (ofOptional key f o) (.ok o) := by
  cases o with
  | none => exact ⟨rfl, rfl⟩
  | some a =>
    refine .of_isVerbal ?_ ?_
    · simp [ofOptional, ofOption, under, every, haveAll, hkey, hverbal]
    · simp [ofOptional, ofOption, under, toOptional, within, h]

theorem returns_mock {b : Backend} (h : ∃ s, b = .mock s) :
    Returns (toBackend []) (ofBackend b) (.ok b) := by
  obtain ⟨s, rfl⟩ := h
  have hone : keysTidy ["mock_backend"] := by decide
  have hkeys : keysTidy ["state_file", "submission_error"] := by decide
  refine .of_isVerbal ?_ rfl
  simp [ofBackend, under, MockSettings.record, every, haveAll, hone, hkeys]

theorem returns_task {t : RemoteTask Backend} (h : Kept t) : ∃ j, ofRemoteTask t = .ok j ∧
    Returns (toRemoteTask []) j
      (if Misread t.metadata then .error .type else .ok (worded t)) := by
  obtain ⟨js, hjs, hmetadata, hmetadataRead⟩ := returns_metadata h.keys h.decimals
  refine ⟨_, by rw [ofRemoteTask, hjs]; rfl, ?_⟩
  obtain ⟨hservice, hserviceRead⟩ := returns_mock h.mock
  obtain ⟨hid, hidRead⟩ := returns_text t.id
  obtain ⟨hspec, hspecRead⟩ := returns_spec h.spec
  obtain ⟨hdecoder, hdecoderRead⟩ := returns_optional (o := t.decoder)
    (show keysTidy ["parallel_decoder"] by decide) Decoder.isVerbal_record
    fun d hd => Decoder.ofRecord_record (by simpa [Option.mem_def.mp hd] using h.decoder)
  obtain ⟨hresults, hresultsRead⟩ := returns_optional (o := t.results)
    (show keysTidy ["task_result_ir"] by decide) TaskResults.isVerbal_record
    fun r _ => r.ofRecord_record
  generalize obj js = metadata at *
  simp only [h.queue, Returns, under, textual_obj, map_cons, map_nil]
  constructor
  · simp [every, haveAll, ofResults, *]
  · by_cases hmisread : Misread t.metadata <;>
      simp [within, toRemoteTask, ofResults, toResults, Json.getD, get?, lookup_cons, worded, h.queue,
        *]

/-- What is read of a task with its number. -/
def rereadNumbered (p : Int × RemoteTask Backend) : Outcome (Int × RemoteTask Backend) :=
  if Misread p.2.metadata then .error .type else .ok (p.1, worded p.2)

theorem returns_numbered {p : Int × RemoteTask Backend} (h : Kept p.2) :
    ∃ j, ofNumbered ofRemoteTask p = .ok j ∧
      Returns (toNumbered (toRemoteTask [])) j (rereadNumbered p) := by
  obtain ⟨j, hj, hworded, hread⟩ := returns_task h
  refine ⟨arr [.int p.1, j], by simp [ofNumbered, hj], ?_⟩
  have htextual : textual (arr [.int p.1, j]) = arr [.int p.1, textual j] := textual_arr _
  rw [Returns, htextual, toNumbered, hread, rereadNumbered]
  refine ⟨by simp [every, areAll, hworded], ?_⟩
  split <;> rfl

theorem returns_batch {b : RemoteBatch Backend} (h : ∀ p ∈ b.tasks, Kept p.2) :
    ∃ j, save b = .ok (textual j) ∧
      Returns (load []) j ((b.tasks.mapM rereadNumbered).map fun tasks => ⟨tasks, b.name⟩) := by
  obtain ⟨js, hjs, hall⟩ := Outcome.exists_mapM_eq_ok fun p hp => returns_numbered (h p hp)
  obtain ⟨htasks, htasksRead⟩ := Returns.list hall
  obtain ⟨hname, hnameRead⟩ := returns_text b.name
  refine ⟨_, by rw [save, ofBatch, hjs]; rfl, ?_⟩
  rw [textual_arr] at htasks htasksRead
  have hnull : textual null = null := rfl
  simp only [Returns, under, textual_obj, textual_arr, map_cons, map_nil, hnull]
  constructor
  · simpa [every, haveAll, hname] using htasks
  · rw [← htasksRead, asList]
    cases hread : (js.map textual).mapM (toNumbered (toRemoteTask [])) <;>
      simp [load, toBatch, within, Json.getD, get?, items, lookup_cons, hnameRead, hread, Except.map]

/-- **A batch in the first file format** of tasks over mock services. It can be written, and the text
of the file is that of the value which was written. If the only parameter of some task is under the
key of an object, reading it fails. Else it is read with its name, the same numbers in the same
order, and under each its task, but with texts in place of the decimals of its metadata. -/
theorem load_of_save (b : RemoteBatch Backend) (h : ∀ p ∈ b.tasks, Kept p.2) :
    ∃ j, save b = .ok j ∧ (∀ rule, parse? rule j.text = some j) ∧
      ((∃ p ∈ b.tasks, Misread p.2.metadata) → load [] j = .error .type) ∧
      ((∀ p ∈ b.tasks, ¬Misread p.2.metadata) →
        load [] j = .ok ⟨b.tasks.map fun p => (p.1, worded p.2), b.name⟩) := by
  obtain ⟨j, hj, hworded, hread⟩ := returns_batch h
  refine ⟨textual j, hj, fun rule => ?_, ?_, ?_⟩
  · have hreadable : (textual j).isReadableBy rule := every_mono (by simp) (fun _ _ => rfl) hworded
    rw [parse?_text _ hreadable, reread_of_isWorded hworded]
  · rintro ⟨p, hp, hmisread⟩
    have hone : ∀ p, (∃ q, rereadNumbered p = .ok q) ∨ rereadNumbered p = .error .type := by
      intro p
      unfold rereadNumbered
      split <;> simp
    rw [hread, Outcome.mapM_eq_error (fun p _ => hone p) ⟨p, hp, if_pos hmisread⟩]
    rfl
  · intro hnone
    have hall : b.tasks.mapM rereadNumbered = .ok _ :=
      Outcome.mapM_eq_ok fun p hp => if_neg (hnone p hp)
    rw [hread, hall]
    rfl

def fadingTask (name : String) : RemoteTask Backend where
  family := .queue
  id := none
  service := .mock {}
  spec := fadingSpec
  metadata := [(name, .number (.decimal 1))]

/-- The parameter comes back as a text. -/
theorem load_of_save_fadingTask : ∃ j, save ⟨[(0, fadingTask "rate")], none⟩ = .ok j ∧
    load [] j = .ok ⟨[(0, { fadingTask "rate" with metadata := [("rate", .text "1")] })], none⟩ := by
  have hkept : ∀ p ∈ [((0 : Int), fadingTask "rate")], Kept p.2 :=
    forall_mem_singleton.mpr ⟨rfl, ⟨_, rfl⟩, rfl, rfl, nodup_singleton _, by decide⟩
  obtain ⟨j, hj, -, -, hread⟩ := load_of_save ⟨_, none⟩ hkept
  exact ⟨j, hj, hread (by decide)⟩

/-- Under the name of the results it does not come back at all. -/
theorem load_of_save_misread :
    (save ⟨[(0, fadingTask "task_result_ir")], none⟩ >>= load []) = .error .type := by
  rfl

end Legacy

end AtomArray
