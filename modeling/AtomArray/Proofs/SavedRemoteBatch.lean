import AtomArray.Proofs.SavedBatch
import AtomArray.Proofs.TaskLifeCycle

/-!
Using a saved batch of remote tasks again.

A batch of tasks for a queue can be written if the metadata of its tasks can, and then it is read
back with its name and its tasks, except for the service, of which the plain record of its public
settings is left. A report has the same rows, but whatever asks the service fails, and the batch
that was read cannot be written again (`RemoteBatch.batch_reloads_without_services`).
-/

namespace AtomArray

open List Document RemoteTask Json TaskSpec

/-! ### Tasks whose service is a document -/

namespace RemoteTask

variable {δ : Type}

def asDocument (t : RemoteTask Document) : Document :=
  .object (match t.family with | .queue => .queueTask | .cloud => .cloudTask) [
    ("task_id", optionalText t.id), ("backend", t.service), ("task_ir", .spec t.spec),
    ("metadata", envDocument t.metadata),
    ("parallel_decoder", (t.decoder.map Document.decoder).getD .null),
    ("task_result_ir", (t.results.map Document.results).getD .null)]

/-- Is the task one for a queue, and can what is written of it be read? -/
def isFormed (t : RemoteTask Backend) : Bool :=
  t.family = .queue && t.spec.isPlain && (Param.record t.metadata).isFormed &&
    t.decoder.all Decoder.isFormed

def isSavable (t : RemoteTask δ) : Bool := (Param.record t.metadata).isSavable

/-- The task as it is read back. Its service is the plain record of its public settings. -/
def reloaded (t : RemoteTask Backend) : RemoteTask Document where
  family := t.family
  id := t.id
  service := t.service.publicRecord.document
  spec := t.spec.reread
  metadata := Param.rereadMembers t.metadata
  decoder := t.decoder
  results := t.results

end RemoteTask

namespace Document

variable {α : Type} (read : Json → Outcome α)

theorem asRecord_document (ms : Members) :
    asRecord read (obj ms).document = read (.obj ms) := by
  conv_rhs => rw [← plain_document (.obj ms)]
  rfl

theorem asOptionalRecord_document (wrap : α → Document)
    (m : String × Json) (ms : Members) :
    asOptionalRecord read wrap (obj (m :: ms)).document =
      (read (.obj (m :: ms))).map wrap := by
  have htruthy : (obj (m :: ms)).document.isTruthy := rfl
  rw [asOptionalRecord, htruthy, asRecord_document]
  rfl

/-- An optional part that is written as a record is read back from it. -/
theorem savedAs_optionalRecord (wrap : α → Document) {record : α → Json} {read : Json → Outcome α}
    {o : Option α} (hsave : ∀ a, optionalRecord (wrap a) = .ok (record a))
    (hverbal : ∀ a, (record a).isVerbal) (hobj : ∀ a, ∃ m ms, record a = .obj (m :: ms))
    (hread : ∀ a ∈ o, read (record a) = .ok a) : ∃ d,
      SavedAs (optionalRecord ((o.map wrap).getD null)) true true d ∧
      asOptionalRecord read wrap d = .ok ((o.map wrap).getD null) := by
  cases o with
  | none => exact ⟨null, savedAs_ok rfl rfl, rfl⟩
  | some a =>
    refine ⟨(record a).document, hsave a ▸ savedAs_verbal (hverbal a), ?_⟩
    have hread := hread a rfl
    obtain ⟨m, ms, hrecord⟩ := hobj a
    rw [hrecord] at hread ⊢
    rw [asOptionalRecord_document, hread]
    rfl

theorem reloaded_optional (wrap : α → Document) (h : ∀ a, (wrap a).reloaded = wrap a)
    (o : Option α) : ((o.map wrap).getD null).reloaded = (o.map wrap).getD null := by
  cases o with
  | none => rfl
  | some a => exact h a

theorem buildRemoteTask_queue {i b s m d d' r r' : Document} {spec' : TaskSpec Quantity}
    (hspec : asRecord ofRecord s = .ok spec')
    (hresults : asOptionalRecord TaskResults.ofRecord results r = .ok r')
    (hdecoder : asOptionalRecord Decoder.ofRecord decoder d = .ok d') :
    buildRemoteTask .queueTask [("task_id", i), ("backend", b), ("task_ir", s), ("metadata", m),
        ("parallel_decoder", d), ("task_result_ir", r)] =
      .ok (object .queueTask [("task_id", i), ("backend", b), ("task_ir", .spec spec'),
        ("metadata", m), ("parallel_decoder", d'), ("task_result_ir", r')]) := by
  have hconstruct : construct .queueTask [("task_id", i), ("backend", b), ("task_ir", .spec spec'),
      ("metadata", m), ("parallel_decoder", d'), ("task_result_ir", r')] = .ok _ :=
    construct_eq_ok rfl
  simpa [buildRemoteTask, need, put, Json.insert, lookup_cons, hspec, hresults, hdecoder]
    using hconstruct

theorem build_queueTask (given : Given) :
    build .queueTask (dict (given.map fun g => (.text g.1, g.2))) =
      buildRemoteTask .queueTask given := by
  simp only [build, given?_dict]

end Document

variable {t : RemoteTask Backend}

namespace RemoteTask

theorem exists_specRecord (s : TaskSpec Quantity) :
    ∃ ms, s.record.withoutNulls.reread = .obj ms := by
  rw [withoutNulls_record]
  exact ⟨_, rfl⟩

theorem reloaded_metadata (t : RemoteTask Backend) :
    (envDocument t.metadata).reloaded = envDocument t.reloaded.metadata :=
  (Param.record t.metadata).document_reread.symm

theorem reloaded_document (t : RemoteTask Backend) :
    t.document.reloaded = t.reloaded.asDocument := by
  have hdecoder := reloaded_optional .decoder (fun _ => rfl) t.decoder
  have hresults := reloaded_optional .results (fun _ => rfl) t.results
  simp only [document, asDocument, Document.reloaded, Document.reloadedParts,
    reloaded_optionalText, reloaded_metadata, hdecoder, hresults]
  rfl

/-- What becomes of a task: it is read back from what its parts were written as, without its
service. -/
theorem saved_document (h : t.isFormed) : t.document.Saved ⟨t.isSavable, true, false⟩ := by
  simp only [isFormed, Bool.and_eq_true, decide_eq_true_eq] at h
  obtain ⟨⟨⟨hfamily, hspec⟩, hmetadata⟩, hdecoder⟩ := h
  have htidy := isTidy_record hspec
  obtain ⟨dd, hsaveDecoder, hreadDecoder⟩ :=
    savedAs_optionalRecord .decoder (o := t.decoder) (fun _ => rfl) Decoder.isVerbal_record
      (fun _ => ⟨_, _, rfl⟩) fun d hd => Decoder.ofRecord_record (by
        rw [hd] at hdecoder
        exact hdecoder)
  obtain ⟨dr, hsaveResults, hreadResults⟩ :=
    savedAs_optionalRecord .results (o := t.results) (fun _ => rfl)
      TaskResults.isVerbal_record (fun _ => ⟨_, _, rfl⟩) fun r _ => r.ofRecord_record
  have hread : Document.asRecord ofRecord t.spec.record.withoutNulls.reread.document =
      .ok t.spec.reread := by
    have hread := ofRecord_reread hspec
    obtain ⟨ms, hms⟩ := exists_specRecord t.spec
    rw [hms] at hread ⊢
    rw [asRecord_document, hread]
  have hparts : Document.PartsSaved .queueTask
      [("task_id", optionalText t.id), ("backend", .backend t.service), ("task_ir", .spec t.spec),
        ("metadata", envDocument t.metadata),
        ("parallel_decoder", (t.decoder.map Document.decoder).getD .null),
        ("task_result_ir", (t.results.map Document.results).getD .null)]
      [.unchanged, .unchanged, .unchanged, (Param.record t.metadata).fate, .unchanged, .unchanged]
      [("task_id", (optionalText t.id).reloaded), ("backend", t.reloaded.service),
        ("task_ir", t.spec.record.withoutNulls.reread.document),
        ("metadata", (envDocument t.metadata).reloaded), ("parallel_decoder", dd),
        ("task_result_ir", dr)] :=
    .cons rfl (saved_optionalText t.id) (.cons rfl (savedAs_verbal t.service.isVerbal_publicRecord)
        (.cons rfl (savedAs_ok (isReadable_of_isTidy htidy) (load_reread htidy))
          (.cons rfl (Param.hasFate_document hmetadata).saved
            (.cons rfl hsaveDecoder (.cons rfl hsaveResults .nil)))))
  have hkeys : keysTidy ["task_id", "backend", "task_ir", "metadata", "parallel_decoder",
    "task_result_ir"] := by decide
  have hsaved := hparts.savedAs (r := true) hkeys fun _ =>
    (build_queueTask _).trans (buildRemoteTask_queue hread hreadResults hreadDecoder)
  have hfamily' : t.reloaded.family = .queue := hfamily
  rw [reloaded_optionalText, reloaded_metadata] at hsaved
  rw [Document.Saved, reloaded_document, document, asDocument, hfamily, hfamily']
  simp [Fate.and, Fate.unchanged, Param.fate] at hsaved
  exact hsaved

theorem save_asDocument {t : RemoteTask Document} {ms : List (DocumentKey × Document)}
    (hfamily : t.family = .queue) (hservice : t.service = .dict ms) :
    t.asDocument.save = .error .part := by
  have hid : ∃ j, Document.savePart .queueTask "task_id" (optionalText t.id) = .ok j := by
    cases t.id <;> exact ⟨_, rfl⟩
  have hbackend : Document.savePart .queueTask "backend" (.dict ms) = .error .part := rfl
  obtain ⟨j, hj⟩ := hid
  rw [asDocument, hfamily, hservice]
  simp [Document.save, saveParts_cons, Document.isDropped, hj, hbackend]

end RemoteTask

namespace RemoteBatch

def asDocument (b : RemoteBatch Document) : Document :=
  Document.batch .remoteBatch RemoteTask.asDocument b.tasks b.name

/-- Do the tasks have distinct numbers, and can what is written of each be read? -/
def isFormed (b : RemoteBatch Backend) : Bool :=
  decide (b.tasks.map Prod.fst).Nodup && b.tasks.all fun p => p.2.isFormed

def isSavable {δ : Type} (b : RemoteBatch δ) : Bool := b.tasks.all fun p => p.2.isSavable

def reloaded (b : RemoteBatch Backend) : RemoteBatch Document where
  tasks := b.tasks.map fun p => (p.1, p.2.reloaded)
  name := b.name

variable {b : RemoteBatch Backend}

theorem reloaded_document (b : RemoteBatch Backend) : b.document.reloaded = b.reloaded.asDocument :=
  reloaded_batch RemoteTask.reloaded_document .remoteBatch b.tasks b.name

/-- What becomes of a batch: it is written and read task by task. -/
theorem dump_document (h : b.isFormed) :
    b.document.dump.isOk = b.isSavable ∧ (b.isSavable →
      ∃ text, b.document.dump = .ok text ∧ Document.parse text = .ok b.reloaded.asDocument) := by
  rw [isFormed, Bool.and_eq_true, decide_eq_true_eq, all_eq_true] at h
  have hsaved : b.document.Saved _ :=
    saved_batch (g := fun t => ⟨t.isSavable, true, false⟩) rfl h.1
      (fun p hp => saved_document (h.2 p hp)) b.name
  obtain ⟨hdump, hread⟩ := hsaved.dump
  have hreadable : (Fate.all (b.tasks.map fun p => ⟨p.2.isSavable, true, false⟩)).readable := by
    simp [Fate.readable_all]
  rw [Fate.written_all, all_map] at hdump hread
  refine ⟨hdump, fun hs => ?_⟩
  obtain ⟨text, htext, hparse⟩ := hread hs
  rw [hreadable] at hparse
  exact ⟨text, htext, hparse.trans (congrArg _ b.reloaded_document)⟩

/-- A batch that was read cannot be written again, unless it has no tasks. -/
theorem dump_asDocument (h : b.isFormed) (hne : b.tasks ≠ []) :
    b.reloaded.asDocument.dump = .error .part := by
  obtain ⟨p, ps, hps⟩ := exists_cons_of_ne_nil hne
  rw [isFormed, Bool.and_eq_true, all_eq_true] at h
  have hp := h.2 p (hps ▸ mem_cons_self)
  simp only [RemoteTask.isFormed, Bool.and_eq_true, decide_eq_true_eq] at hp
  have hsave : p.2.reloaded.asDocument.save = .error .part := by
    obtain ⟨ms, hms⟩ : ∃ ms, p.2.service.publicRecord = .obj ms := by
      cases p.2.service <;> exact ⟨_, rfl⟩
    have hservice : p.2.reloaded.service = .dict (memberDocuments ms) := by
      rw [RemoteTask.reloaded, hms, Json.document]
    exact RemoteTask.save_asDocument hp.1.1.1 hservice
  have htasks : (numberedDocument RemoteTask.asDocument b.reloaded.tasks).save = .error .part := by
    simp [numberedDocument, reloaded, hps, Document.save, Document.saveItems, hsave]
  have hsource : Document.savePart .remoteBatch "source" .null = .ok .null := rfl
  have hpart : Document.savePart .remoteBatch "tasks"
      (numberedDocument RemoteTask.asDocument b.reloaded.tasks) = .error .part := htasks
  simp [asDocument, Document.batch, Document.dump, Document.save, saveParts_cons,
    Document.isDropped, hsource, hpart]

end RemoteBatch

/-! ### Reports -/

theorem Geometry.rows_congr {g g' : Geometry} (hfilling : g.filling = g'.filling)
    (hdecoder : g.decoder = g'.decoder) (k : Int) (r : TaskResults) : g.rows k r = g'.rows k r := by
  obtain ⟨sites, filling, decoder⟩ := g
  obtain ⟨sites', filling', decoder'⟩ := g'
  obtain rfl : filling = filling' := hfilling
  obtain rfl : decoder = decoder' := hdecoder
  rfl

theorem RemoteBatch.report_reloaded (b : RemoteBatch Backend) :
    (b.reloaded.report.map fun r => (r.rows, r.name)) = b.report.map fun r => (r.rows, r.name) := by
  have hshown : b.reloaded.shown = b.shown.map fun x => (x.1, x.2.1.reloaded, x.2.2) := by
    unfold shown reloaded
    rw [filterMap_map, map_filterMap]
    refine filterMap_congr fun p _ => ?_
    change (reported? p.2).map _ = ((reported? p.2).map _).map _
    rw [Option.map_map]
    rfl
  have hrows : (b.reloaded.shown.mapM fun x => x.2.1.geometry.rows x.1 x.2.2) =
      b.shown.mapM fun x => x.2.1.geometry.rows x.1 x.2.2 := by
    rw [hshown, mapM_map]
    refine congrArg (fun f => b.shown.mapM f) (funext fun x => ?_)
    exact Geometry.rows_congr rfl rfl x.1 x.2.2
  unfold report
  rw [hrows]
  cases b.shown.mapM fun x => x.2.1.geometry.rows x.1 x.2.2 <;> rfl

/-! ### Services -/

/-- What a document offers as a service. A plain record has no operations. -/
def Document.serving {σ : Type} (serve : Backend → Service σ) : Document → Service σ
  | .backend b => serve b
  | _ => ⟨fun _ => throw .part, fun _ => throw .part, fun _ => throw .part, fun _ => throw .part,
    fun _ => throw .part⟩

namespace RemoteTask

variable {σ : Type} (serve : Backend → Service σ) {t : RemoteTask Document} {id : String}
  {ms : List (DocumentKey × Document)}

theorem run_pull_record (hid : t.id = some id) (hservice : t.service = .dict ms) (s : σ) :
    (pull (Document.serving serve)).run (t, s) = (.error .part, t, s) := by
  unfold pull
  rw [TaskAction.run_task_bind]
  simp only [hid, hservice, Document.serving]
  rfl

theorem run_status_record (hid : t.id = some id) (hservice : t.service = .dict ms) (s : σ) :
    (status (Document.serving serve)).run (t, s) = (.error .part, t, s) := by
  unfold status
  rw [TaskAction.run_task_bind]
  simp only [hid, hservice, Document.serving]
  rfl

theorem run_fetch_record {r : TaskResults} (hid : t.id = some id) (hservice : t.service = .dict ms)
    (hresults : t.results = some r) (hsubmitted : r.status ≠ .unsubmitted)
    (hopen : r.status.isFinal = false) (s : σ) :
    (fetch (Document.serving serve)).run (t, s) = (.error .part, t, s) := by
  unfold fetch
  rw [TaskAction.run_task_bind]
  simp only [hresults, hsubmitted, hopen, if_false, Bool.false_eq_true]
  rw [Session.run_bind, run_status_record serve hid hservice]

end RemoteTask

/-! ### The batch that is read -/

/-- What a task that was read has in common with the one that was written: all but the service, of
which the record of the public settings is left. The metadata are equal exactly if they hold no
binary number that differs from the decimal that it is written as. -/
structure RemoteTask.KeptAs (t : RemoteTask Backend) (t' : RemoteTask Document) : Prop where
  family : t'.family = t.family
  id : t'.id = t.id
  spec : t.spec.same t'.spec
  metadata : (envDocument t.metadata).same (envDocument t'.metadata) =
    (Param.record t.metadata).isExact
  decoder : t'.decoder = t.decoder
  results : t'.results = t.results
  settings : t'.service.plain = t.service.publicRecord
  record : ∃ ms, t'.service = .dict ms

theorem RemoteTask.keptAs_reloaded (h : t.isFormed) (hs : t.isSavable) :
    t.KeptAs t.reloaded := by
  simp only [isFormed, Bool.and_eq_true, decide_eq_true_eq] at h
  obtain ⟨⟨⟨-, hspec⟩, hmetadata⟩, -⟩ := h
  refine ⟨rfl, rfl, same_reread hspec, ?_, rfl, rfl, plain_document _, ?_⟩
  · rw [← reloaded_metadata]
    exact (Param.hasFate_document hmetadata).same hs rfl
  · rw [reloaded]
    cases t.service <;> exact ⟨_, rfl⟩

/-- **A saved batch of remote tasks.** Tasks for queues under distinct numbers can be written
exactly if their metadata can. The batch that is then read has the same name, the same numbers in
the same order, and tasks that are kept in all but their services; a report has the same rows. But
no service is left: a batch that was read and has tasks cannot be written again, and whatever asks
for the results or the status of a task fails. -/
theorem RemoteBatch.batch_reloads_without_services {σ : Type} (serve : Backend → Service σ)
    (b : RemoteBatch Backend) (h : b.isFormed = true) :
    b.document.dump.isOk = b.isSavable ∧
    (b.isSavable = true → ∃ (text : String) (b' : RemoteBatch Document),
      b.document.dump = .ok text ∧ Document.parse text = .ok b'.asDocument ∧ b'.name = b.name ∧
      List.Forall₂ (fun p q => q.1 = p.1 ∧ p.2.KeptAs q.2) b.tasks b'.tasks ∧
      (b'.report.map fun r => (r.rows, r.name)) = (b.report.map fun r => (r.rows, r.name)) ∧
      (b.tasks ≠ [] → b'.asDocument.dump = .error .part) ∧
      ∀ k t s, (k, t) ∈ b'.tasks → t.id.isSome = true →
        (RemoteTask.pull (Document.serving serve)).run (t, s) = (.error .part, t, s) ∧
        ∀ r, t.results = some r → r.status ≠ .unsubmitted → r.status.isFinal = false →
          (RemoteTask.fetch (Document.serving serve)).run (t, s) = (.error .part, t, s)) := by
  obtain ⟨hdump, hread⟩ := dump_document h
  refine ⟨hdump, fun hs => ?_⟩
  obtain ⟨text, htext, hparse⟩ := hread hs
  have htasks := h
  rw [isFormed, Bool.and_eq_true, List.all_eq_true] at htasks
  rw [isSavable, List.all_eq_true] at hs
  refine ⟨text, b.reloaded, htext, hparse, rfl, ?_, b.report_reloaded, dump_asDocument h, ?_⟩
  · rw [reloaded, List.forall₂_map_right_iff, List.forall₂_same]
    exact fun p hp => ⟨rfl, keptAs_reloaded (htasks.2 p hp) (hs p hp)⟩
  · intro k t s hmem hid
    obtain ⟨p, hp, heq⟩ := List.mem_map.mp hmem
    cases heq
    obtain ⟨ms, hms⟩ := (keptAs_reloaded (htasks.2 p hp) (hs p hp)).record
    obtain ⟨id, hid⟩ := Option.isSome_iff_exists.mp hid
    exact ⟨run_pull_record serve hid hms s, fun r hr hsubmitted hopen =>
      run_fetch_record serve hid hms hr hsubmitted hopen s⟩

/-- One atom under a decreasing detuning. -/
def fadingSpec : TaskSpec Quantity where
  shots := 1
  sites := [(0, .decimal (.finite false 5 (-6)))]
  filling := [1]
  amplitude := ⟨[0, .decimal (.finite false 1 (-6))], [0, 0]⟩
  phase := ⟨[0, .decimal (.finite false 1 (-6))], [0, 0]⟩
  detuning := ⟨[0, .decimal (.finite false 1 (-6))], [15, 0]⟩
  localDetuning := none

/-- A task that was handed in and has its shot, and one that waits, under numbers that are not in
order. The first has a binary number among its metadata. -/
def startedBatch : RemoteBatch Backend where
  name := some "fading"
  tasks := [
    (7, { family := .queue, id := some "first", service := .mock {}, spec := fadingSpec
          metadata := [("rate", .number (.binary 0.1))]
          decoder := some ⟨[⟨(0, 0), 0, 0⟩], 1, 1⟩
          results := some ⟨.completed, [⟨.completed, [true], [false]⟩]⟩ }),
    (3, { family := .queue, id := some "second", service := .mock {}, spec := fadingSpec
          metadata := [("rate", .number (.decimal (.finite false 1 (-1))))]
          results := some ⟨.enqueued, []⟩ })]

/-- The batch is read back under its numbers, without services, and with another number among its
metadata. -/
theorem startedBatch_reloads_without_services :
    startedBatch.isFormed = true ∧ startedBatch.isSavable = true ∧
    ∃ (text : String) (b' : RemoteBatch Document), startedBatch.document.dump = .ok text ∧
      Document.parse text = .ok b'.asDocument ∧ b'.tasks.map Prod.fst = [7, 3] ∧
      (b'.tasks.map fun p => p.2.id) = [some "first", some "second"] ∧
      b'.asDocument.dump = .error .part ∧
      ∃ k t t', (k, t) ∈ startedBatch.tasks ∧ (k, t') ∈ b'.tasks ∧
        (envDocument t.metadata).same (envDocument t'.metadata) = false := by
  have hformed : startedBatch.isFormed = true := by decide
  have hsavable : startedBatch.isSavable = true := by decide
  obtain ⟨-, hreload⟩ := RemoteBatch.batch_reloads_without_services
    (fun _ => TaskCall.promptService) startedBatch hformed
  obtain ⟨text, b', hdump, hparse, -, htasks, -, hagain, -⟩ := hreload hsavable
  refine ⟨hformed, hsavable, text, b', hdump, hparse, ?_⟩
  obtain ⟨tasks, name⟩ := b'
  obtain _ | ⟨⟨hseven, hfirst⟩, _ | ⟨⟨hthree, hsecond⟩, _ | _⟩⟩ := htasks
  rename_i p q
  replace hseven : p.1 = 7 := hseven
  have hexact : (Param.record [("rate", .number (.binary 0.1))]).isExact = false := by decide
  refine ⟨?_, ?_, hagain (by decide), 7, _, p.2, List.mem_cons_self, ?_, ?_⟩
  · rw [List.map_cons, List.map_cons, hseven, hthree]
    rfl
  · rw [List.map_cons, List.map_cons, hfirst.id, hsecond.id]
    rfl
  · rw [← hseven]
    exact List.mem_cons_self
  · rw [hfirst.metadata]
    exact hexact

/-- **A batch that was read cannot be used like the one that was written**: the one here is written,
and what is read from its text is not. -/
theorem startedBatch_not_written_again : ∃ (text : String) (d : Document),
    startedBatch.document.dump = .ok text ∧ Document.parse text = .ok d ∧
      d.dump = .error .part := by
  have hformed : startedBatch.isFormed = true := by decide
  obtain ⟨text, hdump, hparse⟩ := (RemoteBatch.dump_document hformed).2 (by decide)
  exact ⟨text, _, hdump, hparse, RemoteBatch.dump_asDocument hformed (by decide)⟩

end AtomArray
