import AtomArray.Proofs.SavedProgram

/-!
Reading saved batches of emulator tasks back.

The results of the emulator have no written form, so that a task that was run cannot be saved. A
batch of tasks that were not run is read back if all waveforms are. The program of each is built
again from its parts, but where it has atoms it is another one than was written
(`LocalBatch.batch_reloads_with_other_programs`).
-/

namespace AtomArray

open Outcome Document List Param Fate

/-! ### Tasks -/

/-- A task for the emulator, with a program of some sort. -/
structure EmulatorTask (π : Type) where
  shots : Int
  program : π
  metadata : Env Quantity
  results : Option TaskResults := none

namespace EmulatorTask

variable (t : EmulatorTask (EmulatorProgram Quantity))

def task : LocalTask where
  work := .emulator t.shots t.program
  metadata := t.metadata
  results := t.results

def asDocument (t : EmulatorTask Document) : Document :=
  .object .emulatorTask [("shots", .int t.shots), ("emulator_ir", t.program),
    ("metadata", envDocument t.metadata), ("compile_cache", .null),
    ("task_result_ir", (t.results.map Document.results).getD .null)]

def isFormed (t : EmulatorTask (EmulatorProgram Quantity)) : Bool :=
  t.program.isFormed && (Param.record t.metadata).isFormed

def isSavable : Bool :=
  t.program.fate.written && (Param.record t.metadata).isSavable && t.results.isNone

/-- Can the program be read if it was written? -/
def isReadable : Bool := t.program.fate.readable

def reloaded (t : EmulatorTask (EmulatorProgram Quantity)) : EmulatorTask Document where
  shots := t.shots
  program := t.program.document.reloaded
  metadata := Param.rereadMembers t.metadata
  results := t.results

end EmulatorTask

open EmulatorTask

namespace Document

theorem build_emulatorTask (shots program metadata results : Document) :
    build .emulatorTask (dict [(.text "shots", shots), (.text "emulator_ir", program),
      (.text "metadata", metadata), (.text "task_result_ir", results)]) =
    .ok (object .emulatorTask [("shots", shots), ("emulator_ir", program), ("metadata", metadata),
      ("compile_cache", null), ("task_result_ir", results)]) := rfl

end Document

namespace EmulatorTask

variable {t : EmulatorTask (EmulatorProgram Quantity)}

theorem document_task :
    t.task.document = asDocument ⟨t.shots, t.program.document, t.metadata, t.results⟩ := rfl

theorem reloaded_document (t : EmulatorTask (EmulatorProgram Quantity)) :
    t.task.document.reloaded = t.reloaded.asDocument := by
  have hmetadata : (envDocument t.metadata).reloaded = envDocument t.reloaded.metadata :=
    ((record t.metadata).document_reread).symm
  have hresults : ((t.results.map Document.results).getD .null).reloaded =
      (t.results.map Document.results).getD .null := by
    cases t.results <;> rfl
  simp only [document_task, asDocument, Document.reloaded, Document.reloadedParts, hmetadata,
    hresults]
  rfl

/-- What becomes of a task: it can be written if it was not run, and its program decides whether it
can be read. What is compiled for it is not written. -/
theorem saved_document (h : t.isFormed) :
    t.task.document.Saved ⟨t.isSavable, t.isReadable, false⟩ := by
  rw [isFormed, Bool.and_eq_true] at h
  have hresults : ((t.results.map Document.results).getD .null).Saved
      ⟨t.results.isNone, true, true⟩ := by
    cases t.results with
    | none => exact saved_null
    | some r => exact ⟨.null, rfl, fun hw => by cases hw⟩
  have hparts : Document.PartsSaved .emulatorTask
      [("shots", .int t.shots), ("emulator_ir", t.program.document),
        ("metadata", envDocument t.metadata), ("compile_cache", .null),
        ("task_result_ir", (t.results.map Document.results).getD .null)]
      [.unchanged, t.program.fate, (record t.metadata).fate, ⟨t.results.isNone, true, true⟩]
      [("shots", .int t.shots), ("emulator_ir", t.program.document.reloaded),
        ("metadata", (envDocument t.metadata).reloaded),
        ("task_result_ir", ((t.results.map Document.results).getD .null).reloaded)] :=
    .cons rfl (saved_int t.shots) (.cons rfl (EmulatorProgram.hasFate_document h.1).saved
        (.cons rfl (hasFate_document h.2).saved (.dropped rfl (.cons rfl hresults .nil))))
  have hsaved := hparts.savedAs (r := true) rfl fun _ => build_emulatorTask _ _ _ _
  rw [written_all, readable_all] at hsaved
  have hwritten : t.isSavable = [unchanged, t.program.fate, (record t.metadata).fate,
      ⟨t.results.isNone, true, true⟩].all written := by
    simp [isSavable, fate, unchanged, Bool.and_assoc]
  have hreadable : t.isReadable = ([unchanged, t.program.fate, (record t.metadata).fate,
      ⟨t.results.isNone, true, true⟩].all readable && true) := by
    simp [isReadable, fate, unchanged]
  rw [Document.Saved, hwritten, hreadable]
  exact hsaved

end EmulatorTask

/-! ### Batches -/

variable (ts : Numbered (EmulatorTask (EmulatorProgram Quantity)))

def LocalBatch.ofEmulator (name : Option String) : LocalBatch where
  tasks := ts.map fun p => (p.1, p.2.task)
  name := name

theorem LocalBatch.document_ofEmulator (name : Option String) : (ofEmulator ts name).document =
      Document.batch .localBatch (fun t => t.task.document) ts name := by
  rw [document, Document.batch, ofEmulator, numberedDocument, numberedDocument, map_map]
  rfl

/-- What becomes of a batch: it is written and read task by task. -/
theorem LocalBatch.dump_ofEmulator (name : Option String)
    (hnumbers : (ts.map Prod.fst).Nodup) (h : ∀ p ∈ ts, p.2.isFormed) :
    (ofEmulator ts name).document.dump.isOk = (ts.all fun p => p.2.isSavable) ∧
      ((∀ p ∈ ts, p.2.isSavable) → ∃ text, (ofEmulator ts name).document.dump = .ok text ∧
        Answers (Document.parse text) (ts.all fun p => p.2.isReadable)
          (.batch .localBatch asDocument (ts.map fun p => (p.1, p.2.reloaded)) name)) := by
  have hsaved : (Document.batch .localBatch (fun t => t.task.document) ts name).Saved _ :=
    saved_batch (g := fun t => ⟨t.isSavable, t.isReadable, false⟩) rfl hnumbers
      (fun p hp => saved_document (h p hp)) name
  obtain ⟨hdump, hread⟩ := hsaved.dump
  rw [← Document.batch, reloaded_batch reloaded_document,
    ← document_ofEmulator, written_all, readable_all, all_map, all_map] at *
  exact ⟨hdump, fun hs => hread (all_eq_true.mpr hs)⟩

/-- What is left of a task that was written and read. All but the program is kept, up to binary
numbers among the metadata; the program is the one that was written only if nothing of it is read as
something else, and never if it has atoms. -/
structure EmulatorTask.KeptAs (t : EmulatorTask (EmulatorProgram Quantity))
    (u : EmulatorTask Document) : Prop where
  shots : u.shots = t.shots
  results : u.results = t.results
  metadata : (envDocument t.metadata).same (envDocument u.metadata) =
    (Param.record t.metadata).isExact
  program : u.program = t.program.document.reloaded
  same : t.program.document.same u.program = t.program.fate.kept
  differs : t.program.register.sites ≠ [] → t.program.document.same u.program = false

theorem EmulatorTask.keptAs_reloaded {t : EmulatorTask (EmulatorProgram Quantity)}
    (h : t.isFormed) (hs : t.isSavable) (hr : t.isReadable) :
    t.KeptAs t.reloaded := by
  rw [isFormed, Bool.and_eq_true] at h
  rw [isSavable, Bool.and_eq_true, Bool.and_eq_true] at hs
  have hsame : t.program.document.same t.reloaded.program = t.program.fate.kept :=
    (EmulatorProgram.hasFate_document h.1).same hs.1.1 hr
  have hmetadata := (hasFate_document h.2).same hs.1.2 rfl
  rw [← document_reread] at hmetadata
  exact {
    shots := rfl
    results := rfl
    metadata := hmetadata
    program := rfl
    same := hsame
    differs := fun hsites => hsame.trans (EmulatorProgram.kept_fate_of_sites hsites) }

/-- **A saved batch of emulator tasks.** Tasks under distinct numbers can be written exactly if all
of them can: none was run, all waveforms have saved forms, and all numbers are real. What was
written is read exactly if all waveforms are, and then the batch has the same name and the same
numbers in the same order. But a program with atoms is not the same as the one that was written. -/
theorem LocalBatch.batch_reloads_with_other_programs
    (ts : Numbered (EmulatorTask (EmulatorProgram Quantity))) (name : Option String)
    (hnumbers : (ts.map Prod.fst).Nodup) (h : ∀ p ∈ ts, p.2.isFormed = true) :
    (ofEmulator ts name).document.dump.isOk = (ts.all fun p => p.2.isSavable) ∧
    ((∀ p ∈ ts, p.2.isSavable = true) → ∃ text, (ofEmulator ts name).document.dump = .ok text ∧
      (Document.parse text).isOk = (ts.all fun p => p.2.isReadable) ∧
      ((∀ p ∈ ts, p.2.isReadable = true) → ∃ us : Numbered (EmulatorTask Document),
        Document.parse text = .ok (.batch .localBatch EmulatorTask.asDocument us name) ∧
        List.Forall₂ (fun p q => q.1 = p.1 ∧ p.2.KeptAs q.2) ts us)) := by
  obtain ⟨hdump, hread⟩ := dump_ofEmulator ts name hnumbers h
  refine ⟨hdump, fun hs => ?_⟩
  obtain ⟨text, htext, hparse⟩ := hread hs
  refine ⟨text, htext, hparse.isOk, fun hr => ?_⟩
  rw [all_eq_true.mpr hr] at hparse
  refine ⟨_, hparse, ?_⟩
  rw [forall₂_map_right_iff, forall₂_same]
  exact fun p hp => ⟨rfl, keptAs_reloaded (h p hp) (hs p hp) (hr p hp)⟩

/-- A short pulse on one atom. -/
def flashProgram : EmulatorProgram Quantity where
  register := ⟨.twoLevel, [(0, 0)], 0⟩
  duration := .decimal (.finite false 1 (-7))
  pulses := [(.rydberg, ⟨[⟨[(0, 1)], ⟨[],
    .constant (.lit 1) (.lit (.decimal (.finite false 1 (-7))))⟩⟩], []⟩)]

def idleProgram : EmulatorProgram Quantity := ⟨⟨.twoLevel, [], 0⟩, 1, []⟩

def flashTask : EmulatorTask (EmulatorProgram Quantity) where
  shots := 10
  program := flashProgram
  metadata := [("a", .number 1)]

/-- Two tasks under numbers that are not in order. -/
def flashAndIdle : Numbered (EmulatorTask (EmulatorProgram Quantity)) :=
  [(5, flashTask), (2, { shots := 10, program := idleProgram, metadata := [] })]

/-- The short pulse is read as another program, and nothing as itself. -/
theorem flashAndIdle_reloads_with_other_programs :
    (flashAndIdle.map Prod.fst).Nodup ∧ (∀ p ∈ flashAndIdle, p.2.isFormed = true) ∧
    ∃ (text : String) (us : Numbered (EmulatorTask Document)),
      (LocalBatch.ofEmulator flashAndIdle none).document.dump = .ok text ∧
      Document.parse text = .ok (.batch .localBatch EmulatorTask.asDocument us none) ∧
      us.map Prod.fst = [5, 2] ∧
      List.Forall₂ (fun q (kept : Bool) => ∃ p ∈ flashAndIdle, p.1 = q.1 ∧
        p.2.program.document.same q.2.program = kept) us [false, true] := by
  have hnumbers : (flashAndIdle.map Prod.fst).Nodup := by decide
  have hformed : ∀ p ∈ flashAndIdle, p.2.isFormed = true := by decide
  obtain ⟨-, hreload⟩ :=
    LocalBatch.batch_reloads_with_other_programs flashAndIdle none hnumbers hformed
  obtain ⟨text, hdump, -, hread⟩ := hreload (by decide)
  obtain ⟨us, hparse, hkept⟩ := hread (by decide)
  refine ⟨hnumbers, hformed, text, us, hdump, hparse, ?_⟩
  obtain _ | ⟨⟨hfive, hflash⟩, _ | ⟨⟨htwo, hidle⟩, _ | _⟩⟩ := hkept
  refine ⟨?_, .cons ⟨_, mem_cons_self, hfive.symm, ?_⟩
    (.cons ⟨_, mem_cons_of_mem _ mem_cons_self, htwo.symm, ?_⟩ .nil)⟩
  · rw [map_cons, map_cons, hfive, htwo]
    rfl
  · exact hflash.differs (by decide)
  · exact hidle.same

/-- **A saved program is read as another one**, and a task that was run is not saved. -/
theorem flashTask_not_kept : (∃ (text : String) (u : EmulatorTask Document),
      (LocalBatch.ofEmulator [(0, flashTask)] none).document.dump = .ok text ∧
      Document.parse text = .ok (.batch .localBatch EmulatorTask.asDocument [(0, u)] none) ∧
      flashProgram.document.same u.program = false) ∧
    (LocalBatch.ofEmulator [(0, { flashTask with results := some ⟨.completed, []⟩ })]
      none).document.dump = .error .type := by
  have hformed : flashTask.isFormed = true := by decide
  have hsavable : flashTask.isSavable = true := by decide
  have hreadable : flashTask.isReadable = true := by decide
  constructor
  · obtain ⟨-, hread⟩ := LocalBatch.dump_ofEmulator [(0, flashTask)] none (by simp)
      (by simpa using hformed)
    obtain ⟨text, hdump, hparse⟩ := hread (by simpa using hsavable)
    exact ⟨text, flashTask.reloaded, hdump, hparse,
      (keptAs_reloaded hformed hsavable hreadable).differs (by decide)⟩
  · rfl

end AtomArray
