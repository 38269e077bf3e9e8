import AtomArray.Saved.Document

/-!
Handing in a batch. Every task is tried; if some fail, the failures and the batch are written to
files, and unless failures are to be ignored they are reported as one fault.
-/

namespace AtomArray

/-- A file that was left behind, without a text if it could not be written to its end. -/
structure LeftFile where
  name : String
  text : Option String
  deriving DecidableEq

/-- Where files are left: which ones can be opened, and what is written about a batch. -/
structure Archive (δ : Type) where
  opens : String → Outcome Unit
  text : RemoteBatch δ → Outcome String

/-- A folder without folders in it. `backend` says what is written about a service. -/
def Archive.folder {δ : Type} (backend : δ → Backend) : Archive δ where
  opens name := if name.contains '/' then .error (.plain .missingFile) else .ok ()
  text b := (b.withServices backend).document.dump

/-- A batch in use: the batch, the state of its services, and the files that were left. -/
structure BatchRun (δ σ : Type) where
  batch : RemoteBatch δ
  world : σ
  files : List LeftFile := []

namespace BatchRun

variable {δ σ : Type}

def apply (f : RemoteBatch δ → σ → Outcome Unit × RemoteBatch δ × σ) (r : BatchRun δ σ) :
    Outcome Unit × BatchRun δ σ :=
  let (o, batch, world) := f r.batch r.world
  (o, { r with batch, world })

variable (archive : Archive δ)

/-- Writes a file. It is there as soon as it is open. -/
def write (name : String) (text : Outcome String) (r : BatchRun δ σ) :
    Outcome Unit × BatchRun δ σ :=
  match archive.opens name with
  | .error f => (.error f, r)
  | .ok () => (text.map fun _ => (), { r with files := r.files ++ [⟨name, text.toOption⟩] })

/-- Reports failures. The failures and the batch are written first. -/
def reportFailures (ignore : Bool) (failures : Numbered Fault) (r : BatchRun δ σ) :
    Outcome Unit × BatchRun δ σ :=
  if failures.isEmpty then (.ok (), r)
  else
    let errors := RemoteBatch.errorsOf failures
    match r.write archive (r.batch.fileName "errors") errors.document.dump with
    | (.error f, r) => (.error f, r)
    | (.ok (), r) =>
      match r.write archive (r.batch.fileName "future") (archive.text r.batch) with
      | (.error f, r) => (.error f, r)
      | (.ok (), r) =>
        if ignore then (.ok (), r) else (.error (.submissionsFailed errors.text), r)

def submit (shuffle : Shuffle) (f : TaskAction δ σ Unit) (ignore : Bool) (r : BatchRun δ σ) :
    Outcome Unit × BatchRun δ σ :=
  let (failures, batch, world) := r.batch.submit shuffle f r.world
  reportFailures archive ignore failures { r with batch, world }

end BatchRun

end AtomArray
