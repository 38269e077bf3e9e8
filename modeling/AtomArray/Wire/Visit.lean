import AtomArray.Wire.Subject
import AtomArray.Wire.LocalRun

/-!
Values handed to the writers of saved forms, or to readers and objects that leave everything
undefined.
-/

namespace AtomArray.Wire

namespace Subject

def sortName : Subject → String
  | plain j =>
    match j with
    | .null => "NoneType"
    | .bool _ => "bool"
    | .int _ => "int"
    | .binary _ => "float"
    | .decimal _ => "Decimal"
    | .str _ => "str"
    | .arr _ => "list"
    | .obj _ => "dict"
  | s => String.ofList (s.described.toList.takeWhile (· ≠ '('))

def savedPart : Subject → Answer
  | waveform w => w.saved
  | modulation m => m.saved
  | location _ => .error .part
  | field f => f.saved
  | pulse p => p.saved
  | sequence s => s.saved
  | register a => a.saved
  | circuit c => c.saved
  | _ => .error (.plain .notImplemented)

def savedWaveform : Subject → Answer
  | waveform w => w.saved
  | _ => .error .value

def savedScalar : Subject → Answer
  | scalar e => .ok e.saved
  | interval i => .ok i.saved
  | s => .error (.unknownNode s.sortName)

def savedAny : Subject → Answer
  | scalar e => .ok e.saved
  | waveform w => w.saved
  | s@(modulation _) | s@anyModulation | s@(location _) | s@(field _) | s@(pulse _)
  | s@(sequence _) | s@(register _) | s@(circuit _) => s.savedPart
  | _ => .error .type

/-- Reading a value where nothing is defined. A value that is no place is written into the
explanation, which can fail first. -/
def unread (places : Bool) : Subject → Answer
  | site _ | register _ => .error (.plain .notImplemented)
  | s => do
    if places then
      let _ ← s.text
    throw (.plain .notImplemented)

def visited (visitor method : String) (s : Subject) : Answer :=
  match visitor, method with
  | "base", "visit" => s.unread false
  | "base_location", "visit" => s.unread true
  | "json", "visit" => s.savedPart
  | "json_waveform", "visit" => s.savedWaveform
  | "json_waveform", "default" =>
    match s with
    | waveform w => w.saved
    | _ => .error .part
  | "json_scalar", "visit" => s.savedScalar
  | "json_scalar", "default" =>
    match s with
    | scalar e => .ok e.saved
    | _ => .error .part
  | "encoder", "default" => s.savedAny
  | "encoder", "encode" =>
    match s with
    | plain j => .ok (.str j.text)
    | s => do return .str (← s.savedAny).text
  | "json", "visit_uniform" => .ok (.obj [("uniform", .obj [])])
  | _, _ =>
    if !method.startsWith "visit_" then .error .part
    else
      match visitor with
      | "base" | "base_location" => .error (.plain .notImplemented)
      | "json" => s.savedPart
      | "json_waveform" => s.savedWaveform
      | "json_scalar" => s.savedScalar
      | _ => .error .part

end Subject

def termSorts (term data : String) : List String := [term, data, "CompiledWaveform"]

def partSorts (p : EmulatorProgram Quantity) : List String :=
  "EmulatorProgram" :: "Register" :: p.pulses.flatMap fun (_, t) =>
    "Fields" :: (t.detuning.flatMap fun _ => termSorts "DetuningTerm" "DetuningOperatorData")
      ++ t.rabi.flatMap fun _ => termSorts "RabiTerm" "RabiOperatorData"

/-! ### Objects without a definition -/

/-- What a member of an object without a definition is. -/
inductive Member where
  /-- Takes a number of arguments and gives back a value. -/
  | method (arguments : Nat) (result : Answer)
  | value (v : Answer)

def Member.undefined (arguments : Nat) : Member :=
  .method arguments (.error (.plain .notImplemented))

def noGeometry (sort : String) : Fault :=
  .reported .notImplemented s!"{sort}._geometry() not implemented"

abbrev Interface := List (List String × Member)

def taskMembers (sort : String) : Interface :=
  [(["geometry"], .value (.error (noGeometry sort))),
    (["_geometry"], .method 0 (.error (noGeometry sort)))]

def serviceMembers : Interface :=
  [(["validate_task", "submit_task", "cancel_task", "task_results", "task_status"], .undefined 1)]

def members : String → Interface
  | "Task" => taskMembers "Task"
  | "RemoteTask" => [(["submit"], .undefined 1),
    (["validate", "result", "fetch", "status", "pull", "cancel", "_result_exists"], .undefined 0)]
    ++ taskMembers "RemoteTask"
  | "LocalTask" => (["result", "run"], .undefined 0) :: taskMembers "LocalTask"
  | "SubmissionBackend" => serviceMembers
  | "MockBackend" => [(["cancel_task"], .method 1 (.ok .null)),
    (["task_status"], .method 1 (.ok (.str TaskStatus.completed.name))),
    (["submit_task"], .method 1 (.error .part)),
    (["task_results"], .method 1 (.error (.plain .missingFile))),
    (["state_file"], .value (.ok (.str ".mock_state.txt"))),
    (["submission_error"], .value (.ok (.bool false)))] ++ serviceMembers
  | "PulseExpr" => [(["_get_data", "figure", "show"],
    .method 0 (.ok (.obj [("class", .str Kind.notImplemented.name)])))]
  | "SequenceExpr" => [(["_get_data", "figure", "show"], .undefined 0)]
  | "AtomArrangement" => [(["enumerate", "children"], .undefined 0),
    (["n_atoms", "n_sites", "n_vacant", "n_dims"], .value (.error (.plain .notImplemented))),
    (["print_node"], .method 0 (.ok (.str "AtomArrangement")))]
  | "BoundedBravais" => [
    (["n_atoms", "n_sites", "n_dims"], .value (.error (.plain .notImplemented))),
    (["print_node"], .method 0 (.ok (.str "AtomArrangement"))),
    (["cell_vectors", "cell_atoms", "children"], .undefined 0), (["coordinates"], .undefined 1),
    (["n_vacant"], .value (.ok (.int 0))), (["shape"], .value (.ok (.arr [.int 2])))]
  | "SiteFilling" => [(["print_node"], .method 0 (.ok (.str "filled"))),
    (["children"], .method 0 (.ok (.arr []))), (["name"], .value (.ok (.str "filled"))),
    (["value"], .value (.ok (.int 1)))]
  | "Cell" => [(["natoms"], .value (.ok (.int 2))), (["ndims"], .value (.ok (.int 3)))]
  | "AtomType" => [(["swap_state_at", "transition_state_at"], .undefined 4),
    (["is_state_at"], .undefined 3), (["is_rydberg_at"], .method 2 (.error .part))]
  | "Waveform" => [(["print_node"], .undefined 0), (["eval_decimal"], .undefined 1)]
  | "FieldName" => [(["print_node"], .method 0 (.ok (.str "FieldName"))),
    (["children"], .method 0 (.ok (.arr [])))]
  | "WaveformPrimitive" => [(["__bloqade_ir__"], .undefined 0)]
  | "SpatialModulation" => [(["_get_data"], .method 0 (.ok (.obj []))),
    (["figure", "__hash__"], .undefined 0)]
  | "SmoothingKernel" => [(["__call__"], .undefined 1)]
  | _ => []

def Member.result (m : Member) (arguments : Nat) : Answer :=
  match m with
  | .method n r => if n = arguments then r else .error .type
  | .value v => v

end AtomArray.Wire
