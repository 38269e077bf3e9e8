import AtomArray.Chain.Parse
import AtomArray.Hardware.Compile
import AtomArray.Emulator.Compile

/-!
The jobs of a program: one for each assignment of its batch, completed by the values that the
waveforms record under it. What was bound is the job's metadata.
-/

namespace AtomArray

variable {N : Type} [Arith N]

structure HardwareJob (N : Type) where
  spec : TaskSpec N
  metadata : Env N
  decoder : Option Decoder

structure EmulatorJob (N : Type) where
  shots : Int
  program : EmulatorProgram N
  metadata : Env N

namespace Routine

variable (r : Routine N)

/-- The circuit and the metadata of each assignment of the batch. -/
def boundCircuits (args : List (Param N)) : Outcome (List (Outcome (Circuit N × Env N))) := do
  let circuit ← r.circuit.assign r.params.fixed
  let points ← r.params.points args
  return points.map fun point => do
    let recorded ← circuit.scanRecords point
    return (← circuit.assign recorded, r.params.fixed.extend recorded)

def hardwareJobs (limits : Capabilities N) (shots : Int) (args : List (Param N)) :
    Outcome (List (HardwareJob N)) := do
  (← r.boundCircuits args).mapM fun bound => do
    let (circuit, metadata) ← bound
    let program ← HardwareProgram.ofCircuit [] (some limits) shots circuit
    let spec ← (← program.spec).discretize limits
    return ⟨spec, metadata, program.decoder⟩

/-- The jobs for the simulator of the cloud service. It has no limits, and takes one register
only. -/
def simulatorJobs (shots : Int) (args : List (Param N)) : Outcome (List (HardwareJob N)) := do
  if (← r.circuit.assign r.params.fixed).register matches .tiled _ then throw .parallelLocal
  (← r.boundCircuits args).mapM fun bound => do
    let (circuit, metadata) ← bound
    let program ← HardwareProgram.ofCircuit [] none shots circuit
    return ⟨← program.spec, metadata, program.decoder⟩

def emulatorJobs (radius : N) (shots : Int) (args : List (Param N)) :
    Outcome (List (EmulatorJob N)) := do
  (← r.boundCircuits args).mapM fun bound => do
    let (circuit, metadata) ← bound
    return ⟨shots, ← EmulatorProgram.ofCircuit [] radius false circuit, metadata⟩

end Routine

end AtomArray
