import AtomArray.Number.Decimal

/-!
Everything that can go wrong, as one type of causes. `Fault.kind` sorts them into the kinds a caller
can tell apart, and `Fault.message?` words those that are explained to the user; any other is a
plain fault of its kind.
-/

namespace AtomArray

/-- The kinds of fault that a caller can tell apart. -/
inductive Kind where
  | wrongValue
  | wrongType
  | missingKey
  | missingPart
  | outOfRange
  | notImplemented
  | invalidRecord
  | brokenPromise
  | undefinedOperation
  | divisionByZero
  | decimalOverflow
  | floatOverflow
  | floatDivision
  | malformedJson
  | missingFile
  | wrongArgument
  | scriptEnded
  | runtime
  | undefinedLocal
  | tooDeep
  | submission
  | apiFailure
  | apiNotFound
  | apiInvalidRequest
  | apiInvalidResponse
  | apiAuthentication
  | other (name : String)
  deriving DecidableEq

def Kind.name : Kind → String
  | wrongValue => "ValueError"
  | wrongType => "TypeError"
  | missingKey => "KeyError"
  | missingPart => "AttributeError"
  | outOfRange => "IndexError"
  | notImplemented => "NotImplementedError"
  | invalidRecord => "ValidationError"
  | brokenPromise => "AssertionError"
  | undefinedOperation => "InvalidOperation"
  | divisionByZero => "DivisionByZero"
  | decimalOverflow => "Overflow"
  | floatOverflow => "OverflowError"
  | floatDivision => "ZeroDivisionError"
  | malformedJson => "JSONDecodeError"
  | missingFile => "FileNotFoundError"
  | wrongArgument => "BeartypeError"
  | scriptEnded => "BadInput"
  | runtime => "RuntimeError"
  | undefinedLocal => "UnboundLocalError"
  | tooDeep => "RecursionError"
  | submission => "SubmissionException"
  | apiFailure => "QueueApiError"
  | apiNotFound => "NotFound"
  | apiInvalidRequest => "InvalidRequestError"
  | apiInvalidResponse => "InvalidResponseError"
  | apiAuthentication => "AuthenticationError"
  | other name => name

/-- Which piecewise series a waveform was being compiled to. -/
inductive SeriesKind where
  | linear
  | constant
  deriving DecidableEq

def SeriesKind.name : SeriesKind → String
  | linear => "linear"
  | constant => "constant"

inductive Fault where
  /-- A fault that its kind says all about. -/
  | plain (kind : Kind)
  /-- A fault of a given kind, explained by the party that reported it. -/
  | reported (kind : Kind) (text : String)
  -- scalar expressions
  | unassigned (name : String)
  | alreadyAssigned (name : String)
  | reassigned (name value : String)
  | sliceStartNegative (start : String)
  | sliceStopBeyond (duration stop : String)
  | sliceReversed (start stop : String)
  | sliceWithoutBounds
  | sliceWithStep
  | sliceStartNotScalar
  | sliceStopNotScalar
  | intervalWithoutBounds
  | waveformSliceWithoutBounds
  | notHandled (part handler : String)
  | unknownNode (name : String)
  -- waveforms
  | unknownAlignment (name : String)
  | unknownKernel (name : String)
  | openArguments
  | openKeywords
  | unsuitableDefault (name : String)
  | functionNotSaved
  | factoryLinearLengths
  | factoryConstantLengths
  | unequalLengths
  -- piecewise series
  | jump (size : String)
  | slopedLinear
  | slopedPolynomial
  | polynomialOrder (series : SeriesKind) (order : Nat)
  | sampleInterpolation (series : SeriesKind) (found : String)
  | cutStartNegative (start : String)
  | cutStopBeyond (stop duration : String)
  | cutReversed (stop start : String)
  -- registers
  | defectsExceed (wanted : Int) (filled : Nat)
  | nothingToTile
  -- drives and sequences
  | badLocation (found : String)
  | locationBeyondRegister (index : Int)
  | locationOutOfBounds (index : Int) (sites : Nat)
  | coefficientCount (name : String) (sites : Nat)
  | manyLocalDetunings
  | localAmplitude
  | localPhase
  | hyperfineUnsupported
  | nothingDriven
  | tilingNeedsCapabilities
  | emulatorLacks (what : String)
  -- builder
  | duplicateNames (names : String)
  | vectorsAsArguments (names : String)
  | parameterUnknown (name : String)
  | parameterLength (name : String) (sites found : Nat)
  | batchColumnsDiffer
  | batchMissingKeys (number : Nat) (keys : String)
  | batchFormsMixed
  | argumentCount (expected found : Nat)
  | unknownDevice (name : String)
  | workersAndCache
  | workersWithoutPool
  | parallelLocal
  -- emulation
  | stateOutsideSpace
  | indexOutOfSpace (index : Int)
  | levelNameMissing
  | unsupportedSolver (name : String)
  | timesOutside
  | solverFailed (text : String)
  -- tasks and services
  | unknownUnit (name : String)
  | alreadySubmitted (id : String)
  | missingTaskId
  | notYetRun
  | resultsUnavailable (id : String)
  | rejected (text : String)
  | standInRefuses
  | stillWaiting
  | scriptEnded (list : String)
  | submissionsFailed (report : String)

namespace Fault

/-- A value that does not fit, without a wording. -/
abbrev value : Fault := plain .wrongValue
/-- A value of an unsuitable type, without a wording. -/
abbrev type : Fault := plain .wrongType
abbrev part : Fault := plain .missingPart
abbrev refused : Fault := plain .invalidRecord
abbrev argument : Fault := plain .wrongArgument

def ofTrap : Decimal.Trap → Fault
  | .undefined => plain .undefinedOperation
  | .divisionByZero => plain .divisionByZero
  | .overflow => plain .decimalOverflow

def kind : Fault → Kind
  | plain k => k
  | reported k _ => k
  | notHandled .. | unknownNode _ | tilingNeedsCapabilities | emulatorLacks _
  | unknownUnit _ => .notImplemented
  | unequalLengths => .brokenPromise
  | levelNameMissing => .missingPart
  | parallelLocal => .wrongType
  | solverFailed _ => .runtime
  | scriptEnded _ => .scriptEnded
  | submissionsFailed _ => .submission
  | rejected _ => .invalidRecord
  | stillWaiting => .runtime
  | _ => .wrongValue

def message? : Fault → Option String
  | plain _ => none
  | reported _ text => some text
  | unassigned name => some s!"Variable {name} not assigned"
  | alreadyAssigned name => some s!"Variable {name} already assigned"
  | reassigned name value => some s!"Variable {name} already assigned to {value}."
  | sliceStartNegative start =>
    some s!"Slice start must be non-negative, got {start} from expr:"
  | sliceStopBeyond duration stop =>
    some s!"Slice stop must be smaller or equal to than duration {duration}, got {stop} from expr:"
  | sliceReversed start stop =>
    some s!"start is larger than stop, get start = {start} and stop = {stop}"
  | sliceWithoutBounds => some "Slice must have at least one argument"
  | sliceWithStep => some "Slice step must be None"
  | sliceStartNotScalar => some "Slice start must be Scalar"
  | sliceStopNotScalar => some "Slice stop must be Scalar"
  | intervalWithoutBounds => some "Interval must have at least one bound"
  | waveformSliceWithoutBounds => some "Interval must have a start or stop value"
  | notHandled part handler => some s!"visit_{part} not implemented for {handler}"
  | unknownNode name => some s!"unknown ast type {name}"
  | unknownAlignment name => some s!"Invalid alignment: {name}"
  | unknownKernel name => some s!"Invalid kernel: {name}"
  | openArguments => some "Cannot have `*args` in function definition"
  | openKeywords => some "Cannot have `**kwargs` in function definition"
  | unsuitableDefault name =>
    some (s!"Default value for parameter {name} is not Real or Decimal, "
      ++ "cannot convert to Variable.")
  | functionNotSaved => some "Bloqade does not support serialization of Python code."
  | factoryLinearLengths =>
    some "The length of values must be one greater than the length of durations"
  | factoryConstantLengths =>
    some "The length of values must be the same as the length of durations"
  | unequalLengths => some "durations and values must be the same length"
  | jump size =>
    some s!"discontinuity with a jump of {size} found when compiling to piecewise linear."
  | slopedLinear =>
    some "Failed to compile Waveform to piecewise constant, found non-constant Linear piece."
  | slopedPolynomial =>
    some ("Failed to compile Waveform to piecewise constant, "
      ++ "found non-constant Polynomial piece.")
  | polynomialOrder series order =>
    let kind := series.name
    some s!"Failed to compile Waveform to piecewise {kind},found Polynomial of order {order}."
  | sampleInterpolation series found =>
    let kind := series.name
    some (s!"Failed to compile waveform to piecewise {kind}, "
      ++ s!"found piecewise {found} interpolation.")
  | cutStartNegative start => some s!"start time for slice {start} is smaller than 0."
  | cutStopBeyond stop duration =>
    some s!"end time for slice {stop} is larger than duration {duration}."
  | cutReversed stop start =>
    some s!"end time for slice {stop} is smaller than starting value for slice {start}."
  | defectsExceed wanted filled =>
    some s!"n_defects {wanted} must be less than the number of filled sites ({filled})"
  | nothingToTile => some "No locations to parallelize."
  | badLocation found => some s!"expected Location or int, got {found}"
  | locationBeyondRegister index => some s!"field.Location({index}) is larger than the register."
  | locationOutOfBounds index sites =>
    some s!"Location {index} is out of bounds for register with {sites} sites."
  | coefficientCount name sites =>
    some s!"Coefficient list {name} doesn't match the size of register {sites}."
  | manyLocalDetunings =>
    some ("Failed to compile Detuning to QuEra task, "
      ++ "found more than one non-uniform modulation: ")
  | localAmplitude =>
    some "Failed to compile Rabi Amplitude to QuEra task, found non-uniform modulation: "
  | localPhase =>
    some "Failed to compile Rabi Phase to QuEra task, found non-uniform modulation: "
  | hyperfineUnsupported => some "QuEra tasks does not support Hyperfine coupling."
  | nothingDriven => some "No fields were specified."
  | tilingNeedsCapabilities => some "Cannot parallelize register without device capabilities."
  | emulatorLacks what => some s!"{what} are not supported by the emulator."
  | duplicateNames names => some s!"Cannot have duplicate names {names}."
  | vectorsAsArguments names => some s!"Cannot have RunTimeVectors: {names} as an argument."
  | parameterUnknown name => some s!"assign parameter '{name}' is not found in analog circuit."
  | parameterLength name sites found =>
    some (s!"assign parameter '{name}' must be a list of length {sites}, "
      ++ s!"found length: {found}")
  | batchColumnsDiffer =>
    some "all the assignment variables need to have same number of elements."
  | batchMissingKeys number keys => some s!"Batch {number} missing key(s): {keys}."
  | batchFormsMixed => some "batch_params and assignments cannot be used together."
  | argumentCount expected found => some s!"Expected {expected} arguments, got {found}."
  | unknownDevice name => some s!"Unknown device: {name}"
  | workersAndCache => some "Cannot use multiprocessing and cache_matrices at the same time."
  | workersWithoutPool => some "num_workers is only used when multiprocessing is enabled."
  | parallelLocal =>
    some "Parallelization of atom arrangements is not supported for local emulation."
  | stateOutsideSpace => some "state: \x7bfock_state\x7d not in rydberg blockade subspace."
  | indexOutOfSpace index => some s!"index: {index} out of bounds."
  | levelNameMissing => some "'ThreeLevelAtomType' object has no attribute '__name__'"
  | unsupportedSolver name => some s!"'{name}' not supported."
  | timesOutside => some "Times must be between 0 and duration."
  | solverFailed text => some text
  | unknownUnit name =>
    some s!"QPU {name} is not supported. Supported QPUs are Aquila and Mock."
  | alreadySubmitted id => some s!"the task is already submitted with {id}"
  | missingTaskId => some "Task ID not found."
  | notYetRun => some "Braket simulator job haven't submit yet."
  | resultsUnavailable id => some s!"unable to fetch results for task_id: {id}"
  | rejected text => some text
  | standInRefuses => some "mock submission error"
  | stillWaiting => none
  | scriptEnded list => some s!"script ran out: {list}"
  | submissionsFailed report => some report

end Fault

/-- A result, or the cause why there is none. -/
abbrev Outcome (α : Type) := Except Fault α

def Outcome.ofDecimal : Except Decimal.Trap α → Outcome α
  | .ok a => .ok a
  | .error t => .error (Fault.ofTrap t)

end AtomArray
