import RealTime.Files
import RealTime.Platform.Error

/-! # Failures of settings and workloads -/

namespace RealTime

/-- Stands for any account of what is wrong with a YAML text. -/
def malformedText : String := "<yaml>"

/-- Why settings cannot be used. -/
inductive SettingsError where
  /-- The text is no YAML, or its values are not of the expected kinds. -/
  | malformed
  | zeroCapacity
  | duplicateCore (core : Nat)
  /-- There are more run queues than slots. -/
  | tooManyQueues (queues slots : Nat)
  | unknownCore (index core : Nat)
  | noFreeSlot (index : Nat)
  | cannotAdd (index : Nat) (error : PlatformError)
  | cannotBind (index core : Nat) (error : PlatformError)
  | unreadable (path : String) (fault : FileFault)
  /-- A failure of the settings in a file. -/
  | inFile (path : String) (error : SettingsError)
  deriving DecidableEq, Repr

/-- The wording of a failure, outermost cause first. -/
def SettingsError.message : SettingsError → String
  | malformed => s!"Failed to parse YAML: {malformedText}"
  | zeroCapacity => "run_queue_capacity must be at least 1"
  | duplicateCore core => s!"core {core} is configured twice"
  | tooManyQueues queues slots =>
    s!"{queues} run queue(s) configured but only {slots} buffer slot(s) exist"
  | unknownCore index core => s!"run_queues[{index}] names unknown core {core}"
  | noFreeSlot index => s!"run_queues[{index}]: no free buffer slot"
  | cannotAdd index error => s!"run_queues[{index}]: cannot add run queue: {error.message}"
  | cannotBind index core error =>
    s!"run_queues[{index}]: cannot bind to core {core}: {error.message}"
  | unreadable path fault => s!"Cannot open configuration file: {path}: {fault.message}"
  | inFile path error => s!"Invalid configuration file: {path}: {error.message}"

/-- Why a workload cannot be used. -/
inductive WorkloadError where
  | unreadable (path : String) (fault : FileFault)
  /-- The text is no YAML, or its values are not of the expected kinds. -/
  | malformed (path : String)
  | unnamed (id : Nat)
  | duplicate (name : String)
  deriving DecidableEq, Repr

/-- The wording of a failure, outermost cause first. -/
def WorkloadError.message : WorkloadError → String
  | unreadable path fault => s!"Cannot open workload file: {path}: {fault.message}"
  | malformed path => s!"Failed to parse workload file: {path}: {malformedText}"
  | unnamed id => s!"workload task {id} has no name"
  | duplicate name => s!"workload task '{name}' appears twice"

end RealTime
