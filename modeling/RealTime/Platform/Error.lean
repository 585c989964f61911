import RealTime.Task.Basic

/-! # Failures of platform operations -/

namespace RealTime

/-- Why an operation on the cores and run queues of a platform fails. -/
inductive PlatformError where
  | unknownCore (core : Nat)
  | unknownQueue (queue : Nat)
  /-- The core still hosts run queues. -/
  | coreBusy (core count : Nat)
  /-- The core hosts run queues of another class. -/
  | classMismatch (core queue : Nat) (coreClass queueClass : TaskClass)
  | notAssigned (core queue : Nat)
  | alreadyAssigned (core queue : Nat)
  /-- The slot is out of range or backs another run queue. -/
  | slotUnavailable (slot slots : Nat)
  deriving DecidableEq, Repr

/-- The wording of a failure. -/
def PlatformError.message : PlatformError → String
  | unknownCore core => s!"core {core} is not part of the topology"
  | unknownQueue queue => s!"run queue {queue} does not exist"
  | coreBusy core count => s!"core {core} still hosts {count} run queue(s)"
  | classMismatch core queue coreClass queueClass =>
    s!"core {core} serves {coreClass.label} tasks, run queue {queue} is {queueClass.label}"
  | notAssigned core queue => s!"run queue {queue} is not assigned to core {core}"
  | alreadyAssigned core queue => s!"run queue {queue} is already assigned to core {core}"
  | slotUnavailable slot slots =>
    s!"buffer slot {slot} is unavailable ({slots} slot(s) in the run-queue set)"

end RealTime
