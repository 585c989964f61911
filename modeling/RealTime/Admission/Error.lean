import RealTime.Platform.Error
import RealTime.Ring.Error
import RealTime.Schedulability

/-! # Refusals

Every refusal is final for its request: nothing is retried, and no second run queue is tried
after the chosen one has refused a task. -/

namespace RealTime

/-- Why a task is not admitted. -/
inductive AdmissionError where
  /-- Only tasks of the low class are admitted. -/
  | unsupportedClass (task : String) (taskClass : TaskClass)
  | duplicate (task : String)
  /-- A core is free, but every slot already backs a run queue. -/
  | noMatchingQueue (task : String) (taskClass : TaskClass) (strategy : Strategy)
  /-- No run queue matches and every active core is in use. -/
  | noCapacity (task : String)
  /-- The analysis refused the task on a slot. -/
  | unschedulable (task : String) (slot : Nat) (reason : RejectReason)
  | ring (error : RingError)
  | platform (error : PlatformError)
  deriving DecidableEq, Repr

/-- The wording of a refusal. -/
def AdmissionError.message : AdmissionError → String
  | unsupportedClass task taskClass =>
    s!"task '{task}' has class {taskClass.label}, which has no admission path"
  | duplicate task => s!"task '{task}' is already admitted"
  | noMatchingQueue task taskClass strategy =>
    s!"no run queue for {taskClass.label}/{strategy.label} and no free buffer slot for task '{task}'"
  | noCapacity task => s!"no matching run queue and no unused core for task '{task}'"
  | unschedulable task slot reason =>
    s!"task '{task}' rejected on run-queue slot {slot}: {reason.message}"
  | ring error => error.message
  | platform error => error.message

end RealTime
