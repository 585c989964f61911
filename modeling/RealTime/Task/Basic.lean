/-! # Tasks

A `Task` is a periodic or sporadic real-time task as its requester describes it: who it is,
which queue it wants, and its timing in microseconds.  A lower priority number means a higher
priority; tasks of one priority interfere with each other.

The class and the strategy of a task are written in three ways: as a byte in a shared slot
(`code`, `ofCode`), as a lower-case name in files (`name`, `ofName?`) and as a capitalised
label in messages (`label`).  `ofCode_code` and `ofName?_name` say that reading takes writing
back. -/

namespace RealTime

/-- Criticality class of a task. -/
inductive TaskClass where
  /-- High criticality. -/
  | hi
  /-- Low criticality. -/
  | lo
  deriving DecidableEq, Repr, Inhabited

namespace TaskClass

/-- The byte that stands for the class in a shared slot. -/
def code : TaskClass → UInt8
  | hi => 0
  | lo => 1

/-- Every byte but 0 stands for the low class. -/
def ofCode (b : UInt8) : TaskClass := if b = 0 then hi else lo

/-- The name of the class in files. -/
def name : TaskClass → String
  | hi => "hi"
  | lo => "lo"

/-- The class with a given name. -/
def ofName? : String → Option TaskClass
  | "hi" => some hi
  | "lo" => some lo
  | _ => none

/-- The name of the class in messages. -/
def label : TaskClass → String
  | hi => "Hi"
  | lo => "Lo"

/-- The classes in their fixed order. -/
def all : List TaskClass := [hi, lo]

theorem ofCode_code (c : TaskClass) : ofCode c.code = c := by cases c <;> rfl

theorem ofName?_name (c : TaskClass) : ofName? c.name = some c := by cases c <;> rfl

end TaskClass

/-- How a run queue orders its tasks. -/
inductive Strategy where
  /-- Fixed priority. -/
  | priority
  /-- Earliest deadline first. -/
  | deadline
  /-- Earliest deadline first, priority among equal deadlines. -/
  | deadlinePriority
  deriving DecidableEq, Repr, Inhabited

namespace Strategy

/-- The byte that stands for the strategy in a shared slot. -/
def code : Strategy → UInt8
  | priority => 0
  | deadline => 1
  | deadlinePriority => 2

/-- Every byte but 1 and 2 stands for fixed priority. -/
def ofCode (b : UInt8) : Strategy :=
  if b = 1 then deadline else if b = 2 then deadlinePriority else priority

/-- The name of the strategy in files. -/
def name : Strategy → String
  | priority => "priority"
  | deadline => "deadline"
  | deadlinePriority => "deadline_priority"

/-- The strategy with a given name. -/
def ofName? : String → Option Strategy
  | "priority" => some priority
  | "deadline" => some deadline
  | "deadline_priority" => some deadlinePriority
  | _ => none

/-- The name of the strategy in messages. -/
def label : Strategy → String
  | priority => "Priority"
  | deadline => "Deadline"
  | deadlinePriority => "DeadlinePriority"

/-- The strategies in their fixed order. -/
def all : List Strategy := [priority, deadline, deadlinePriority]

theorem ofCode_code (s : Strategy) : ofCode s.code = s := by cases s <;> rfl

theorem ofName?_name (s : Strategy) : ofName? s.name = some s := by cases s <;> rfl

end Strategy

/-- A real-time task.  Times are in microseconds. -/
structure Task where
  /-- Number given by the requester. -/
  id : UInt32 := 0
  /-- The name under which the task is admitted and supervised. -/
  name : String := ""
  taskClass : TaskClass := .lo
  strategy : Strategy := .priority
  /-- Time from a release to the end that its job must keep. -/
  deadline : UInt64 := 0
  /-- Longest execution time of one job. -/
  wcet : UInt64 := 0
  /-- Shortest time between two releases. -/
  interArrival : UInt64 := 0
  /-- Fixed priority; a lower number is more urgent. -/
  prio : Int32 := 0
  /-- Set by the requester once the description is complete. -/
  valid : Bool := false
  deriving DecidableEq, Repr, Inhabited

namespace Task

/-- Share of a processor that the task may use; none if its releases have no distance. -/
def utilization (t : Task) : Float :=
  if t.interArrival = 0 then 0.0 else t.wcet.toFloat / t.interArrival.toFloat

/-- Whether a task is strictly more urgent than another one. -/
def outranks (t u : Task) : Bool := t.prio < u.prio

/-- Whether a task can delay another one: it is at least as urgent. -/
def interferesWith (t u : Task) : Bool := t.prio ≤ u.prio

theorem interferesWith_iff_not_outranks (t u : Task) :
    t.interferesWith u ↔ u.outranks t = false := by
  simp [interferesWith, outranks]

end Task

end RealTime
