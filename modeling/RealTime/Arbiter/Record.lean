import RealTime.Clock
import RealTime.Monitor
import RealTime.Ordered.Set
import RealTime.Task.Basic

/-! # Supervised tasks

A `Record` is what the arbiter knows about an admitted task.  The debt counters, one for each
core, tell how much the task has been put at a disadvantage: a missed deadline or a denied job
raises the counter of the core, a deadline that was kept lowers it. -/

namespace RealTime

namespace Debt

/-- The largest debt. -/
def limit : Nat := 0xFFFFFFFF

/-- One more, at most `limit`. -/
def raise (d : Nat) : Nat := if d < limit then d + 1 else d

theorem le_raise (d : Nat) : d ≤ raise d := by
  unfold raise; split <;> omega

theorem raise_le_limit {d : Nat} (h : d ≤ limit) : raise d ≤ limit := by
  unfold raise; split <;> omega

end Debt

/-- The latest job of a task that has been seen. -/
structure NewestJob where
  id : Nat := 0
  arrival : Nat := 0
  core : Nat := 0
  /-- Whether the job has been judged. -/
  handled : Bool := true
  deriving DecidableEq, Repr

/-- What the arbiter knows about an admitted task. -/
structure Record where
  interArrival : Nat
  deadline : Nat
  core : Nat
  /-- Earliest release of the current job; 0 until a job has been seen. -/
  arrival : Nat := 0
  /-- Whether the next job may start. -/
  allowed : Bool := true
  /-- Whether the dispatcher has started the last job of the task. -/
  lastJobStarted : Bool := false
  /-- Tasks that have made this one miss a deadline. -/
  competitors : OrderedSet String := .empty
  /-- Number of the group of related tasks; 0 for none. -/
  group : Nat := 0
  newest : NewestJob := {}
  /-- Debt on each core. -/
  debts : List Nat
  /-- Last measured ratio of execution time to the time between releases. -/
  utilization : Float := 0.0

namespace Record

/-- The record of a task that has just been admitted to a core. -/
def ofTask (t : Task) (core cores : Nat) : Record where
  interArrival := t.interArrival.toNat
  deadline := t.deadline.toNat
  core
  debts := List.replicate cores 0

/-- Debt on a core; none on a core that does not exist. -/
def debtOn (r : Record) (core : Nat) : Nat := r.debts[core]?.getD 0

/-- Debt on the task's own core. -/
def debt (r : Record) : Nat := r.debtOn r.core

/-- Change the debt on a core. -/
def modifyDebt (r : Record) (core : Nat) (f : Nat → Nat) : Record :=
  { r with debts := r.debts.modify core f }

/-- The instant at which the current job must have ended. -/
def absoluteDeadline (r : Record) : Nat := Clock.after r.arrival r.deadline

/-- Take note of a job that is newer than those seen before. -/
def observe (r : Record) (job : JobRecord) : Record :=
  if r.newest.arrival < job.arrival ∨ r.newest.id = 0 then
    { r with newest := { id := job.id, arrival := job.arrival, core := job.core, handled := false } }
  else r

/-- Follow a job to the core it ran on, if there is such a core. -/
def follow (r : Record) (core cores : Nat) : Record :=
  if core < cores then { r with core } else r

end Record

/-- Why a task is no longer supervised. -/
inductive EndCause where
  /-- Its last job was terminated before the deadline. -/
  | killed
  /-- Its last job has been judged. -/
  | finished
  deriving DecidableEq, Repr

/-- The name of the cause. -/
def EndCause.name : EndCause → String
  | killed => "killed"
  | finished => "finished"

/-- The cause with a given name. -/
def EndCause.ofName? : String → Option EndCause
  | "killed" => some .killed
  | "finished" => some .finished
  | _ => none

/-- What is remembered of a task that is no longer supervised. -/
structure Ended where
  lastJob : Nat
  cause : EndCause
  deriving DecidableEq, Repr

end RealTime
