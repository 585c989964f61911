import RealTime.Arbiter.Error
import RealTime.Arbiter.Goal
import RealTime.Arbiter.Groups

/-! # The arbiter and its decisions

The `Arbiter` decides which of the tasks that compete for a core may start their next jobs.  It
keeps a record of every supervised task, the groups of related tasks, and the history of tasks
that have ended.

A decision is made for one task at a time (`arbitrate`).  Among the task and its competitors on
the same core, the competitor with the largest metric gets the permission if it leads the task
by more than the accepted margin; otherwise the task keeps it.  A task that competes with
nobody on its core is permitted, unless another task on the core names it as a competitor and
so decides about it. -/

namespace RealTime

/-- Supervised tasks, their groups, and tasks that have ended. -/
structure Arbiter where
  config : GoalConfig := {}
  /-- Number of cores; they are numbered from 0. -/
  cores : Nat
  tasks : OrderedMap String Record := .empty
  groups : Groups := .empty
  ended : OrderedMap String Ended := .empty

namespace Arbiter

/-- Change the record of a task. -/
def modify (a : Arbiter) (name : String) (f : Record → Record) : Arbiter :=
  { a with tasks := a.tasks.modify name f }

/-- Permit or deny the next job of a task. -/
def permit (a : Arbiter) (name : String) (allowed : Bool) : Arbiter :=
  a.modify name fun r => { r with allowed }

/-- Put a task into a group, or into none. -/
def setGroup (a : Arbiter) (name : String) (group : Nat) : Arbiter :=
  a.modify name fun r => { r with group }

/-- The group of a task. -/
def groupOf (a : Arbiter) (name : String) : Nat :=
  match a.tasks.get? name with
  | some r => r.group
  | none => 0

/-- The other members of a task's group. -/
def relatives (a : Arbiter) (name : String) : List String :=
  match a.groups.get? (a.groupOf name) with
  | some g => (g.members.erase name).elems
  | none => []

/-! ### Decisions -/

/-- The competitors of a task on its own core. -/
def rivals (a : Arbiter) (r : Record) : List (String × Record) :=
  r.competitors.elems.filterMap fun name =>
    match a.tasks.get? name with
    | some other => if other.core = r.core then some (name, other) else none
    | none => none

/-- Whether another task on the same core names a task as a competitor. -/
def isClaimed (a : Arbiter) (name : String) : Bool :=
  match a.tasks.get? name with
  | some r => a.tasks.entries.any fun (other, o) =>
      other != name && o.core = r.core && name ∈ o.competitors
  | none => false

/-- The first task with the largest metric among those whose metric exceeds a bar. -/
def leader? (goal : Goal) (bar : Metric) (tasks : List (String × Record)) :
    Option (String × Metric) :=
  tasks.foldl (fun best (name, r) =>
    match goal.metric r with
    | none => best
    | some m =>
      if m.exceeds bar && (best.all fun (_, w) => m.exceeds w) then some (name, m) else best) none

/-- Decide about a task and its competitors on the same core. -/
def arbitrate (a : Arbiter) (name : String) : Arbiter :=
  match a.tasks.get? name with
  | none => a
  | some r =>
    match a.config.goal.metric r with
    | none => a
    | some own =>
      match a.rivals r with
      | [] => if a.isClaimed name then a else a.permit name true
      | rivals =>
        match leader? a.config.goal (own.plus a.config.acceptance) rivals with
        | none => rivals.foldl (fun a (rival, _) => a.permit rival false) (a.permit name true)
        | some (winner, _) => (a.permit name false).permit winner true

/-- Decide about several tasks, one after the other. -/
def arbitrateAll (a : Arbiter) (names : List String) : Arbiter := names.foldl arbitrate a

/-! ### Debts -/

/-- Take the group's threshold off the debts of all members, on the core of the named task, once
all members on that core owe that much. -/
def settle (a : Arbiter) (name : String) : Arbiter :=
  match a.tasks.get? name with
  | none => a
  | some r =>
    match a.groups.get? r.group with
    | none => a
    | some g =>
      -- members on other cores owe nothing here
      let owes (member : String) : Bool :=
        match a.tasks.get? member with
        | some o => o.core != r.core || g.threshold ≤ o.debtOn r.core
        | none => true
      if g.threshold = 0 || r.debtOn r.core < g.threshold || !g.members.elems.all owes then a
      else
        g.members.elems.foldl
          (fun a member => a.modify member (·.modifyDebt r.core (· - g.threshold))) a

/-- Raise the debt of a task on its core, settle the debts of its group, and decide. -/
def charge (a : Arbiter) (name : String) : Arbiter :=
  let a := a.modify name fun r => r.modifyDebt r.core Debt.raise
  let a := if a.groupOf name = 0 then a else a.settle name
  a.arbitrate name

/-! ### Requests -/

/-- Why a task cannot be found. -/
def notTracked (a : Arbiter) (name : String) : ArbiterError :=
  .notTracked name ((a.ended.get? name).map (·.cause))

/-- Pursue another goal. -/
def setGoal (a : Arbiter) (config : GoalConfig) : Arbiter := { a with config }

/-- Supervise a task from now on. -/
def add (a : Arbiter) (core : Nat) (t : Task) : Except ArbiterError Unit × Arbiter :=
  if core ≥ a.cores then (.error (.unknownCore core a.cores), a)
  else if a.tasks.contains t.name then (.error (.duplicate t.name), a)
  else
    (.ok (), { a with
      ended := a.ended.erase t.name
      tasks := a.tasks.insert t.name (.ofTask t core a.cores) })

/-- Whether the next job of a task may start. -/
def isAllowed (a : Arbiter) (name : String) : Except ArbiterError Bool :=
  match a.tasks.get? name with
  | some r => .ok r.allowed
  | none => .error (a.notTracked name)

/-- The dispatcher has started the last job of a task. -/
def lastJobStarted (a : Arbiter) (name : String) : Except ArbiterError Unit × Arbiter :=
  if a.tasks.contains name then (.ok (), a.modify name fun r => { r with lastJobStarted := true })
  else (.error (a.notTracked name), a)

/-- Move a task to another core and decide about its whole group again. -/
def move (a : Arbiter) (name : String) (core : Nat) : Except ArbiterError Unit × Arbiter :=
  if core ≥ a.cores then (.error (.unknownCore core a.cores), a)
  else if a.tasks.contains name then
    let a := a.modify name fun r => { r with core }
    (.ok (), a.arbitrateAll (name :: a.relatives name))
  else (.error (a.notTracked name), a)

end Arbiter

end RealTime
