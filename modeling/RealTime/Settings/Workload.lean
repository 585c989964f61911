import RealTime.Settings.Error
import RealTime.Task.Basic
import RealTime.Yaml.Content

/-! # Workloads

A workload is a list of tasks to be admitted, each perhaps with the core that it must go to.  It
is written as a YAML sequence of mappings.  The fields of a task have defaults and are taken as
they are written: a plain `5` is no name.  Every task needs a name of its own. -/

namespace RealTime

/-- A task of a workload. -/
structure WorkloadTask where
  task : Task
  core : Option Nat
  deriving DecidableEq, Repr

namespace Workload

open Yaml Decode

/-- How deep the fields of a task can be nested. -/
def fieldDepth : Nat := 126

/-- Read the value of a field, if it is there. -/
def fieldD {α : Type} (fields : List (String × Content)) (name : String) (default : α)
    (value : Content → Option α) : Decode α := do
  match ← only? fields name with
  | some v => (value v).getDM failure
  | none => return default

/-- The word that a value writes. -/
def word? (limit : Nat) (v : Content) : Option Nat := (v.integerIn? 0 limit).map Int.toNat

/-- Read a task from its fields. -/
def decodeTask (fields : List (String × Content)) : Decode Task := do
  let time := word? wordLimit
  return {
    id := (← fieldD fields "task_id" 0 (word? halfWordLimit)).toUInt32
    name := ← fieldD fields "name" "" Content.text?
    taskClass := ← fieldD fields "task_class" .lo (Content.choice? TaskClass.ofName? TaskClass.all)
    strategy := ←
      fieldD fields "task_strategy" .priority (Content.choice? Strategy.ofName? Strategy.all)
    deadline := (← fieldD fields "deadline_us" 0 time).toUInt64
    wcet := (← fieldD fields "wcet_us" 0 time).toUInt64
    interArrival := (← fieldD fields "inter_arrival_us" 0 time).toUInt64
    prio := (← fieldD fields "prio" 0 (Content.integerIn? Int32.minValue.toInt Int32.maxValue.toInt)).toInt32
    valid := ← fieldD fields "valid" false Content.truth? }

/-- Read a task and its core. -/
def decodeEntry (n : Node) : Decode WorkloadTask := do
  let (cores, others) := (← entries n).partition (·.1 = "core")
  let fields ← others.mapM fun (k, v) => return (k, ← Content.ofNode fieldDepth v)
  let core ← Decode.fieldD cores "core" none (optional (natural wordLimit))
  return ⟨← decodeTask fields, core⟩

/-- The first task without a name of its own. -/
def objection? (seen : List String) : List WorkloadTask → Option WorkloadError
  | [] => none
  | t :: ts =>
    if t.task.name.isEmpty then some (.unnamed t.task.id.toNat)
    else if t.task.name ∈ seen then some (.duplicate t.task.name)
    else objection? (t.task.name :: seen) ts

/-- Read a workload from a file, given its octets if there is such a file. -/
def ofFile (path : String) (contents : Option (List UInt8)) :
    Except WorkloadError (List WorkloadTask) :=
  match readText contents with
  | .error fault => .error (.unreadable path fault)
  | .ok text =>
    match Decode.ofText? text (list decodeEntry) with
    | none => .error (.malformed path)
    | some tasks =>
      match objection? [] tasks with
      | some e => .error e
      | none => .ok tasks

end Workload

end RealTime
