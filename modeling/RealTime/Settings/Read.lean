import RealTime.Settings.Basic
import RealTime.Yaml.Decode

/-! # Reading settings

Settings are written as a YAML mapping with the sections `controller`, `cores`, `run_queues` and
`optimization`.  Whatever is left out has its default, and unknown keys count for nothing. -/

namespace RealTime.Settings

open Yaml Decode

/-- Read a core and its state. -/
def readCore (n : Node) : Decode (Nat × CoreState) := do
  let es ← entries n
  return (← field es "id" (natural wordLimit), ← fieldD es "state" .active (choice CoreState.ofName?))

/-- Read a run queue. -/
def readQueue (n : Node) : Decode QueueSetting := do
  let es ← entries n
  return {
    taskClass := ← field es "task_class" (choice TaskClass.ofName?)
    strategy := ← fieldD es "task_strategy" .priority (choice Strategy.ofName?)
    core := ← field es "core" (natural wordLimit) }

/-- Read a goal. -/
def readGoal (n : Node) : Decode GoalConfig := do
  let es ← entries n
  let d : GoalConfig := {}
  return {
    goal := ← fieldD es "goal" d.goal (choice Goal.ofName?)
    acceptance := ← fieldD es "fairness_acceptance" d.acceptance (natural halfWordLimit)
    intervalMs := ← fieldD es "query_interval_ms" d.intervalMs (natural wordLimit) }

/-- Read the directory and the length of the shared queues. -/
def readQueues (n : Node) : Decode (String × Nat) := do
  let es ← entries n
  let d : Settings := {}
  return (← fieldD es "shm_dir" d.directory text,
    ← fieldD es "run_queue_capacity" d.capacity (natural wordLimit))

/-- Read settings.  No cores at all mean the default cores. -/
def decode (n : Node) : Decode Settings := do
  let es ← entries n
  let d : Settings := {}
  let (directory, capacity) ← fieldD es "controller" (d.directory, d.capacity) readQueues
  let cores := ((← fieldD es "cores" none (optional (list readCore))).getD [])
  return {
    directory, capacity
    cores := if cores.isEmpty then d.cores else cores
    queues := ← fieldD es "run_queues" [] (list readQueue)
    goal := ← fieldD es "optimization" {} readGoal }

/-- Read settings from a text and check them. -/
def ofText (text : String) : Except SettingsError Settings :=
  match Decode.ofText? text decode with
  | none => .error .malformed
  | some s => s.check.map fun () => s

/-- Read settings from a file, given its octets if there is such a file. -/
def ofFile (path : String) (contents : Option (List UInt8)) : Except SettingsError Settings :=
  match readText contents with
  | .error fault => .error (.unreadable path fault)
  | .ok text => (ofText text).mapError (.inFile path)

end RealTime.Settings
