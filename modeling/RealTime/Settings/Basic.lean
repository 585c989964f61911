import RealTime.Arbiter.Goal
import RealTime.Platform.Basic
import RealTime.Settings.Error

/-! # Settings

`Settings` describe a controller at its start: where the shared queues are kept and how long
they are, the cores, the run queues that exist from the beginning, and the goal of the arbiter.

`check` accepts settings that can be described at all: there is room in every queue, no core
comes twice, every run queue has a slot, and it names a known core.  `platform` builds the
platform described; run queues get slots in their order. -/

namespace RealTime

/-- A run queue that exists from the beginning. -/
structure QueueSetting where
  taskClass : TaskClass
  strategy : Strategy := .priority
  /-- The core that hosts it. -/
  core : Nat
  deriving DecidableEq, Repr

/-- What a controller starts with. -/
structure Settings where
  /-- The directory of the shared queues. -/
  directory : String := "/dev/shm/sched-controller"
  /-- Number of tasks that a shared queue can hold. -/
  capacity : Nat := 100
  /-- The cores, with their states.  There is one slot for each. -/
  cores : List (Nat × CoreState) := [(0, .active), (1, .active)]
  queues : List QueueSetting := []
  goal : GoalConfig := {}

namespace Settings

/-- Number of slots. -/
def slots (s : Settings) : Nat := s.cores.length

/-- The first element that also stands farther left in a list. -/
def firstRepeated? {α : Type} [DecidableEq α] (seen : List α) : List α → Option α
  | [] => none
  | a :: l => if a ∈ seen then some a else firstRepeated? (a :: seen) l

/-- Check that settings make sense. -/
def check (s : Settings) : Except SettingsError Unit :=
  if s.capacity = 0 then .error .zeroCapacity
  else
    match firstRepeated? [] (s.cores.map (·.1)) with
    | some core => .error (.duplicateCore core)
    | none =>
      if s.slots < s.queues.length then .error (.tooManyQueues s.queues.length s.slots)
      else
        match s.queues.zipIdx.find? fun (q, _) => q.core ∉ s.cores.map (·.1) with
        | some (q, index) => .error (.unknownCore index q.core)
        | none => .ok ()

/-- Add a run queue to a platform and let its core host it. -/
def addQueue (p : Platform) (q : QueueSetting) (index : Nat) : Except SettingsError Platform :=
  match p.freeSlot? with
  | none => .error (.noFreeSlot index)
  | some slot =>
    match p.addQueue { taskClass := q.taskClass, strategy := q.strategy, slot } with
    | (.error e, _) => .error (.cannotAdd index e)
    | (.ok queue, p) =>
      match p.allocate q.core queue with
      | (.error e, _) => .error (.cannotBind index q.core e)
      | (.ok (), p) => .ok p

/-- The platform that settings describe. -/
def platform (s : Settings) : Except SettingsError Platform :=
  s.queues.zipIdx.foldlM (fun p (q, index) => addQueue p q index) (.ofCores s.cores s.slots)

/-- Whether two absolute paths consist of the same names. -/
def samePath (a b : String) : Bool :=
  a.startsWith "/" && b.startsWith "/" && FileTree.splitPath a = FileTree.splitPath b

/-- Whether settings are those that hold when nothing is said. -/
def isDefault (s : Settings) : Bool :=
  let d : Settings := {}
  samePath s.directory d.directory && s.capacity = d.capacity && s.cores = d.cores &&
    s.queues = d.queues && s.goal = d.goal

end Settings

end RealTime
