import RealTime.Ordered.Map
import RealTime.Ordered.Set
import RealTime.Platform.Error

/-! # Platforms

A `Platform` knows the cores of a machine, the run queues that tasks can be put into, which
core hosts which run queue, and which slot of the bank backs a run queue.

Run queues are numbered in the order of their registration and are never removed.  A core
serves one class of tasks as long as it hosts a run queue; a core without run queues takes on
the class of the first one.  Every operation that fails leaves the platform as it was. -/

namespace RealTime

/-- Whether a core may be given work. -/
inductive CoreState where
  | active
  | standby
  | off
  deriving DecidableEq, Repr, Inhabited

namespace CoreState

/-- The name of the state in files. -/
def name : CoreState → String
  | active => "active"
  | standby => "standby"
  | off => "off"

/-- The state with a given name. -/
def ofName? : String → Option CoreState
  | "active" => some active
  | "standby" => some standby
  | "off" => some off
  | _ => none

/-- The states in their fixed order. -/
def all : List CoreState := [active, standby, off]

theorem ofName?_name (s : CoreState) : ofName? s.name = some s := by cases s <;> rfl

end CoreState

/-- A core and the run queues that it hosts. -/
structure Core where
  state : CoreState := .active
  /-- Class of the tasks that the core serves. -/
  taskClass : TaskClass := .lo
  hosted : OrderedSet Nat := .empty

/-- Whether a core hosts no run queue. -/
def Core.isUnused (c : Core) : Bool := c.hosted.elems.isEmpty

/-- A run queue for tasks of one class and strategy. -/
structure RunQueue where
  taskClass : TaskClass
  strategy : Strategy
  /-- The slot of the bank that holds the tasks. -/
  slot : Nat
  /-- Utilization as last reported or estimated. -/
  utilization : Float := 0.0

/-- Whether a run queue takes tasks of a class and strategy. -/
def RunQueue.takes (q : RunQueue) (taskClass : TaskClass) (strategy : Strategy) : Bool :=
  q.taskClass = taskClass && q.strategy = strategy

/-- The cores and run queues of a machine. -/
structure Platform where
  cores : OrderedMap Nat Core
  queues : List RunQueue := []
  /-- Number of slots in the bank. -/
  slots : Nat

namespace Platform

/-- A platform without run queues.  Of two cores with one number the later one counts. -/
def ofCores (cores : List (Nat × CoreState)) (slots : Nat) : Platform where
  cores := .ofList (cores.map fun (id, state) => (id, { state }))
  slots

/-- A platform of active cores, numbered from 0, with one slot for each. -/
def ofCount (count : Nat) : Platform :=
  ofCores ((List.range count).map fun id => (id, .active)) count

/-! ### Queries -/

/-- The core with a number. -/
def core (p : Platform) (id : Nat) : Except PlatformError Core :=
  match p.cores.get? id with
  | some c => .ok c
  | none => .error (.unknownCore id)

/-- The run queue with a number. -/
def queue (p : Platform) (q : Nat) : Except PlatformError RunQueue :=
  match p.queues[q]? with
  | some d => .ok d
  | none => .error (.unknownQueue q)

/-- The cores that host no run queue. -/
def unusedCores (p : Platform) : List Nat :=
  (p.cores.entries.filter fun e => e.2.isUnused).map (·.1)

/-- The core that hosts a run queue. -/
def hostOf? (p : Platform) (q : Nat) : Option Nat :=
  (p.cores.entries.find? fun e => decide (q ∈ e.2.hosted)).map (·.1)

/-- The numbers of the run queues that take tasks of a class and strategy and have a host. -/
def matching (p : Platform) (taskClass : TaskClass) (strategy : Strategy) : List Nat :=
  (p.queues.zipIdx.filter fun (d, q) => d.takes taskClass strategy && (p.hostOf? q).isSome).map
    (·.2)

/-- Whether a slot backs a run queue. -/
def usesSlot (p : Platform) (slot : Nat) : Bool := p.queues.any (·.slot == slot)

/-- The lowest slot that backs no run queue. -/
def freeSlot? (p : Platform) : Option Nat :=
  (List.range p.slots).find? fun slot => !p.usesSlot slot

/-! ### Changes

A change answers with the outcome and the platform after it, so that what a failure leaves
behind can be seen. -/

/-- Change a core. -/
def modifyCore (p : Platform) (id : Nat) (f : Core → Core) : Platform :=
  { p with cores := p.cores.modify id f }

/-- Go on after a change if it has not failed. -/
def andThen {α β : Type} (r : Except PlatformError α × Platform)
    (f : α → Platform → Except PlatformError β × Platform) : Except PlatformError β × Platform :=
  match r with
  | (.ok a, p) => f a p
  | (.error e, p) => (.error e, p)

/-- Look something up before a change. -/
def given {α β : Type} (p : Platform) (r : Except PlatformError α)
    (f : α → Except PlatformError β × Platform) : Except PlatformError β × Platform :=
  match r with
  | .ok a => f a
  | .error e => (.error e, p)

/-- Register a run queue; the answer is its number.  It has no host yet. -/
def addQueue (p : Platform) (d : RunQueue) : Except PlatformError Nat × Platform :=
  if d.slot ≥ p.slots || p.usesSlot d.slot then (.error (.slotUnavailable d.slot p.slots), p)
  else (.ok p.queues.length, { p with queues := p.queues ++ [d] })

/-- Let a core host a run queue. -/
def allocate (p : Platform) (core q : Nat) : Except PlatformError Unit × Platform :=
  p.given (p.queue q) fun d =>
    match p.hostOf? q with
    | some host => (.error (.alreadyAssigned host q), p)
    | none =>
      p.given (p.core core) fun c =>
        if c.isUnused then
          (.ok (), p.modifyCore core fun c =>
            { c with taskClass := d.taskClass, hosted := c.hosted.insert q })
        else if c.taskClass ≠ d.taskClass then
          (.error (.classMismatch core q c.taskClass d.taskClass), p)
        else (.ok (), p.modifyCore core fun c => { c with hosted := c.hosted.insert q })

/-- Take a run queue away from the core that hosts it. -/
def deallocate (p : Platform) (core q : Nat) : Except PlatformError Unit × Platform :=
  p.given (p.core core) fun c =>
    if q ∈ c.hosted then
      (.ok (), p.modifyCore core fun c => { c with hosted := c.hosted.erase q })
    else (.error (.notAssigned core q), p)

/-- Set the class of a core that hosts no run queue. -/
def setClass (p : Platform) (core : Nat) (taskClass : TaskClass) :
    Except PlatformError Unit × Platform :=
  p.given (p.core core) fun c =>
    if c.isUnused then (.ok (), p.modifyCore core fun c => { c with taskClass })
    else (.error (.coreBusy core c.hosted.size), p)

/-- Set the state of a core. -/
def setState (p : Platform) (core : Nat) (state : CoreState) :
    Except PlatformError Unit × Platform :=
  p.given (p.core core) fun _ => (.ok (), p.modifyCore core fun c => { c with state })

/-- The larger of a utilization and zero; what is not a number counts as zero. -/
def clampUtilization (u : Float) : Float := if u > 0.0 then u else 0.0

/-- Record the utilization of a run queue. -/
def report (p : Platform) (q : Nat) (utilization : Float) :
    Except PlatformError Unit × Platform :=
  p.given (p.queue q) fun d =>
    (.ok (), { p with
      queues := p.queues.set q { d with utilization := clampUtilization utilization } })

/-- Register a run queue on a slot and let an unused core host it. -/
def bindNew (p : Platform) (core slot : Nat) (taskClass : TaskClass) (strategy : Strategy) :
    Except PlatformError Nat × Platform :=
  p.given (p.core core) fun c =>
    if c.hosted.size > 0 then (.error (.coreBusy core c.hosted.size), p)
    else
      andThen (p.addQueue { taskClass, strategy, slot }) fun q p =>
        andThen (p.allocate core q) fun () p => (.ok q, p)

/-- A change to a platform. -/
inductive Change where
  | addQueue (taskClass : TaskClass) (strategy : Strategy) (slot : Nat)
  | allocate (core queue : Nat)
  | deallocate (core queue : Nat)
  | setClass (core : Nat) (taskClass : TaskClass)
  | setState (core : Nat) (state : CoreState)
  | report (queue : Nat) (utilization : Float)
  | bindNew (core slot : Nat) (taskClass : TaskClass) (strategy : Strategy)

/-- Make a change.  The answer is the number of the run queue, if the change makes one. -/
def step (p : Platform) : Change → Except PlatformError (Option Nat) × Platform
  | .addQueue taskClass strategy slot =>
    andThen (p.addQueue { taskClass, strategy, slot }) fun q p => (.ok (some q), p)
  | .allocate core q => andThen (p.allocate core q) fun () p => (.ok none, p)
  | .deallocate core q => andThen (p.deallocate core q) fun () p => (.ok none, p)
  | .setClass core taskClass => andThen (p.setClass core taskClass) fun () p => (.ok none, p)
  | .setState core state => andThen (p.setState core state) fun () p => (.ok none, p)
  | .report q utilization => andThen (p.report q utilization) fun () p => (.ok none, p)
  | .bindNew core slot taskClass strategy =>
    andThen (p.bindNew core slot taskClass strategy) fun q p => (.ok (some q), p)

end Platform

end RealTime
