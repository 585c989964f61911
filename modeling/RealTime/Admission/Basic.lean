import RealTime.Admission.Error
import RealTime.Bank
import RealTime.Platform.Basic

/-! # Admission

A task is admitted to one slot of the bank: the least loaded run queue of its class and
strategy, a new run queue on a free core if there is none, or the slot that its requester
names.  The slot's tasks, queued or waiting, must stay schedulable with it.

The lock of a slot is shared with other processes, which may take it at any moment.  If they do
so between the reading of a queue and the entry of the admitted task, the task waits in the
pending list of the slot until a later `flush`.  Where such a moment matters, an operation has
an argument that says whether another process takes a lock then. -/

namespace RealTime

/-- Where an admitted task is. -/
inductive PlacementStatus where
  /-- In the shared queue. -/
  | committed
  /-- In the pending list, because the queue was locked. -/
  | pending
  deriving DecidableEq, Repr

/-- The outcome of an admission. -/
structure Placement where
  slot : Nat
  /-- The run queue that was chosen; none if the requester named the slot. -/
  queue : Option Nat
  status : PlacementStatus
  /-- Whether the run queue was made for this task. -/
  created : Bool
  deriving DecidableEq, Repr

/-- Cores and run queues, shared queues, and admitted tasks that wait for a lock. -/
structure Admission where
  platform : Platform
  bank : Bank
  /-- Waiting tasks of each slot, first admitted first. -/
  pending : OrderedMap Nat (List Task) := .empty

/-- What an attempt to place a task comes to. -/
structure Attempt (α : Type) where
  result : Except AdmissionError α
  /-- Whether another process took a lock meanwhile. -/
  lockTaken : Bool := false
  state : Admission

namespace Admission

/-- The waiting tasks of a slot. -/
def pendingOn (a : Admission) (slot : Nat) : List Task := (a.pending.get? slot).getD []

/-- Number of waiting tasks on all slots. -/
def pendingCount (a : Admission) : Nat := a.pending.values.foldl (fun n waiting => n + waiting.length) 0

/-- The tasks that a candidate is analysed against: queued and waiting, most urgent first. -/
def analysed (queued waiting : List Task) : List Task :=
  (queued ++ waiting).mergeSort (fun t u => t.prio ≤ u.prio)

/-- Another process tries to take the lock of a slot; the answer is whether it got it. -/
def intrude (b : Bank) : Option Nat → Bool × Bank
  | none => (false, b)
  | some slot =>
    match b.lock slot with
    | (.ok taken, b) => (taken, b)
    | (.error _, b) => (false, b)

/-- Analyse a task against a slot and put it there.  `intruder` names the slot whose lock
another process takes as soon as the queue has been read. -/
def enter (a : Admission) (t : Task) (slot : Nat) (intruder : Option Nat) :
    Attempt PlacementStatus :=
  match a.bank.list slot with
  | (.error e, bank) => { result := .error (.ring e), state := { a with bank } }
  | (.ok queued, bank) =>
    -- the queue has been read and its lock is free again
    let (lockTaken, bank) := intrude bank intruder
    match analyze t (analysed queued (a.pendingOn slot)) with
    | .reject reason =>
      { result := .error (.unschedulable t.name slot reason), lockTaken, state := { a with bank } }
    | .accept =>
      match bank.enqueue slot t with
      | (.ok (), bank) => { result := .ok .committed, lockTaken, state := { a with bank } }
      -- a lock is no reason to refuse a task that has been accepted
      | (.error .locked, bank) =>
        { result := .ok .pending, lockTaken
          state := { a with bank, pending := a.pending.insert slot (a.pendingOn slot ++ [t]) } }
      | (.error e, bank) =>
        { result := .error (.ring e), lockTaken, state := { a with bank } }

/-- Utilization of a run queue. -/
def load (p : Platform) (q : Nat) : Float :=
  match p.queues[q]? with
  | some d => d.utilization
  | none => 0.0

/-- The first of some run queues that no later one undercuts. -/
def leastLoaded (p : Platform) (first : Nat) (rest : List Nat) : Nat :=
  rest.foldl (fun best q => if load p q < load p best then q else best) first

/-- Go on with the platform after a task has been put on a slot. -/
def afterwards {α β : Type} (r : Attempt α)
    (f : α → Platform → Except PlatformError β × Platform) : Attempt β :=
  match r.result with
  | .error e => { r with result := .error e }
  | .ok a =>
    let (result, platform) := f a r.state.platform
    { r with result := result.mapError .platform, state := { r.state with platform } }

/-- Put a task on the least loaded of some run queues.  Its share adds to the utilization of
the run queue until the next report. -/
def placeOnMatching (a : Admission) (t : Task) (first : Nat) (rest : List Nat)
    (intruder : Option Nat) : Attempt Placement :=
  let q := leastLoaded a.platform first rest
  match a.platform.queue q with
  | .error e => { result := .error (.platform e), state := a }
  | .ok d =>
    afterwards (a.enter t d.slot intruder) fun status p =>
      Platform.andThen (p.report q (load p q + t.utilization)) fun () p =>
        (.ok ⟨d.slot, some q, status, false⟩, p)

/-- Put a task on a free slot and bind a new run queue for it to an unused active core.  Nothing
is bound unless the task is admitted. -/
def placeOnNew (a : Admission) (t : Task) (intruder : Option Nat) : Attempt Placement :=
  let isActive core := match a.platform.core core with
    | .ok c => c.state = .active
    | .error _ => false
  match a.platform.unusedCores.find? isActive with
  | none => { result := .error (.noCapacity t.name), state := a }
  | some core =>
    match a.platform.freeSlot? with
    | none =>
      { result := .error (.noMatchingQueue t.name t.taskClass t.strategy), state := a }
    | some slot =>
      afterwards (a.enter t slot intruder) fun status p =>
        Platform.andThen (p.bindNew core slot t.taskClass t.strategy) fun q p =>
          Platform.andThen (p.report q t.utilization) fun () p =>
            (.ok ⟨slot, some q, status, true⟩, p)

/-- Admit a task to a run queue of its class and strategy. -/
def place (a : Admission) (t : Task) (intruder : Option Nat := none) : Attempt Placement :=
  if t.taskClass ≠ .lo then
    { result := .error (.unsupportedClass t.name t.taskClass), state := a }
  else
    match a.platform.matching t.taskClass t.strategy with
    | [] => a.placeOnNew t intruder
    | first :: rest => a.placeOnMatching t first rest intruder

/-- Admit a task to a given slot. -/
def placeOn (a : Admission) (t : Task) (slot : Nat) (intruder : Option Nat := none) :
    Attempt Placement :=
  if t.taskClass ≠ .lo then
    { result := .error (.unsupportedClass t.name t.taskClass), state := a }
  else if slot ≥ a.bank.count then
    { result := .error (.ring (.noSuchQueue slot a.bank.count)), state := a }
  else afterwards (a.enter t slot intruder) fun status p => (.ok ⟨slot, none, status, false⟩, p)

/-- Enter waiting tasks into a queue, first admitted first, until one is refused.  The answer is
the number of all tasks entered, together with the tasks that still wait.  `intruder` says
before which entry another process takes the lock. -/
def flushTasks (b : Bank) (slot : Nat) (intruder : Option Nat) (entered : Nat) :
    List Task → Except RingError Nat × List Task × Bank
  | [] => (.ok entered, [], b)
  | t :: ts =>
    let b := if intruder = some entered then (b.lock slot).2 else b
    match b.enqueue slot t with
    | (.ok (), b) => flushTasks b slot intruder (entered + 1) ts
    | (.error e, b) => (.error e, t :: ts, b)

/-- Enter the waiting tasks of a slot; the answer is how many there were. -/
def flush (a : Admission) (slot : Nat) (intruder : Option Nat := none) :
    Except AdmissionError Nat × Admission :=
  match a.pending.get? slot with
  | none =>
    match a.bank.queue slot with
    | .ok _ => (.ok 0, a)
    | .error e => (.error (.ring e), a)
  | some waiting =>
    match flushTasks a.bank slot intruder 0 waiting with
    | (.ok n, _, bank) => (.ok n, { a with bank, pending := a.pending.erase slot })
    | (.error e, rest, bank) =>
      (.error (.ring e), { a with bank, pending := a.pending.insert slot rest })

/-- What can be done to the admitted tasks and their queues. -/
inductive Request where
  | place (task : Task) (intruder : Option Nat)
  | placeOn (task : Task) (slot : Nat) (intruder : Option Nat)
  | flush (slot : Nat) (intruder : Option Nat)
  | enqueue (slot : Nat) (task : Task)
  | dequeue (slot : Nat)
  /-- Another process takes the lock of a slot. -/
  | lock (slot : Nat)
  /-- The process that has the lock of a slot frees it. -/
  | unlock (slot : Nat)
  | change (change : Platform.Change)

/-- The answer to a request. -/
inductive Reply where
  | placed (placement : Placement) (lockTaken : Bool)
  | refused (error : AdmissionError) (lockTaken : Bool)
  | flushed (entered : Nat)
  | queued
  | task (t : Task)
  | flag (value : Bool)
  | changed (queue : Option Nat)
  | ringFailed (error : RingError)
  | platformFailed (error : PlatformError)
  deriving DecidableEq

/-- The answer to an attempt to place a task. -/
def replyTo (r : Attempt Placement) : Reply × Admission :=
  match r.result with
  | .ok placement => (.placed placement r.lockTaken, r.state)
  | .error e => (.refused e r.lockTaken, r.state)

/-- Do one operation of the bank. -/
def onBank {α : Type} (a : Admission) (reply : α → Reply)
    (result : Except RingError α × Bank) : Reply × Admission :=
  match result with
  | (.ok x, bank) => (reply x, { a with bank })
  | (.error e, bank) => (.ringFailed e, { a with bank })

/-- Answer one request. -/
def perform (a : Admission) : Request → Reply × Admission
  | .place task intruder => replyTo (a.place task intruder)
  | .placeOn task slot intruder => replyTo (a.placeOn task slot intruder)
  | .flush slot intruder =>
    match a.flush slot intruder with
    | (.ok n, a) => (.flushed n, a)
    | (.error e, a) => (.refused e false, a)
  | .enqueue slot task => a.onBank (fun () => .queued) (a.bank.enqueue slot task)
  | .dequeue slot => a.onBank .task (a.bank.dequeue slot)
  | .lock slot => a.onBank .flag (a.bank.lock slot)
  | .unlock slot =>
    let (held, bank) := a.bank.unlock slot
    (.flag held, { a with bank })
  | .change change =>
    match a.platform.step change with
    | (.ok q, platform) => (.changed q, { a with platform })
    | (.error e, platform) => (.platformFailed e, { a with platform })

end Admission

end RealTime
