import RealTime.Ring.Region

/-! # Banks of run queues

A `Bank` is a row of shared queues of one capacity, one per scheduling slot, kept as files of
one directory.  An operation on a slot that the bank does not have is refused; anything else is
the business of the queue. -/

namespace RealTime

/-- Queues of one capacity in one directory. -/
structure Bank where
  directory : String
  capacity : UInt64
  queues : List Region

namespace Bank

/-- The path of a name in a directory. -/
def joinPath (directory name : String) : String :=
  if directory.isEmpty || directory.endsWith "/" then directory ++ name
  else directory ++ "/" ++ name

/-- The file behind a slot. -/
def path (directory : String) (slot : Nat) : String := joinPath directory s!"rq-{slot}.shm"

/-- Check that the queue of a slot can be made. -/
def createQueue (tree : FileTree) (directory : String) (capacity : UInt64) (slot : Nat) :
    Except RingError (Region × FileTree) :=
  let path := path directory slot
  if capacity = 0 then .error (.layout path .zeroCapacity)
  else
    match Region.lengthFor capacity with
    | .error e => .error e
    | .ok length =>
      match tree.createFile path slot with
      | .error fault => .error (.region path fault)
      | .ok (_, tree) =>
        if length > Region.longest then .error (.region path .lengthOutOfRange)
        else .ok ((Region.zeros length).initialise capacity, tree)

/-- Make the queues of the slots from `slot` on. -/
def createQueues (tree : FileTree) (directory : String) (capacity : UInt64) (slot : Nat) :
    Nat → Except RingError (List Region)
  | 0 => .ok []
  | count + 1 => do
    let (r, tree) ← createQueue tree directory capacity slot
    return r :: (← createQueues tree directory capacity (slot + 1) count)

/-- Make a directory, unless it is there, and `count` empty queues in it. -/
def create (tree : FileTree) (directory : String) (count : Nat) (capacity : UInt64) :
    Except RingError Bank :=
  match tree.ensureDirectories directory with
  | .error fault => .error (.region directory fault)
  | .ok tree => (createQueues tree directory capacity 0 count).map (⟨directory, capacity, ·⟩)

/-- Number of queues. -/
def count (b : Bank) : Nat := b.queues.length

/-- Check that the bank has a slot. -/
def queue (b : Bank) (slot : Nat) : Except RingError Region :=
  match b.queues[slot]? with
  | some r => .ok r
  | none => .error (.noSuchQueue slot b.count)

/-- Do one operation on the queue of a slot. -/
def on {α : Type} (b : Bank) (slot : Nat)
    (op : Region → UInt64 → Except RingError α × Region) : Except RingError α × Bank :=
  match b.queue slot with
  | .error e => (.error e, b)
  | .ok r =>
    let (result, r) := op r b.capacity
    (result, { b with queues := b.queues.set slot r })

/-- Queue a task on a slot. -/
def enqueue (b : Bank) (slot : Nat) (t : Task) : Except RingError Unit × Bank :=
  b.on slot fun r capacity => r.enqueue capacity t

/-- Take the first task of a slot. -/
def dequeue (b : Bank) (slot : Nat) : Except RingError Task × Bank :=
  b.on slot fun r capacity => r.dequeue capacity

/-- List the tasks of a slot. -/
def list (b : Bank) (slot : Nat) : Except RingError (List Task) × Bank :=
  b.on slot fun r capacity => r.list capacity

/-- Count the tasks of a slot. -/
def occupied (b : Bank) (slot : Nat) : Except RingError Nat × Bank :=
  b.on slot fun r capacity => r.count capacity

/-- Path and capacity of the queue of a slot. -/
def handle (b : Bank) (slot : Nat) : Except RingError (String × UInt64) :=
  (b.queue slot).map fun _ => (path b.directory slot, b.capacity)

/-! ### Other processes -/

/-- Another process tries to take the lock of a slot; the answer is whether it got it. -/
def lock (b : Bank) (slot : Nat) : Except RingError Bool × Bank :=
  b.on slot fun r _ =>
    match r.tryLock with
    | some held => (.ok true, held)
    | none => (.ok false, r)

/-- The process that has the lock of a slot frees it; the answer is whether there was one. -/
def unlock (b : Bank) (slot : Nat) : Bool × Bank :=
  match b.queues[slot]? with
  | some r =>
    if r.header.lock = 0 then (false, b) else (true, { b with queues := b.queues.set slot r.unlock })
  | none => (false, b)

end Bank

end RealTime
