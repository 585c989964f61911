import RealTime.Ordered.Map
import RealTime.Ring.Error
import RealTime.Ring.Slot

/-! # Regions

A `Region` is the shared memory behind one run queue: a header of machine words and slots after
it.  Other processes can write to the header at any time, so every index read from it is
reduced modulo the capacity that the reader has checked against the region, and the number of
free slots is never taken to exceed that capacity.  Only a listing adds to the head before that, and
fails if the sum is no machine word.

Tasks enter at the tail and leave at the head; the window is the number of free slots. -/

namespace RealTime

/-- The words at the start of a region. -/
structure Header where
  lock : UInt32 := 0
  head : UInt64 := 0
  tail : UInt64 := 0
  window : UInt64 := 0
  capacity : UInt64 := 0
  magic : UInt64 := 0
  deriving DecidableEq, Repr, Inhabited

namespace Header

/-- Bytes taken by the header. -/
def size : Nat := 48

/-- The mark of an initialised run queue. -/
def mark : UInt64 := 0x5251425546310001

/-- A word that can be overwritten. -/
inductive Field where
  | lock
  | head
  | tail
  | window
  | capacity
  | magic
  deriving DecidableEq, Repr

/-- Overwrite a word with the low bits of a number. -/
def set (h : Header) (field : Field) (v : Nat) : Header :=
  match field with
  | .lock => { h with lock := v.toUInt32 }
  | .head => { h with head := v.toUInt64 }
  | .tail => { h with tail := v.toUInt64 }
  | .window => { h with window := v.toUInt64 }
  | .capacity => { h with capacity := v.toUInt64 }
  | .magic => { h with magic := v.toUInt64 }

end Header

/-- Shared memory of `size` bytes: a header and the slots that have been written.  A slot that
has not been written is all zeros. -/
structure Region where
  size : UInt64
  header : Header := {}
  slots : OrderedMap Nat Slot := .empty

namespace Region

/-- Bytes from one slot to the next. -/
def slotSize : Nat := 64

/-- Bytes that a queue of a given capacity asks for. -/
def lengthFor (capacity : UInt64) : Except RingError UInt64 := do
  Word.add Header.size.toUInt64 (← Word.mul capacity slotSize.toUInt64)

/-- A region of zeros. -/
def zeros (size : UInt64) : Region := { size }

/-- Make a region an empty queue. -/
def initialise (r : Region) (capacity : UInt64) : Region :=
  { r with header := { window := capacity, capacity, magic := Header.mark } }

/-- The longest region that a file can have. -/
def longest : UInt64 := 0x7FFFFFFFFFFFFFFF

/-- Check that a region holds a queue of the promised capacity. -/
def check (r : Region) (path : String) (capacity : UInt64) : Except RingError Unit :=
  if r.size = 0 then .error (.region path .emptyRegion)
  else
    match lengthFor capacity with
    | .error e => .error e
    | .ok needed =>
      if capacity = 0 ∨ r.size < needed then
        .error (.layout path (.tooShort r.size capacity needed))
      else if r.header.magic ≠ Header.mark then .error (.layout path .uninitialised)
      else if r.header.capacity ≠ capacity then
        .error (.layout path (.otherCapacity r.header.capacity capacity))
      else .ok ()

/-- The slot at an index. -/
def slot (r : Region) (index : Nat) : Slot := (r.slots.get? index).getD {}

/-- Number of whole slots that the region holds. -/
def slotCount (r : Region) : Nat := (r.size.toNat - Header.size) / slotSize

/-! ### The lock -/

/-- Take the lock if it is free. -/
def tryLock (r : Region) : Option Region :=
  if r.header.lock = 0 then some { r with header := { r.header with lock := 1 } } else none

/-- Free the lock. -/
def unlock (r : Region) : Region := { r with header := { r.header with lock := 0 } }

/-! ### Work under the lock -/

/-- Number of free slots. -/
def free (r : Region) (capacity : UInt64) : UInt64 := min r.header.window capacity

/-- Number of occupied slots. -/
def occupied (r : Region) (capacity : UInt64) : UInt64 := capacity - r.free capacity

/-- Whether no slot is occupied. -/
def isEmpty (r : Region) (capacity : UInt64) : Bool := r.free capacity ≥ capacity

/-- Put a task behind the others. -/
def push (r : Region) (capacity : UInt64) (t : Task) : Except RingError Region :=
  let free := r.free capacity
  if free < 1 then .error .full
  else
    let tail := r.header.tail % capacity
    .ok { r with
      slots := r.slots.insert tail.toNat (Slot.ofTask t)
      header := { r.header with tail := (tail + 1) % capacity, window := free - 1 } }

/-- Take the first task out. -/
def pop (r : Region) (capacity : UInt64) : Except RingError (Task × Region) :=
  let free := r.free capacity
  if free ≥ capacity then .error .empty
  else
    let head := r.header.head % capacity
    .ok ((r.slot head.toNat).toTask,
      { r with header := { r.header with head := (head + 1) % capacity, window := free + 1 } })

/-- The index of the slot that is `i` places behind the head. -/
def indexBehindHead (r : Region) (capacity : UInt64) (i : Nat) : Except RingError Nat :=
  (Word.add r.header.head i.toUInt64).map fun place => (place % capacity).toNat

/-- The queued tasks, first to leave first. -/
def contents (r : Region) (capacity : UInt64) : Except RingError (List Task) :=
  (List.range (r.occupied capacity).toNat).mapM fun i =>
    (r.indexBehindHead capacity i).map fun index => (r.slot index).toTask

/-! ### Single operations

Each takes the lock, does its work and frees the lock again, whether or not the work succeeds.
While another holder has the lock nothing is done. -/

/-- Do one piece of work under the lock. -/
def exclusively {α : Type} (r : Region) (work : Region → Except RingError (α × Region)) :
    Except RingError α × Region :=
  match r.tryLock with
  | none => (.error .locked, r)
  | some held =>
    match work held with
    | .ok (a, done) => (.ok a, done.unlock)
    | .error e => (.error e, held.unlock)

/-- Queue a task. -/
def enqueue (r : Region) (capacity : UInt64) (t : Task) : Except RingError Unit × Region :=
  r.exclusively fun held => (held.push capacity t).map ((), ·)

/-- Take the first task from the queue. -/
def dequeue (r : Region) (capacity : UInt64) : Except RingError Task × Region :=
  r.exclusively fun held => held.pop capacity

/-- List the queued tasks. -/
def list (r : Region) (capacity : UInt64) : Except RingError (List Task) × Region :=
  r.exclusively fun held => (held.contents capacity).map (·, held)

/-- Count the queued tasks. -/
def count (r : Region) (capacity : UInt64) : Except RingError Nat × Region :=
  r.exclusively fun held => .ok ((held.occupied capacity).toNat, held)

end Region

end RealTime
