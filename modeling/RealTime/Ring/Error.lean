import RealTime.Files

/-! # Failures of shared run queues

`full`, `locked` and `empty` are ordinary states of a queue; the caller decides whether to try
again.  The others say that there is no usable queue, but for `overflow`, which no caller can
handle: machine words are added and multiplied with a check, and what does not pass it ends all
work. -/

namespace RealTime

/-- How a region differs from what a handle promises. -/
inductive LayoutFault where
  | zeroCapacity
  /-- A region of `size` bytes for a capacity that needs more. -/
  | tooShort (size capacity needed : UInt64)
  /-- The header lacks the mark of a run queue. -/
  | uninitialised
  /-- The header tells another capacity than the handle. -/
  | otherCapacity (stored promised : UInt64)
  /-- A fault known only by its description. -/
  | described (text : String)
  deriving DecidableEq, Repr

/-- The wording of a layout fault. -/
def LayoutFault.message : LayoutFault → String
  | zeroCapacity => "capacity must be at least 1"
  | tooShort size capacity needed => s!"region is {size} bytes, capacity {capacity} needs {needed}"
  | uninitialised => "region is not an initialised run queue"
  | otherCapacity stored promised =>
    s!"header capacity {stored} != handle capacity {promised}"
  | described text => text

/-- Why an operation on a run queue fails. -/
inductive RingError where
  /-- No free slot is left. -/
  | full
  /-- Another holder has the lock. -/
  | locked
  /-- No task is queued. -/
  | empty
  /-- There are only `count` queues. -/
  | noSuchQueue (index count : Nat)
  /-- The file behind a queue cannot be used. -/
  | region (path : String) (fault : FileFault)
  /-- The file behind a queue does not hold the expected queue. -/
  | layout (path : String) (fault : LayoutFault)
  /-- A sum or a product is no machine word. -/
  | overflow
  deriving DecidableEq, Repr

/-- The wording of a failure. -/
def RingError.message : RingError → String
  | full => "run queue is full"
  | locked => "run queue is locked by another holder"
  | empty => "run queue is empty"
  | noSuchQueue index count =>
    s!"invalid run-queue index {index} (run-queue set has {count} slot(s))"
  | region path fault => s!"shared region '{path}': {fault.message}"
  | layout path fault => s!"shared region '{path}' has an unexpected layout: {fault.message}"
  | overflow => "arithmetic overflow"

/-! ### Checked arithmetic -/

namespace Word

/-- A number, if it is a machine word. -/
def checked (n : Nat) : Except RingError UInt64 :=
  if n < UInt64.size then .ok n.toUInt64 else .error .overflow

/-- The sum of two machine words, if that is one. -/
def add (a b : UInt64) : Except RingError UInt64 := checked (a.toNat + b.toNat)

/-- The product of two machine words, if that is one. -/
def mul (a b : UInt64) : Except RingError UInt64 := checked (a.toNat * b.toNat)

end Word

end RealTime
