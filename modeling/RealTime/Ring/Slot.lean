import RealTime.Task.Basic
import RealTime.Text.Utf8

/-! # Slots

A `Slot` is the image of a task in shared memory: sixty meaningful bytes of fixed layout.  The
name of a task is cut to the 24 octets that a slot has room for, at a character boundary.

Reading a slot never fails, whatever another process has left in it: unknown codes have a
default, a name length beyond the room counts as the room, and octets that are no text become
replacement characters. -/

namespace RealTime

/-- The image of a task in shared memory. -/
structure Slot where
  deadline : UInt64 := 0
  wcet : UInt64 := 0
  interArrival : UInt64 := 0
  id : UInt32 := 0
  prio : Int32 := 0
  taskClass : UInt8 := 0
  strategy : UInt8 := 0
  valid : UInt8 := 0
  nameLength : UInt8 := 0
  name : Vector UInt8 24 := Vector.replicate 24 0
  deriving DecidableEq, Repr, Inhabited

namespace Slot

/-- Octets that a slot has room for in a name. -/
def nameRoom : Nat := 24

/-- The part of a name that a slot keeps. -/
def keptName (name : String) : List Char := Utf8.fit nameRoom name.toList

/-- The image of a task. -/
def ofTask (t : Task) : Slot where
  deadline := t.deadline
  wcet := t.wcet
  interArrival := t.interArrival
  id := t.id
  prio := t.prio
  taskClass := t.taskClass.code
  strategy := t.strategy.code
  valid := if t.valid then 1 else 0
  nameLength := (Utf8.write (keptName t.name)).length.toUInt8
  name := Vector.ofFn fun i => (Utf8.write (keptName t.name)).getD i 0

/-- The task that a slot shows. -/
def toTask (s : Slot) : Task where
  id := s.id
  name := String.ofList (Utf8.readLossy (s.name.toList.take s.nameLength.toNat))
  taskClass := .ofCode s.taskClass
  strategy := .ofCode s.strategy
  deadline := s.deadline
  wcet := s.wcet
  interArrival := s.interArrival
  prio := s.prio
  valid := s.valid != 0

/-- The lowest `n` octets of a number, least significant first. -/
def littleEndian : Nat → Nat → List UInt8
  | 0, _ => []
  | n + 1, v => v.toUInt8 :: littleEndian n (v / 256)

/-- The meaningful bytes of a slot, in order. -/
def bytes (s : Slot) : List UInt8 :=
  littleEndian 8 s.deadline.toNat ++ littleEndian 8 s.wcet.toNat ++
    littleEndian 8 s.interArrival.toNat ++ littleEndian 4 s.id.toNat ++
    littleEndian 4 s.prio.toUInt32.toNat ++
    [s.taskClass, s.strategy, s.valid, s.nameLength] ++ s.name.toList

/-- A field that can be overwritten with a number. -/
inductive Field where
  | deadline
  | wcet
  | interArrival
  | id
  | prio
  | taskClass
  | strategy
  | valid
  | nameLength
  deriving DecidableEq, Repr

/-- Overwrite a field with the low bytes of a number in two's complement. -/
def set (s : Slot) (field : Field) (v : Int) : Slot :=
  match field with
  | .deadline => { s with deadline := UInt64.ofInt v }
  | .wcet => { s with wcet := UInt64.ofInt v }
  | .interArrival => { s with interArrival := UInt64.ofInt v }
  | .id => { s with id := UInt32.ofInt v }
  | .prio => { s with prio := Int32.ofInt v }
  | .taskClass => { s with taskClass := UInt8.ofInt v }
  | .strategy => { s with strategy := UInt8.ofInt v }
  | .valid => { s with valid := UInt8.ofInt v }
  | .nameLength => { s with nameLength := UInt8.ofInt v }

/-- Overwrite the first octets of the name area. -/
def setName (s : Slot) (octets : List UInt8) : Slot :=
  { s with name := Vector.ofFn fun i => octets.getD i (s.name.toList.getD i 0) }

end Slot

end RealTime
