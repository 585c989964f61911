import Mathlib.Data.Nat.Find
import RealTime.Proofs.Ring.Readers

/-! # What a slot keeps of a task

A slot has room for every field of a task but a long name.  The cut of a name is found backwards:
from the end of the room, or of a shorter name, one octet at a time down to the first offset at which
a character starts.  That search always ends, for a text starts at a boundary, and it ends where the
longest part that fits does.

* `boundary?_eq`     the search finds the greatest boundary, and there is one
* `boundary?_room`   it ends where the longest initial segment with room ends
* `toTask_ofTask`    what is read back from a slot -/

namespace RealTime

/-! ### Boundaries -/

namespace Utf8

/-- Whether a character of a text starts at an offset, or the text ends there. -/
def isBoundary (s : String) (i : Nat) : Bool := String.Pos.Raw.isValid s ⟨i⟩

/-- The last boundary of a text that is not behind `n`, searched from `n` backwards; none if the
search would go below 0. -/
def boundary? (s : String) : Nat → Option Nat
  | 0 => if isBoundary s 0 then some 0 else none
  | n + 1 => if isBoundary s (n + 1) then some (n + 1) else boundary? s n

variable {s : String} {cs : List Char}

theorem write_append (cs other : List Char) : write (cs ++ other) = write cs ++ write other :=
  List.flatMap_append

/-- An initial segment needs no more octets. -/
theorem length_write_of_prefix_le {other : List Char} (h : other <+: cs) :
    (write other).length ≤ (write cs).length := by
  obtain ⟨rest, rfl⟩ := h
  rw [write_append, List.length_append]
  exact Nat.le_add_right _ _

/-- The boundaries of a text are where its initial segments end. -/
theorem isBoundary_iff {i : Nat} :
    isBoundary s i = true ↔ ∃ cs, cs <+: s.toList ∧ (write cs).length = i := by
  rw [isBoundary, String.Pos.Raw.isValid_eq_true_iff, String.Pos.Raw.isValid_iff_exists_take_toList]
  constructor
  · rintro ⟨k, hk⟩
    refine ⟨s.toList.take k, List.take_prefix k _, ?_⟩
    rw [show i = _ from hk, ← length_write_toList, String.toList_ofList]
  · rintro ⟨cs, hcs, rfl⟩
    refine ⟨cs.length, ?_⟩
    rw [← List.prefix_iff_eq_take.1 hcs, ← length_write_toList, String.toList_ofList]

theorem isBoundary_zero (s : String) : isBoundary s 0 = true :=
  isBoundary_iff.2 ⟨[], List.nil_prefix, rfl⟩

/-- The search ends, at the latest at 0. -/
theorem boundary?_eq (s : String) (n : Nat) :
    boundary? s n = some (Nat.findGreatest (isBoundary s · = true) n) := by
  induction n with
  | zero => rw [boundary?, if_pos (isBoundary_zero s), Nat.findGreatest_zero]
  | succ n ih =>
    rw [boundary?, Nat.findGreatest_succ, ih]
    split <;> rfl

/-- Searched from the end of some room, or of a shorter text, the boundary is where the longest
initial segment that fits ends. -/
theorem boundary?_room (s : String) (budget : Nat) :
    boundary? s (min s.utf8ByteSize budget) = some (write (fit budget s.toList)).length := by
  have hcut := cut_fit budget s.toList
  rw [boundary?_eq, Option.some.injEq, Nat.findGreatest_eq_iff]
  refine ⟨Nat.le_min.2 ⟨?_, hcut.octets_le⟩, fun _ => isBoundary_iff.2 ⟨_, hcut.initial, rfl⟩, ?_⟩
  · rw [← length_write_toList]
    exact length_write_of_prefix_le hcut.initial
  · -- a boundary farther on is where a longer segment ends, and that does not fit
    intro i hlt hle hi
    obtain ⟨cs, hcs, rfl⟩ := isBoundary_iff.1 hi
    have hshorter := length_write_of_prefix_le (hcut.longest hcs (Nat.le_min.1 hle).2)
    omega

end Utf8

/-! ### Images -/

/-- A slot keeps all but the name as it is. -/
theorem Task.image_eq (t : Task) : t.image = { t with name := t.image.name } := by
  have hvalid : ((if t.valid then 1 else 0 : UInt8) != 0) = t.valid := by cases t.valid <;> rfl
  simp only [Task.image, Slot.toTask, Slot.ofTask, TaskClass.ofCode_code, Strategy.ofCode_code,
    hvalid]

/-- A slot keeps all of a task if it has room for the name. -/
theorem Task.image_eq_self_iff (t : Task) :
    t.image = t ↔ t.name.utf8ByteSize ≤ Slot.nameRoom := by
  constructor
  · intro heq
    have hle := t.cut_image.octets_le
    rwa [heq, Utf8.length_write_toList] at hle
  · intro hle
    rw [t.image_eq, t.name_image_of_le hle]

/-- What is kept of a task has room in a slot. -/
theorem Task.image_image (t : Task) : t.image.image = t.image := by
  rw [Task.image_eq_self_iff, ← Utf8.length_write_toList]
  exact t.cut_image.octets_le

/-- The task that is read back from its slot has all the fields of the task that was written, except
that its name is the longest initial segment with room in the slot.  So a task is read back as it was
if there is room for its name, and what has been read back once does not change any more.

The cut of the name is found by a backward search that does not pass 0.  The slot holds the octets of
the name in front of the cut, all of which belong to characters, so that reading them puts no
replacement anywhere. -/
theorem Slot.toTask_ofTask (t : Task) :
    let s := Slot.ofTask t
    let octets := s.name.toList.take s.nameLength.toNat
    s.toTask = { t with name := s.toTask.name } ∧
      Utf8.Cut nameRoom t.name.toList s.toTask.name.toList ∧
      (s.toTask = t ↔ t.name.utf8ByteSize ≤ nameRoom) ∧
      (Slot.ofTask s.toTask).toTask = s.toTask ∧
      Utf8.boundary? t.name (min t.name.utf8ByteSize nameRoom) = some s.nameLength.toNat ∧
      octets = (Utf8.write t.name.toList).take s.nameLength.toNat ∧
      Utf8.read? octets = some (Utf8.readLossy octets) := by
  intro s octets
  have hoctets : octets = Utf8.write (keptName t.name) := take_name t
  refine ⟨t.image_eq, t.cut_image, t.image_eq_self_iff, t.image_image, ?search, ?kept, ?read⟩
  case search =>
    rw [toNat_nameLength]
    exact Utf8.boundary?_room t.name nameRoom
  case kept =>
    obtain ⟨rest, hrest⟩ := Utf8.fit_prefix nameRoom t.name.toList
    rw [hoctets, toNat_nameLength, ← hrest, Utf8.write_append, keptName]
    exact List.take_left.symm
  case read => rw [hoctets, Utf8.read?_write, Utf8.readLossy_write]

/-- A character of two octets, the second of which has no room. -/
example : Utf8.boundary? "aaaaaaaaaaaaaaaaaaaaaaaé" Slot.nameRoom = some 23 := by decide

end RealTime
