import RealTime.Ring.Region

/-! # Lengths of regions

A queue takes a header and its slots.  How many bytes that is (`Region.extent`) is computed in
machine words with a check, so that there is an answer exactly for the capacities below `2 ^ 58`
(`Region.Addressable`).  Whoever gets an answer gets the right one, and a region that passes the
check has all the bytes that a queue of the promised capacity takes.

* `Word.checked_eq_ok_iff`  checked arithmetic is exact
* `addressable_iff`         the capacities that have a length
* `lengthFor_eq_ok_iff`     the bytes that a queue asks for
* `check_eq_ok_iff`         which regions pass the check -/

namespace RealTime

/-! ### Checked arithmetic -/

namespace Word

variable {n : Nat} {w : UInt64}

/-- A number that passes the check is what it was. -/
theorem checked_eq_ok_iff : checked n = .ok w ↔ w.toNat = n := by
  rw [checked]
  split
  · rename_i hfits
    rw [Except.ok.injEq, ← UInt64.toNat_inj, UInt64.toNat_ofNat_of_lt' hfits]
    exact eq_comm
  · have hw := w.toNat_lt_size
    exact iff_of_false nofun (by omega)

theorem checked_eq_error_iff {e : RingError} :
    checked n = .error e ↔ UInt64.size ≤ n ∧ e = .overflow := by
  rw [checked]
  split
  · exact iff_of_false nofun (by omega)
  · rename_i hfits
    rw [Except.error.injEq, and_iff_right (Nat.not_lt.1 hfits)]
    exact eq_comm

end Word

namespace Region

variable {r r' : Region} {capacity length : UInt64} {n : Nat}

/-! ### Bytes of a queue -/

/-- Bytes that the header and some slots take, however many these are. -/
def extent (slots : Nat) : Nat := Header.size + slots * slotSize

/-- A machine word can tell how many bytes a queue takes. -/
def Addressable (capacity : UInt64) : Prop := extent capacity.toNat < UInt64.size

instance : Decidable (Addressable capacity) := inferInstanceAs (Decidable (_ < _))

/-- A queue may have fewer than `2 ^ 58` slots. -/
theorem addressable_iff : Addressable capacity ↔ capacity < 0x400000000000000 := by
  have hbound : (0x400000000000000 : UInt64).toNat = 0x400000000000000 := rfl
  rw [Addressable, extent, Header.size, slotSize, UInt64.size, UInt64.lt_iff_toNat_lt, hbound]
  omega

/-- What is told to be the length of a queue is the exact number of its bytes. -/
theorem lengthFor_eq_ok_iff :
    lengthFor capacity = .ok length ↔ length.toNat = extent capacity.toNat := by
  have hheader : Header.size.toUInt64.toNat = Header.size := rfl
  have hslot : slotSize.toUInt64.toNat = slotSize := rfl
  have hlength := length.toNat_lt_size
  simp only [lengthFor, bind, Except.bind, extent, Word.add, Word.mul]
  cases hmul : Word.checked (capacity.toNat * slotSize.toUInt64.toNat) with
  | ok slots =>
    rw [Word.checked_eq_ok_iff, hslot] at hmul
    rw [Word.checked_eq_ok_iff, hheader, hmul]
  | error e =>
    rw [Word.checked_eq_error_iff, hslot] at hmul
    exact iff_of_false nofun (by omega)

/-- There is no answer only where a machine word cannot tell it. -/
theorem lengthFor_eq_error_iff {e : RingError} :
    lengthFor capacity = .error e ↔ ¬ Addressable capacity ∧ e = .overflow := by
  have hheader : Header.size.toUInt64.toNat = Header.size := rfl
  have hslot : slotSize.toUInt64.toNat = slotSize := rfl
  simp only [lengthFor, bind, Except.bind, Addressable, extent, Word.add, Word.mul]
  cases hmul : Word.checked (capacity.toNat * slotSize.toUInt64.toNat) with
  | ok slots =>
    rw [Word.checked_eq_ok_iff, hslot] at hmul
    rw [Word.checked_eq_error_iff, hheader, hmul, Nat.not_lt]
  | error e' =>
    obtain ⟨hover, rfl⟩ := Word.checked_eq_error_iff.1 hmul
    rw [hslot] at hover
    rw [Except.error.injEq, and_iff_right (by omega)]
    exact eq_comm

theorem addressable_of_lengthFor (h : lengthFor capacity = .ok length) : Addressable capacity := by
  rw [Addressable, ← lengthFor_eq_ok_iff.1 h]
  exact length.toNat_lt_size

/-- No region has the bytes of a queue that is too long for a machine word. -/
theorem addressable_of_le (h : extent capacity.toNat ≤ r.size.toNat) : Addressable capacity :=
  Nat.lt_of_le_of_lt h r.size.toNat_lt_size

/-- The region of a new, empty queue. -/
def fresh (capacity : UInt64) : Region :=
  (zeros (extent capacity.toNat).toUInt64).initialise capacity

/-- A new region of the right length that is made a queue is that of a new queue. -/
theorem initialise_zeros (h : lengthFor capacity = .ok length) :
    (zeros length).initialise capacity = fresh capacity := by
  have hlength : length = (extent capacity.toNat).toUInt64 := by
    rw [← lengthFor_eq_ok_iff.1 h]
    exact (UInt64.ofNat_toNat).symm
  rw [fresh, hlength]

theorem toNat_size_fresh (h : Addressable capacity) :
    (fresh capacity).size.toNat = extent capacity.toNat := UInt64.toNat_ofNat_of_lt' h

/-! ### The check -/

/-- A region starts with the header of a queue that takes tasks. -/
structure Initialised (r : Region) (capacity : UInt64) : Prop where
  capacity_pos : 1 ≤ capacity.toNat
  magic_eq : r.header.magic = Header.mark
  capacity_eq : r.header.capacity = capacity

theorem Initialised.of_unlock_eq (h : r.Initialised capacity) (heq : r'.unlock = r.unlock) :
    r'.Initialised capacity where
  capacity_pos := h.capacity_pos
  magic_eq := (congrArg (·.header.magic) heq).trans h.magic_eq
  capacity_eq := (congrArg (·.header.capacity) heq).trans h.capacity_eq

theorem toNat_pos (h : capacity ≠ 0) : 0 < capacity.toNat :=
  Nat.pos_of_ne_zero fun h0 => h (UInt64.toNat_inj.1 h0)

theorem initialised_fresh (h : capacity ≠ 0) : (fresh capacity).Initialised capacity :=
  ⟨toNat_pos h, rfl, rfl⟩

/-- The check accepts an initialised region that has all the bytes of a queue. -/
theorem check_eq_ok_iff (path : String) : r.check path capacity = .ok () ↔
    r.Initialised capacity ∧ extent capacity.toNat ≤ r.size.toNat := by
  constructor
  · intro h
    simp only [check] at h
    split at h
    · cases h
    · split at h
      · cases h
      · rename_i needed hneeded
        split at h
        · cases h
        · rename_i hlength
          split at h
          · cases h
          · rename_i hmagic
            split at h
            · cases h
            · rename_i hcapacity
              obtain ⟨hpos, hlength⟩ := not_or.1 hlength
              rw [UInt64.not_lt, UInt64.le_iff_toNat_le, lengthFor_eq_ok_iff.1 hneeded] at hlength
              exact ⟨⟨toNat_pos hpos, Decidable.of_not_not hmagic, Decidable.of_not_not hcapacity⟩,
                hlength⟩
  · rintro ⟨⟨hpos, hmagic, hcapacity⟩, hlength⟩
    have hne : capacity ≠ 0 := by
      rintro rfl
      exact absurd hpos (by decide)
    have hsize : r.size ≠ 0 := by
      intro h0
      rw [h0, extent, Header.size] at hlength
      exact absurd (Nat.le_trans (Nat.le_add_right _ _) hlength) (by decide)
    cases hneeded : lengthFor capacity with
    | error e => exact absurd (addressable_of_le hlength) (lengthFor_eq_error_iff.1 hneeded).1
    | ok needed =>
      have hshort : ¬ (capacity = 0 ∨ r.size < needed) := by
        rw [not_or, UInt64.not_lt, UInt64.le_iff_toNat_le, lengthFor_eq_ok_iff.1 hneeded]
        exact ⟨hne, hlength⟩
      simp only [check, if_neg hsize, hneeded, if_neg hshort, hmagic, hcapacity, ne_eq,
        not_true_eq_false, if_false]

end Region

end RealTime
