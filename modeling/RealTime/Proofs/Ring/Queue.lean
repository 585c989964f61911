import RealTime.Proofs.Ring.Length

/-! # Regions as queues

`Region.Holds r capacity ts` says that a region is a queue with the tasks `ts`, first to leave
first.  It ties the three redundant words of the header together: the window counts the slots
that `ts` leaves free, and the tail is as far behind the head as `ts` is long.  An empty queue
and a full one have the same head and tail; only the window tells them apart.

There are no queues that are too long for a machine word to tell their bytes.  So the places behind
the head of a queue can be counted in machine words, and a listing never fails.

* `toNat_occupied`      how many slots are occupied, whatever the header says
* `contents_eq`         what a listing tells, whatever the header says
* `holds_fresh`         a new region is an empty queue
* `Holds.push`          a task that finds room becomes the last one
* `Holds.pop`           the first task leaves
* `Holds.contents_eq`   the listed tasks are the queued ones
* `enqueue_free`, `dequeue_free`, `list_free`  the same for operations that take the lock -/

namespace RealTime

/-- What is left of a task after it has been through a slot: its name is cut to the room. -/
def Task.image (t : Task) : Task := (Slot.ofTask t).toTask

namespace Region

/-- A region is a queue of a given capacity with the tasks `ts`, first to leave first.  Nothing
is said about the lock. -/
structure Holds (r : Region) (capacity : UInt64) (ts : List Task) : Prop where
  addressable : Addressable capacity
  capacity_eq : r.header.capacity = capacity
  head_lt : r.header.head.toNat < capacity.toNat
  window_add : r.header.window.toNat + ts.length = capacity.toNat
  tail_eq : r.header.tail.toNat = (r.header.head.toNat + ts.length) % capacity.toNat
  slot_eq : ∀ {i : Nat} (h : i < ts.length),
    (r.slot ((r.header.head.toNat + i) % capacity.toNat)).toTask = ts[i]

variable {r : Region} {capacity : UInt64} {ts : List Task} {t : Task}

/-! ### Free and occupied slots -/

theorem toNat_free : (r.free capacity).toNat = min r.header.window.toNat capacity.toNat := by
  by_cases hle : r.header.window ≤ capacity
  · rw [free, show min r.header.window capacity = r.header.window from if_pos hle]
    exact (Nat.min_eq_left (UInt64.le_iff_toNat_le.1 hle)).symm
  · rw [free, show min r.header.window capacity = capacity from if_neg hle]
    rw [UInt64.le_iff_toNat_le] at hle
    omega

/-- A window beyond the capacity counts as the capacity. -/
theorem toNat_occupied :
    (r.occupied capacity).toNat = capacity.toNat - min r.header.window.toNat capacity.toNat := by
  have hle : r.free capacity ≤ capacity := by
    rw [UInt64.le_iff_toNat_le, toNat_free]
    exact Nat.min_le_right _ _
  rw [occupied, UInt64.toNat_sub_of_le _ _ hle, toNat_free]

theorem occupied_le : (r.occupied capacity).toNat ≤ capacity.toNat := by
  rw [toNat_occupied]
  exact Nat.sub_le _ _

/-! ### Listings -/

/-- The tasks in the occupied slots behind the head. -/
def queued (r : Region) (capacity : UInt64) : List Task :=
  (List.range (r.occupied capacity).toNat).map fun i =>
    (r.slot ((r.header.head.toNat + i) % capacity.toNat)).toTask

theorem length_queued : (r.queued capacity).length = (r.occupied capacity).toNat := by
  rw [queued, List.length_map, List.length_range]

/-- The slot `i` places behind the head is found if the sum is a machine word. -/
theorem indexBehindHead_eq {i : Nat} (hi : i < UInt64.size) :
    r.indexBehindHead capacity i =
      if r.header.head.toNat + i < UInt64.size then
        .ok ((r.header.head.toNat + i) % capacity.toNat)
      else .error .overflow := by
  have hword : i.toUInt64.toNat = i := UInt64.toNat_ofNat_of_lt' hi
  rw [indexBehindHead, Word.add, Word.checked, hword]
  split
  · rename_i hfits
    rw [Except.map, UInt64.toNat_mod, UInt64.toNat_ofNat_of_lt' hfits]
  · rfl

/-- A walk that cannot pass a limit fails exactly if it has to. -/
private theorem mapM_range {f : Nat → Except RingError Task} {g : Nat → Task} {limit n : Nat}
    (hf : ∀ i < n, f i = if i < limit then .ok (g i) else .error .overflow) :
    (List.range n).mapM f =
      if n ≤ limit then .ok ((List.range n).map g) else .error .overflow := by
  induction n with
  | zero => rw [if_pos (Nat.zero_le limit)]; rfl
  | succ n ih =>
    rw [List.range_succ, List.mapM_append, ih fun i hi => hf i (Nat.lt_succ_of_lt hi),
      List.mapM_cons, List.mapM_nil, hf n (Nat.lt_succ_self n), List.map_append]
    by_cases hn : n < limit
    · rw [if_pos hn, if_pos (Nat.le_of_lt hn), if_pos (Nat.succ_le_of_lt hn)]
      rfl
    · rw [if_neg hn, if_neg (fun hle => hn (Nat.lt_of_succ_le hle))]
      split <;> rfl

/-- A listing tells the tasks behind the head, and fails if it has to count beyond the last word. -/
theorem contents_eq : r.contents capacity =
    if r.header.head.toNat + (r.occupied capacity).toNat ≤ UInt64.size then
      .ok (r.queued capacity)
    else .error .overflow := by
  have hhead := r.header.head.toNat_lt_size
  have hoccupied := (r.occupied capacity).toNat_lt_size
  have hstep : ∀ i < (r.occupied capacity).toNat,
      (r.indexBehindHead capacity i).map (fun index => (r.slot index).toTask) =
        if i < UInt64.size - r.header.head.toNat then
          .ok (r.slot ((r.header.head.toNat + i) % capacity.toNat)).toTask
        else .error .overflow := by
    intro i hi
    have hword : i < UInt64.size - r.header.head.toNat ↔
        r.header.head.toNat + i < UInt64.size := by omega
    rw [indexBehindHead_eq (by omega)]
    simp only [hword]
    split <;> rfl
  have hwords : (r.occupied capacity).toNat ≤ UInt64.size - r.header.head.toNat ↔
      r.header.head.toNat + (r.occupied capacity).toNat ≤ UInt64.size := by omega
  rw [contents, mapM_range hstep]
  simp only [hwords]
  rfl

/-! ### The words of the header -/

/-- A new region holds no task. -/
theorem holds_fresh (h : capacity ≠ 0) (haddressable : Addressable capacity) :
    (fresh capacity).Holds capacity [] where
  addressable := haddressable
  capacity_eq := rfl
  head_lt := toNat_pos h
  window_add := rfl
  tail_eq := (Nat.zero_mod _).symm
  slot_eq := fun h => absurd h (Nat.not_lt_zero _)

/-- The lock may have any value. -/
theorem Holds.withLock (h : r.Holds capacity ts) (lock : UInt32) :
    { r with header := { r.header with lock } }.Holds capacity ts where
  addressable := h.addressable
  capacity_eq := h.capacity_eq
  head_lt := h.head_lt
  window_add := h.window_add
  tail_eq := h.tail_eq
  slot_eq := h.slot_eq

/-- Regions that differ in the lock only hold the same tasks. -/
theorem Holds.of_unlock_eq {r' : Region} (h : r.Holds capacity ts) (heq : r'.unlock = r.unlock) :
    r'.Holds capacity ts := by
  have hunlocked : r'.unlock.Holds capacity ts := heq ▸ h.withLock 0
  exact hunlocked.withLock r'.header.lock

theorem Holds.length_le (h : r.Holds capacity ts) : ts.length ≤ capacity.toNat := by
  have hadd := h.window_add
  omega

theorem Holds.tail_lt (h : r.Holds capacity ts) : r.header.tail.toNat < capacity.toNat := by
  rw [h.tail_eq]
  exact Nat.mod_lt _ (Nat.zero_lt_of_lt h.head_lt)

/-- The window never exceeds the capacity, so no reader has to cut it. -/
theorem Holds.free_eq (h : r.Holds capacity ts) : r.free capacity = r.header.window := by
  have hle : r.header.window ≤ capacity := by
    have hadd := h.window_add
    rw [UInt64.le_iff_toNat_le]
    omega
  exact if_pos hle

/-- The number of occupied slots is the number of tasks. -/
theorem Holds.occupied_eq (h : r.Holds capacity ts) :
    (r.occupied capacity).toNat = ts.length := by
  have hadd := h.window_add
  rw [toNat_occupied]
  omega

theorem Holds.isEmpty_iff (h : r.Holds capacity ts) : r.isEmpty capacity = true ↔ ts = [] := by
  have hadd := h.window_add
  rw [isEmpty, h.free_eq, decide_eq_true_iff, ge_iff_le, UInt64.le_iff_toNat_le,
    ← List.length_eq_zero_iff]
  omega

/-- Stepping an index onward, back to the start at the end. -/
theorem toNat_advance (h : 0 < capacity.toNat) (i : UInt64) :
    ((i % capacity + 1) % capacity).toNat = (i.toNat + 1) % capacity.toNat := by
  have hlt := capacity.toNat_lt
  have hmod := Nat.mod_lt i.toNat h
  have hadd : (i % capacity + 1).toNat = i.toNat % capacity.toNat + 1 := by
    rw [UInt64.toNat_add, UInt64.toNat_mod, UInt64.toNat_one]
    exact Nat.mod_eq_of_lt (by omega)
  rw [UInt64.toNat_mod, hadd, Nat.mod_add_mod]

/-- Two places less than a whole round apart have different indices. -/
private theorem mod_ne_mod {head c i j : Nat} (hij : i < j) (hj : j < i + c) :
    (head + i) % c ≠ (head + j) % c := by
  intro heq
  -- else their distance would be a multiple of the capacity
  have hzero := Nat.sub_mod_eq_zero_of_mod_eq heq.symm
  rw [Nat.add_sub_add_left, Nat.mod_eq_of_lt (by omega)] at hzero
  omega

/-! ### Work under the lock -/

/-- A full queue takes no task. -/
theorem Holds.push_full (h : r.Holds capacity ts) (hfull : ts.length = capacity.toNat) :
    r.push capacity t = .error .full := by
  have hadd := h.window_add
  have hlt : r.header.window < 1 := by
    rw [UInt64.lt_iff_toNat_lt, UInt64.toNat_one]
    omega
  simp only [push, h.free_eq, if_pos hlt]

/-- Nothing but a full queue keeps a task out. -/
theorem push_error {e : RingError} (h : r.push capacity t = .error e) : e = .full := by
  simp only [push] at h
  split at h
  · cases h
    rfl
  · cases h

/-- A task that finds room becomes the last one. -/
theorem Holds.push (h : r.Holds capacity ts) (hroom : ts.length < capacity.toNat) :
    ∃ r', r.push capacity t = .ok r' ∧ r'.Holds capacity (ts ++ [t.image]) ∧
      r'.header.lock = r.header.lock := by
  have hadd := h.window_add
  have hle : 1 ≤ r.header.window := by
    rw [UInt64.le_iff_toNat_le, UInt64.toNat_one]
    omega
  have hnlt : ¬ r.header.window < 1 := UInt64.not_lt.2 hle
  have htail : (r.header.tail % capacity).toNat = r.header.tail.toNat := by
    rw [UInt64.toNat_mod, Nat.mod_eq_of_lt h.tail_lt]
  simp only [Region.push, h.free_eq, if_neg hnlt]
  refine ⟨_, rfl, ⟨h.addressable, h.capacity_eq, h.head_lt, ?window, ?tail, ?slot⟩, rfl⟩
  case window =>
    -- one slot less is free, and one task more is queued
    rw [UInt64.toNat_sub_of_le _ _ hle, List.length_append, List.length_singleton,
      UInt64.toNat_one]
    omega
  case tail =>
    show ((r.header.tail % capacity + 1) % capacity).toNat = _
    rw [toNat_advance (Nat.zero_lt_of_lt h.tail_lt), h.tail_eq, List.length_append,
      List.length_singleton, Nat.mod_add_mod, Nat.add_assoc]
  case slot =>
    intro i hi
    rw [List.length_append, List.length_singleton] at hi
    simp only [slot, OrderedMap.get?_insert, htail, h.tail_eq]
    by_cases hlast : i = ts.length
    · subst hlast
      rw [if_pos rfl, List.getElem_concat_length rfl]
      rfl
    · -- the older tasks lie less than a round in front of the new one
      have hlt : i < ts.length := by omega
      rw [if_neg (mod_ne_mod hlt (by omega)), List.getElem_append_left hlt]
      exact h.slot_eq hlt

/-- A task that has been taken is the last one. -/
theorem Holds.of_push {r' : Region} (h : r.Holds capacity ts) (hpush : r.push capacity t = .ok r') :
    r'.Holds capacity (ts ++ [t.image]) := by
  have hroom : ts.length < capacity.toNat := by
    apply Nat.lt_of_le_of_ne h.length_le
    intro hfull
    rw [h.push_full hfull] at hpush
    cases hpush
  obtain ⟨r₁, hpush₁, hholds, -⟩ := h.push (t := t) hroom
  obtain rfl : r₁ = r' := Except.ok.inj (hpush₁.symm.trans hpush)
  exact hholds

/-- An empty queue gives no task. -/
theorem Holds.pop_nil (h : r.Holds capacity []) : r.pop capacity = .error .empty := by
  have hadd := h.window_add
  have hle : r.header.window ≥ capacity := by
    rw [ge_iff_le, UInt64.le_iff_toNat_le]
    exact Nat.le_of_eq hadd.symm
  simp only [pop, h.free_eq, if_pos hle]

/-- The first task leaves. -/
theorem Holds.pop (h : r.Holds capacity (t :: ts)) :
    ∃ r', r.pop capacity = .ok (t, r') ∧ r'.Holds capacity ts ∧
      r'.header.lock = r.header.lock := by
  have hadd := h.window_add
  have hlt := capacity.toNat_lt
  rw [List.length_cons] at hadd
  have hnle : ¬ r.header.window ≥ capacity := by
    rw [ge_iff_le, UInt64.le_iff_toNat_le]
    omega
  have hhead : (r.header.head % capacity).toNat = r.header.head.toNat := by
    rw [UInt64.toNat_mod, Nat.mod_eq_of_lt h.head_lt]
  -- the head shows where the first task lies
  have hfirst : (r.slot r.header.head.toNat).toTask = t := by
    have hslot := h.slot_eq (i := 0) (Nat.zero_lt_succ _)
    rwa [Nat.add_zero, Nat.mod_eq_of_lt h.head_lt] at hslot
  have hnext := toNat_advance (Nat.zero_lt_of_lt h.head_lt)
  simp only [Region.pop, h.free_eq, if_neg hnle, hhead, hfirst]
  refine ⟨_, rfl, ⟨h.addressable, h.capacity_eq, ?head, ?window, ?tail, ?slot⟩, rfl⟩
  case head =>
    show ((r.header.head % capacity + 1) % capacity).toNat < _
    rw [hnext]
    exact Nat.mod_lt _ (Nat.zero_lt_of_lt h.head_lt)
  case window =>
    show (r.header.window + 1).toNat + _ = _
    rw [UInt64.toNat_add, UInt64.toNat_one, Nat.mod_eq_of_lt (by omega)]
    omega
  case tail =>
    -- the tail stays while the head goes one place on and one task leaves
    show _ = (((r.header.head % capacity + 1) % capacity).toNat + _) % _
    rw [hnext, h.tail_eq, List.length_cons, Nat.mod_add_mod]
    congr 1
    omega
  case slot =>
    -- the task at `i` was the one at `i + 1`
    intro i hi
    show (r.slot ((((r.header.head % capacity + 1) % capacity).toNat + i) % _)).toTask = _
    have hslot := h.slot_eq (i := i + 1) (Nat.succ_lt_succ hi)
    rw [hnext, Nat.mod_add_mod, Nat.add_assoc, Nat.add_comm 1 i, hslot]
    rfl

/-- The tasks behind the head are the queued ones. -/
theorem Holds.queued_eq (h : r.Holds capacity ts) : r.queued capacity = ts := by
  have hlength : (r.queued capacity).length = ts.length := length_queued.trans h.occupied_eq
  apply List.ext_getElem hlength
  intro i hi hi'
  simp only [queued, List.getElem_map, List.getElem_range]
  exact h.slot_eq hi'

/-- The listed tasks are the queued ones, first to leave first. -/
theorem Holds.contents_eq (h : r.Holds capacity ts) : r.contents capacity = .ok ts := by
  -- a word that tells the bytes of all slots goes far enough to count places behind the head
  have hfits : r.header.head.toNat + (r.occupied capacity).toNat ≤ UInt64.size := by
    have haddressable := h.addressable
    have hhead := h.head_lt
    have hlength := h.length_le
    rw [Addressable, extent, Header.size, slotSize] at haddressable
    rw [h.occupied_eq]
    omega
  rw [Region.contents_eq, if_pos hfits, h.queued_eq]

/-! ### Single operations -/

/-- While another holder has the lock, a single operation does nothing. -/
theorem exclusively_locked {α : Type} (h : r.header.lock ≠ 0)
    (work : Region → Except RingError (α × Region)) :
    r.exclusively work = (.error .locked, r) := by
  simp only [exclusively, tryLock, if_neg h]

/-- A region without its lock is the region if the lock is free. -/
theorem unlock_eq_self (h : r.header.lock = 0) : r.unlock = r := by
  obtain ⟨size, ⟨lock, head, tail, window, cap, magic⟩, slots⟩ := r
  subst h
  rfl

/-- With the lock free, a single operation does its work with the lock at 1 and leaves it at 0.
Work that fails leaves the region as it was. -/
theorem exclusively_free {α : Type} (h : r.header.lock = 0)
    (work : Region → Except RingError (α × Region)) :
    r.exclusively work =
      match work { r with header := { r.header with lock := 1 } } with
      | .ok (a, done) => (.ok a, done.unlock)
      | .error e => (.error e, r) := by
  simp only [exclusively, tryLock, if_pos h]
  cases work { r with header := { r.header with lock := 1 } } with
  | ok done => rfl
  | error e => exact congrArg (Prod.mk _) (unlock_eq_self h)

/-- With the lock free, queueing a task is pushing it. -/
theorem enqueue_free (h : r.header.lock = 0) :
    r.enqueue capacity t =
      match r.push capacity t with
      | .ok r' => (.ok (), r')
      | .error e => (.error e, r) := by
  rw [enqueue, exclusively_free h]
  obtain ⟨size, ⟨lock, head, tail, window, cap, magic⟩, slots⟩ := r
  subst h
  by_cases hfull : min window capacity < 1
  · simp only [push, free, hfull, ↓reduceIte]
    rfl
  · simp only [push, free, hfull, ↓reduceIte]
    rfl

/-- With the lock free, taking the first task is popping it. -/
theorem dequeue_free (h : r.header.lock = 0) :
    r.dequeue capacity =
      match r.pop capacity with
      | .ok (t, r') => (.ok t, r')
      | .error e => (.error e, r) := by
  rw [dequeue, exclusively_free h]
  obtain ⟨size, ⟨lock, head, tail, window, cap, magic⟩, slots⟩ := r
  subst h
  by_cases hempty : min window capacity ≥ capacity
  · simp only [pop, free, hempty, ↓reduceIte]
  · simp only [pop, free, hempty, ↓reduceIte]
    rfl

/-- With the lock free, listing the tasks is reading them, and the queue stays as it is. -/
theorem list_free (h : r.header.lock = 0) : r.list capacity = (r.contents capacity, r) := by
  have hheld : ({ r with header := { r.header with lock := 1 } } : Region).contents capacity =
      r.contents capacity := rfl
  rw [list, exclusively_free h, hheld]
  cases r.contents capacity with
  | ok ts => exact congrArg (Prod.mk _) (unlock_eq_self h)
  | error e => rfl

end Region

end RealTime
