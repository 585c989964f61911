import RealTime.Bank
import RealTime.Proofs.Ring.Readers

/-! # What operations leave in a bank

Locks come and go at any moment, tasks do not.  `Bank.unlocked` is a bank without its locks, and
most of what is said about a bank is an equation between such.  The work on a slot is the work
on its region if that is not locked, and nothing otherwise.

* `enqueue_eq`, `list_eq`, `dequeue_eq`  operations on a slot as work on its region
* `unlocked_lock`, `unlocked_unlock`     other processes change locks only
* `Shows.enqueue`, `Shows.dequeue`       what can be found in the queues
* `holds_of_create`                      the queues of a new bank are empty -/

namespace RealTime.Bank

/-- A bank with all locks free. -/
def unlocked (b : Bank) : Bank := { b with queues := b.queues.map Region.unlock }

/-- Put a region in the place of a slot. -/
def put (b : Bank) (slot : Nat) (r : Region) : Bank := { b with queues := b.queues.set slot r }

variable {b b' : Bank} {slot i : Nat} {r r' : Region} {t : Task} {capacity : UInt64}
  {ts : List Task} {P Q : Task → Prop}

/-! ### Banks that differ in locks -/

theorem capacity_eq_of_unlocked (h : b'.unlocked = b.unlocked) : b'.capacity = b.capacity := by
  have hcapacity : b'.unlocked.capacity = b.unlocked.capacity := congrArg Bank.capacity h
  exact hcapacity

theorem count_eq_of_unlocked (h : b'.unlocked = b.unlocked) : b'.count = b.count := by
  have hlength := congrArg Bank.count h
  simpa only [unlocked, count, List.length_map] using hlength

/-- Each slot of a bank without locks has the region without its lock. -/
theorem unlocked_queues_getElem? (b : Bank) (i : Nat) :
    b.unlocked.queues[i]? = b.queues[i]?.map Region.unlock := List.getElem?_map

/-- A slot of one of two banks that differ in locks is a slot of the other. -/
theorem exists_of_unlocked (h : b'.unlocked = b.unlocked) (hr : b.queues[slot]? = some r) :
    ∃ r', b'.queues[slot]? = some r' ∧ r'.unlock = r.unlock := by
  have hmap := unlocked_queues_getElem? b' slot
  rw [h, unlocked_queues_getElem?, hr, Option.map_some] at hmap
  obtain ⟨r', hr', heq⟩ := Option.map_eq_some_iff.1 hmap.symm
  exact ⟨r', hr', heq⟩

theorem unlocked_put (b : Bank) (slot : Nat) (r : Region) :
    (b.put slot r).unlocked = b.unlocked.put slot r.unlock := by
  simp only [unlocked, put, List.map_set]

/-- A region in its own place changes nothing. -/
theorem put_self (h : b.queues[slot]? = some r) : b.put slot r = b := by
  obtain ⟨hlt, hget⟩ := List.getElem?_eq_some_iff.1 h
  rw [put, ← hget, List.set_getElem_self]

theorem unlocked_put_of_unlock_eq (h : b.queues[slot]? = some r) (heq : r'.unlock = r.unlock) :
    (b.put slot r').unlocked = b.unlocked := by
  rw [unlocked_put, heq, ← unlocked_put, put_self h]

theorem put_getElem? (h : slot < b.count) (r : Region) (i : Nat) :
    (b.put slot r).queues[i]? = if slot = i then some r else b.queues[i]? := by
  rw [put, List.getElem?_set]
  split
  · rename_i heq
    subst heq
    rw [if_pos (show slot < b.queues.length from h)]
  · rfl

theorem lt_count (h : b.queues[slot]? = some r) : slot < b.count :=
  (List.getElem?_eq_some_iff.1 h).1

/-! ### Operations on a slot -/

/-- An operation on a slot is an operation on its region. -/
theorem on_eq {α : Type} (h : b.queues[slot]? = some r)
    (op : Region → UInt64 → Except RingError α × Region) :
    b.on slot op = ((op r b.capacity).1, b.put slot (op r b.capacity).2) := by
  simp only [on, queue, h]
  rfl

/-- There is no operation on a slot that the bank does not have. -/
theorem on_none {α : Type} (h : b.queues[slot]? = none)
    (op : Region → UInt64 → Except RingError α × Region) :
    b.on slot op = (.error (.noSuchQueue slot b.count), b) := by
  simp only [on, queue, h]

/-- An operation on one slot leaves the others alone. -/
theorem on_frame {α : Type} (h : slot ≠ i)
    (op : Region → UInt64 → Except RingError α × Region) :
    (b.on slot op).2.queues[i]? = b.queues[i]? := by
  cases hr : b.queues[slot]? with
  | none => rw [on_none hr]
  | some r =>
    rw [on_eq hr, put_getElem? (lt_count hr)]
    exact if_neg h

theorem on_capacity {α : Type} (b : Bank) (slot : Nat)
    (op : Region → UInt64 → Except RingError α × Region) :
    (b.on slot op).2.capacity = b.capacity := by
  cases hr : b.queues[slot]? with
  | none => rw [on_none hr]
  | some r => rw [on_eq hr, put]

/-- A locked queue takes no task; a free one takes what its region takes. -/
theorem enqueue_eq (h : b.queues[slot]? = some r) :
    b.enqueue slot t =
      if r.header.lock = 0 then
        match r.push b.capacity t with
        | .ok r' => (.ok (), b.put slot r')
        | .error e => (.error e, b)
      else (.error .locked, b) := by
  rw [enqueue, on_eq h]
  split
  · rename_i hlock
    rw [Region.enqueue_free hlock]
    cases r.push b.capacity t with
    | ok r' => rfl
    | error e => exact congrArg (Prod.mk _) (put_self h)
  · rename_i hlock
    rw [Region.enqueue, Region.exclusively_locked hlock]
    exact congrArg (Prod.mk _) (put_self h)

/-- A locked queue gives no task; a free one gives what its region gives. -/
theorem dequeue_eq (h : b.queues[slot]? = some r) :
    b.dequeue slot =
      if r.header.lock = 0 then
        match r.pop b.capacity with
        | .ok (t, r') => (.ok t, b.put slot r')
        | .error e => (.error e, b)
      else (.error .locked, b) := by
  rw [dequeue, on_eq h]
  split
  · rename_i hlock
    rw [Region.dequeue_free hlock]
    cases r.pop b.capacity with
    | ok popped => rfl
    | error e => exact congrArg (Prod.mk _) (put_self h)
  · rename_i hlock
    rw [Region.dequeue, Region.exclusively_locked hlock]
    exact congrArg (Prod.mk _) (put_self h)

/-- A queue is listed if it is not locked, and changes in no case. -/
theorem list_eq (h : b.queues[slot]? = some r) :
    b.list slot = (if r.header.lock = 0 then r.contents b.capacity else .error .locked, b) := by
  rw [list, on_eq h]
  split
  · rename_i hlock
    rw [Region.list_free hlock]
    exact congrArg (Prod.mk _) (put_self h)
  · rename_i hlock
    rw [Region.list, Region.exclusively_locked hlock]
    exact congrArg (Prod.mk _) (put_self h)

/-! ### Other processes -/

/-- Taking a lock changes nothing else. -/
theorem unlocked_lock (b : Bank) (slot : Nat) : (b.lock slot).2.unlocked = b.unlocked := by
  cases hr : b.queues[slot]? with
  | none => rw [lock, on_none hr]
  | some r =>
    rw [lock, on_eq hr]
    apply unlocked_put_of_unlock_eq hr
    by_cases hlock : r.header.lock = 0
    · simp only [Region.tryLock, if_pos hlock]
      rfl
    · simp only [Region.tryLock, if_neg hlock]

/-- Freeing a lock changes nothing else. -/
theorem unlocked_unlock (b : Bank) (slot : Nat) : (b.unlock slot).2.unlocked = b.unlocked := by
  simp only [unlock]
  split
  · rename_i r hr
    split
    · rfl
    · exact unlocked_put_of_unlock_eq hr rfl
  · rfl

/-! ### What can be found in the queues -/

/-- All tasks that can be found in the queues have a property. -/
structure Shows (b : Bank) (P : Task → Prop) : Prop where
  shows : ∀ {i : Nat} {r : Region}, b.queues[i]? = some r → r.Shows b.capacity P

theorem Shows.mono (h : b.Shows P) (hPQ : ∀ t, P t → Q t) : b.Shows Q :=
  ⟨fun hr => (h.shows hr).mono hPQ⟩

/-- Locks do not count. -/
theorem Shows.unlocked (h : b.Shows P) (heq : b'.unlocked = b.unlocked) : b'.Shows P := by
  refine ⟨fun hr => ?_⟩
  obtain ⟨r, hr', hlock⟩ := exists_of_unlocked heq.symm hr
  rw [capacity_eq_of_unlocked heq]
  exact (h.shows hr').of_unlock_eq hlock.symm

theorem Shows.put (h : b.Shows P) (hr : b.queues[slot]? = some r) (hshows : r'.Shows b.capacity P) :
    (b.put slot r').Shows P := by
  refine ⟨fun hget => ?_⟩
  rw [put_getElem? (lt_count hr)] at hget
  split at hget
  · cases hget
    exact hshows
  · exact h.shows hget

theorem Shows.push (h : b.Shows P) (ht : P t.image) (hr : b.queues[slot]? = some r)
    (hpush : r.push b.capacity t = .ok r') : (b.put slot r').Shows P :=
  h.put hr ((h.shows hr).push ht hpush)

/-- A task that is queued can be found besides. -/
theorem Shows.enqueue (h : b.Shows P) (ht : P t.image) (slot : Nat) :
    (b.enqueue slot t).2.Shows P := by
  cases hr : b.queues[slot]? with
  | none =>
    rw [Bank.enqueue, on_none hr]
    exact h
  | some r =>
    rw [enqueue_eq hr]
    split
    · cases hpush : r.push b.capacity t with
      | ok r' => exact h.push ht hr hpush
      | error e => exact h
    · exact h

/-- The task that leaves could be found, and nothing else can be found then. -/
theorem Shows.dequeue (h : b.Shows P) (slot : Nat) :
    (∀ t, (b.dequeue slot).1 = .ok t → P t) ∧ (b.dequeue slot).2.Shows P := by
  -- a request that fails gives no task and leaves the bank as it is
  have hfails : ∀ e : RingError,
      (∀ t, (Except.error e : Except RingError Task) = .ok t → P t) ∧ b.Shows P := by
    refine fun e => ⟨fun t heq => ?_, h⟩
    cases heq
  cases hr : b.queues[slot]? with
  | none =>
    rw [Bank.dequeue, on_none hr]
    exact hfails _
  | some r =>
    rw [dequeue_eq hr]
    split
    · cases hpop : r.pop b.capacity with
      | error e => exact hfails e
      | ok popped =>
        obtain ⟨ht, hshows⟩ := (h.shows hr).pop hpop
        refine ⟨fun t heq => ?_, h.put hr hshows⟩
        cases heq
        exact ht
    · exact hfails _

/-- A listing tells nothing else. -/
theorem Shows.listed (h : b.Shows P) (hlist : (b.list slot).1 = .ok ts) (ht : t ∈ ts) : P t := by
  cases hr : b.queues[slot]? with
  | none =>
    rw [list, on_none hr] at hlist
    cases hlist
  | some r =>
    rw [list_eq hr] at hlist
    split at hlist
    · exact (h.shows hr).contents hlist t ht
    · cases hlist

/-! ### Sound banks -/

/-- Every region of a bank is a queue. -/
structure Sound (b : Bank) : Prop where
  holds : ∀ {i : Nat} {r : Region}, b.queues[i]? = some r → ∃ ts, r.Holds b.capacity ts

/-- In a sound bank there are queues, whatever can be found in them. -/
theorem sound_iff_shows : b.Sound ↔ b.Shows fun _ => True where
  mp h := by
    refine ⟨fun hr => ?_⟩
    obtain ⟨ts, hholds⟩ := h.holds hr
    exact ⟨ts, hholds, fun _ _ => trivial⟩
  mpr h := by
    refine ⟨fun hr => ?_⟩
    obtain ⟨ts, hholds, -⟩ := h.shows hr
    exact ⟨ts, hholds⟩

/-- Locks do not count. -/
theorem Sound.unlocked (h : b.Sound) (heq : b'.unlocked = b.unlocked) : b'.Sound :=
  sound_iff_shows.2 ((sound_iff_shows.1 h).unlocked heq)

/-- A region that takes a task stays a queue. -/
theorem Sound.push (h : b.Sound) (hr : b.queues[slot]? = some r)
    (hpush : r.push b.capacity t = .ok r') : (b.put slot r').Sound :=
  sound_iff_shows.2 ((sound_iff_shows.1 h).push trivial hr hpush)

theorem Sound.enqueue (h : b.Sound) (slot : Nat) (t : Task) : (b.enqueue slot t).2.Sound :=
  sound_iff_shows.2 ((sound_iff_shows.1 h).enqueue trivial slot)

theorem Sound.dequeue (h : b.Sound) (slot : Nat) : (b.dequeue slot).2.Sound :=
  sound_iff_shows.2 ((sound_iff_shows.1 h).dequeue slot).2

/-! ### Numbers of queues -/

theorem count_put (b : Bank) (slot : Nat) (r : Region) : (b.put slot r).count = b.count :=
  List.length_set

theorem on_count {α : Type} (b : Bank) (slot : Nat)
    (op : Region → UInt64 → Except RingError α × Region) :
    (b.on slot op).2.count = b.count := by
  cases hr : b.queues[slot]? with
  | none => rw [on_none hr]
  | some r => rw [on_eq hr, count_put]

/-! ### New banks -/

private theorem createQueue_eq {tree tree' : FileTree} {directory : String}
    (h : createQueue tree directory capacity slot = .ok (r, tree')) : r.Holds capacity [] := by
  simp only [createQueue] at h
  split at h
  · cases h
  · rename_i hne
    split at h
    · cases h
    · rename_i length hlength
      split at h
      · cases h
      · split at h
        · cases h
        · cases h
          rw [Region.initialise_zeros hlength]
          exact Region.holds_fresh hne (Region.addressable_of_lengthFor hlength)

private theorem createQueues_eq {tree : FileTree} {directory : String} {count : Nat}
    {queues : List Region} (h : createQueues tree directory capacity slot count = .ok queues) :
    queues.length = count ∧ ∀ r ∈ queues, r.Holds capacity [] := by
  induction count generalizing tree slot queues with
  | zero =>
    cases h
    exact ⟨rfl, fun _ hr => nomatch hr⟩
  | succ count ih =>
    simp only [createQueues, bind, Except.bind] at h
    split at h
    · cases h
    · rename_i made hmade
      obtain ⟨r, tree'⟩ := made
      simp only at h
      split at h
      · cases h
      · rename_i rest hrest
        cases h
        obtain ⟨hlength, hempty⟩ := ih hrest
        refine ⟨congrArg Nat.succ hlength, fun r' hr' => ?_⟩
        rcases List.mem_cons.1 hr' with rfl | hr'
        · exact createQueue_eq hmade
        · exact hempty r' hr'

/-- The queues of a new bank are empty. -/
theorem holds_of_create {tree : FileTree} {directory : String} {count : Nat}
    (h : create tree directory count capacity = .ok b) :
    b.capacity = capacity ∧ b.count = count ∧
      ∀ {i : Nat} {r : Region}, b.queues[i]? = some r → r.Holds capacity [] := by
  simp only [create] at h
  split at h
  · cases h
  · rename_i tree' _
    cases hqueues : createQueues tree' directory capacity 0 count with
    | error e =>
      rw [hqueues] at h
      cases h
    | ok queues =>
      rw [hqueues] at h
      cases h
      obtain ⟨hlength, hempty⟩ := createQueues_eq hqueues
      exact ⟨rfl, hlength, fun hr => hempty _ (List.mem_of_getElem? hr)⟩

/-- In a new bank, nothing can be found. -/
theorem shows_of_create {tree : FileTree} {directory : String} {count : Nat} {capacity : UInt64}
    (h : create tree directory count capacity = .ok b) : b.Shows P := by
  obtain ⟨rfl, -, hempty⟩ := holds_of_create h
  exact ⟨fun hr => (hempty hr).shows⟩

end RealTime.Bank
