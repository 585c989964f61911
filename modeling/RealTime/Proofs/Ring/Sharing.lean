import RealTime.Proofs.Ordered
import RealTime.Proofs.Ring.Queue
import RealTime.Ring.Host

/-! # Processes that share a queue

One queue of tasks, seen through every mapping and every held lock of a host.  `Shares` is the
invariant: there is memory for one file only, every mapping and every lock is about that file,
at most one lock is held, and the lock word tells whether there is one.

* `Shares.write`, `Shares.release`, `Shares.hold`  what keeps the invariant
* `Shares.through_eq`, `Shares.under_eq`  operations of a host as operations on the region
* `Queues.perform`  one request: the tasks change as the answer says
* `serves_run`      all runs of processes that share a queue -/

namespace RealTime.Host

variable {h : Host} {file : Nat} {capacity : UInt64} {r r' : Region} {name : String}

/-- The memory of one file is a queue that all processes of a host share. -/
structure Shares (h : Host) (file : Nat) (capacity : UInt64) (r : Region) : Prop where
  region : h.memory.get? file = some r
  alone : ∀ {f : Nat}, f ≠ file → h.memory.get? f = none
  capacity_eq : r.header.capacity = capacity
  mapping : ∀ {name : String} {m : Mapping}, h.mappings.get? name = some m →
    m.file = file ∧ m.handle.capacity = capacity
  guard : ∀ {name : String} {g : Guard}, h.guards.get? name = some g →
    g.file = file ∧ g.capacity = capacity
  size_le : h.guards.size ≤ 1
  lock : r.header.lock = if h.guards.size = 0 then 0 else 1

/-! ### What keeps the invariant -/

theorem Shares.region_eq (hs : h.Shares file capacity r) : h.region file = r := by
  rw [Host.region, hs.region, Option.getD_some]

/-- Writing what is there changes nothing. -/
theorem Shares.setRegion_self (hs : h.Shares file capacity r) : h.setRegion file r = h := by
  rw [setRegion, OrderedMap.insert_get? hs.region]

/-- The memory may change as long as the lock word and the capacity stay. -/
theorem Shares.write (hs : h.Shares file capacity r) (hcap : r'.header.capacity = capacity)
    (hlock : r'.header.lock = r.header.lock) :
    (h.setRegion file r').Shares file capacity r' where
  region := by simp only [setRegion, OrderedMap.get?_insert, if_pos]
  alone := fun hf => by
    simp only [setRegion, OrderedMap.get?_insert, if_neg hf]
    exact hs.alone hf
  capacity_eq := hcap
  mapping := hs.mapping
  guard := hs.guard
  size_le := hs.size_le
  lock := hlock.trans hs.lock

/-- Names of files do not matter. -/
theorem Shares.withTree (hs : h.Shares file capacity r) (tree : FileTree) :
    { h with tree }.Shares file capacity r := { hs with }

theorem Shares.withMappings (hs : h.Shares file capacity r) {mappings : OrderedMap String Mapping}
    (hall : ∀ {name : String} {m : Mapping}, mappings.get? name = some m →
      m.file = file ∧ m.handle.capacity = capacity) :
    { h with mappings }.Shares file capacity r := { hs with mapping := hall }

/-- When the only lock is freed, none is held. -/
theorem Shares.release (hs : h.Shares file capacity r) {g : Guard}
    (hg : h.guards.get? name = some g) :
    (h.release name g).Shares file capacity r.unlock ∧ (h.release name g).guards.size = 0 := by
  have hsize : (h.guards.erase name).size = 0 := OrderedMap.size_erase_eq_zero hs.size_le hg
  -- the lock that is freed is the only one, so the lock word tells the truth again
  have hrelease : h.release name g =
      { h with guards := h.guards.erase name }.setRegion file r.unlock := by
    rw [Host.release, (hs.guard hg).1, hs.region_eq]
  rw [hrelease]
  refine ⟨⟨?region, ?alone, hs.capacity_eq, hs.mapping, ?guard, ?size, ?lock⟩, hsize⟩
  case region => simp only [setRegion, OrderedMap.get?_insert, if_pos]
  case alone =>
    intro f hf
    simp only [setRegion, OrderedMap.get?_insert, if_neg hf]
    exact hs.alone hf
  case guard =>
    intro name' g' hget
    rw [setRegion, OrderedMap.get?_of_size_eq_zero hsize name'] at hget
    cases hget
  case size =>
    show (h.guards.erase name).size ≤ 1
    omega
  case lock => exact (if_pos hsize).symm

/-- A lock that is taken while none is held becomes the only one. -/
theorem Shares.hold (hs : h.Shares file capacity r) (name : String) (hfree : h.guards.size = 0)
    {g : Guard} (hg : g.file = file ∧ g.capacity = capacity) :
    let taken : Region := { r with header := { r.header with lock := 1 } }
    ((h.setRegion file taken).hold name g).Shares file capacity taken ∧
      ((h.setRegion file taken).hold name g).guards.size = 1 := by
  intro taken
  have hnone : (h.setRegion file taken).guards.get? name = none :=
    OrderedMap.get?_of_size_eq_zero hfree name
  have hsize : (h.guards.insert name g).size = 1 := OrderedMap.size_insert_eq_one hfree name g
  simp only [Host.hold, hnone]
  refine ⟨⟨?region, ?alone, hs.capacity_eq, hs.mapping, ?guard, Nat.le_of_eq hsize, ?lock⟩, hsize⟩
  case region => simp only [setRegion, OrderedMap.get?_insert, if_pos]
  case alone =>
    intro f hf
    simp only [setRegion, OrderedMap.get?_insert, if_neg hf]
    exact hs.alone hf
  case guard =>
    intro name' g' hget
    simp only [setRegion, OrderedMap.get?_insert] at hget
    split at hget
    · cases hget
      exact hg
    · have hempty := OrderedMap.get?_of_size_eq_zero hfree name'
      rw [hempty] at hget
      cases hget
  case lock =>
    have hne : ¬ (h.guards.insert name g).size = 0 := by omega
    exact (if_neg hne).symm

/-- Unmapping frees at most the lock. -/
theorem Shares.unmap (hs : h.Shares file capacity r) (name : String) (m : Mapping) :
    ∃ lock, (h.unmap name m).Shares file capacity
      { r with header := { r.header with lock } } := by
  simp only [Host.unmap]
  -- at most one lock is held, so the walk over the held locks has at most one step
  rcases OrderedMap.entries_of_size_le_one hs.size_le with hnil | ⟨e, he⟩
  · refine ⟨r.header.lock, ?_⟩
    rw [hnil, List.foldl_nil]
    split
    · exact hs.withTree _
    · exact hs
  · have hget := OrderedMap.get?_of_entries_eq_singleton he
    rw [he, List.foldl_cons, List.foldl_nil]
    by_cases hthrough : e.2.mapping = name
    · refine ⟨0, ?_⟩
      rw [if_pos hthrough]
      have hrel := (hs.release hget).1
      split
      · exact hrel.withTree _
      · exact hrel
    · refine ⟨r.header.lock, ?_⟩
      rw [if_neg hthrough]
      split
      · exact hs.withTree _
      · exact hs

/-- A new mapping of the file joins the others. -/
theorem Shares.bind (hs : h.Shares file capacity r) (name : String) {m : Mapping}
    (hm : m.file = file ∧ m.handle.capacity = capacity) :
    ∃ lock, (h.bind name m).Shares file capacity { r with header := { r.header with lock } } := by
  have hall : ∀ {name' : String} {m' : Mapping},
      (h.mappings.insert name m).get? name' = some m' →
        m'.file = file ∧ m'.handle.capacity = capacity := by
    intro name' m' hget
    rw [OrderedMap.get?_insert] at hget
    split at hget
    · cases hget
      exact hm
    · exact hs.mapping hget
  have hbound := hs.withMappings hall
  simp only [Host.bind]
  -- an older mapping of the same name goes away together with its lock
  split
  · exact hbound.unmap name _
  · exact ⟨r.header.lock, hbound⟩

/-! ### Operations on the shared memory -/

section Perform

variable (h : Host) (name : String) (t : Task)

theorem perform_enqueue : h.perform (.enqueue name t) =
    h.through name (fun () => .queued) fun r capacity => r.enqueue capacity t := rfl

theorem perform_dequeue : h.perform (.dequeue name) =
    h.through name .task fun r capacity => r.dequeue capacity := rfl

theorem perform_list : h.perform (.list name) =
    h.through name .tasks fun r capacity => r.list capacity := rfl

theorem perform_push : h.perform (.push name t) =
    h.under name (fun () => .queued) fun r capacity => (r.push capacity t).map ((), ·) := rfl

theorem perform_pop : h.perform (.pop name) =
    h.under name .task fun r capacity => r.pop capacity := rfl

theorem perform_state : h.perform (.state name) =
    h.under name (fun (window, occupied, empty) => .state window occupied empty)
      fun r capacity => .ok ((r.free capacity, r.occupied capacity, r.isEmpty capacity), r) := rfl

theorem perform_contents : h.perform (.contents name) =
    h.under name .tasks fun r capacity => (r.contents capacity).map (·, r) := rfl

end Perform

/-- An operation through a mapping is an operation on the shared region. -/
theorem Shares.through_eq {α : Type} (hs : h.Shares file capacity r) {m : Mapping}
    (hm : h.mappings.get? name = some m) (reply : α → Reply)
    (op : Region → UInt64 → Except RingError α × Region) :
    h.through name reply op =
      (.ofExcept reply (op r capacity).1, h.setRegion file (op r capacity).2) := by
  obtain ⟨hfile, hcap⟩ := hs.mapping hm
  simp only [through, hm, hfile, hcap, hs.region_eq]

/-- Work under a held lock is work on the shared region. -/
theorem Shares.under_eq {α : Type} (hs : h.Shares file capacity r) {g : Guard}
    (hg : h.guards.get? name = some g) (reply : α → Reply)
    (work : Region → UInt64 → Except RingError (α × Region)) :
    h.under name reply work =
      match work r capacity with
      | .ok (a, r) => (reply a, h.setRegion file r)
      | .error e => (.failed e, h) := by
  obtain ⟨hfile, hcap⟩ := hs.guard hg
  cases hwork : work r capacity with
  | error e => simp only [under, hg, hfile, hcap, hs.region_eq, hwork]
  | ok done =>
    obtain ⟨a, r'⟩ := done
    simp only [under, hg, hfile, hcap, hs.region_eq, hwork]

/-- There is nothing to do through a mapping that is not known. -/
theorem through_none {α : Type} (hm : h.mappings.get? name = none) (reply : α → Reply)
    (op : Region → UInt64 → Except RingError α × Region) :
    h.through name reply op = (.unknownMapping, h) := by
  simp only [through, hm]

/-- Nor under a lock that is not held. -/
theorem under_none {α : Type} (hg : h.guards.get? name = none) (reply : α → Reply)
    (work : Region → UInt64 → Except RingError (α × Region)) :
    h.under name reply work = (.unknownGuard, h) := by
  simp only [under, hg]

/-- A held lock is the only one. -/
theorem Shares.size_eq_one (hs : h.Shares file capacity r) {g : Guard}
    (hg : h.guards.get? name = some g) : h.guards.size = 1 := by
  have hle := hs.size_le
  have hne : h.guards.size ≠ 0 := fun h0 => by
    rw [OrderedMap.get?_of_size_eq_zero h0] at hg
    cases hg
  omega

theorem Shares.lock_ne_zero (hs : h.Shares file capacity r) (hheld : h.guards.size = 1) :
    r.header.lock ≠ 0 := by
  rw [hs.lock, hheld]
  decide

theorem Shares.lock_eq_zero (hs : h.Shares file capacity r) (hfree : h.guards.size = 0) :
    r.header.lock = 0 := by
  rw [hs.lock, if_pos hfree]

/-! ### The queue behind a host -/

variable {ts : List Task} {t : Task} {m : Mapping} {g : Guard}

/-- The processes of a host share a queue with the tasks `ts`. -/
def Queues (h : Host) (file : Nat) (capacity : UInt64) (ts : List Task) : Prop :=
  ∃ r, h.Shares file capacity r ∧ r.Holds capacity ts

theorem Queues.holds (hq : h.Queues file capacity ts) :
    (h.region file).Holds capacity ts := by
  obtain ⟨r, hs, hholds⟩ := hq
  rw [hs.region_eq]
  exact hholds

theorem Queues.lock_eq (hq : h.Queues file capacity ts) :
    (h.region file).header.lock = if h.guards.size = 0 then 0 else 1 := by
  obtain ⟨r, hs, -⟩ := hq
  rw [hs.region_eq]
  exact hs.lock

theorem Queues.size_le (hq : h.Queues file capacity ts) : h.guards.size ≤ 1 := by
  obtain ⟨r, hs, -⟩ := hq
  exact hs.size_le

theorem Queues.size_eq_one (hq : h.Queues file capacity ts)
    (hg : h.guards.get? name = some g) : h.guards.size = 1 := by
  obtain ⟨r, hs, -⟩ := hq
  exact hs.size_eq_one hg

/-- An operation may write tasks and move the head, not touch the lock. -/
private theorem Queues.written {ts' : List Task} (hs : h.Shares file capacity r)
    (hholds : r'.Holds capacity ts') (hlock : r'.header.lock = r.header.lock) :
    (h.setRegion file r').Queues file capacity ts' :=
  ⟨r', hs.write hholds.capacity_eq hlock, hholds⟩

theorem Queues.size_eq_zero_or_one (hq : h.Queues file capacity ts) :
    h.guards.size = 0 ∨ h.guards.size = 1 := by
  have hle := hq.size_le
  omega

/-- While a lock is held, no single operation does anything, through whatever mapping. -/
theorem Queues.locked (hq : h.Queues file capacity ts) (hheld : h.guards.size = 1)
    (hm : h.mappings.get? name = some m) (t : Task) (guard : String) :
    h.perform (.enqueue name t) = (.failed .locked, h) ∧
      h.perform (.dequeue name) = (.failed .locked, h) ∧
      h.perform (.list name) = (.failed .locked, h) ∧
      h.perform (.lock name guard) = (.flag false, h) := by
  obtain ⟨r, hs, -⟩ := hq
  have hlock := hs.lock_ne_zero hheld
  have hnone : r.tryLock = none := if_neg hlock
  refine ⟨?_, ?_, ?_, ?_⟩
  · rw [perform_enqueue, hs.through_eq hm]
    simp only [Region.enqueue, Region.exclusively_locked hlock, hs.setRegion_self, Reply.ofExcept]
  · rw [perform_dequeue, hs.through_eq hm]
    simp only [Region.dequeue, Region.exclusively_locked hlock, hs.setRegion_self, Reply.ofExcept]
  · rw [perform_list, hs.through_eq hm]
    simp only [Region.list, Region.exclusively_locked hlock, hs.setRegion_self, Reply.ofExcept]
  · simp only [perform, hm, (hs.mapping hm).1, hs.region_eq, hnone]

/-! ### Single operations while no lock is held -/

section Free

variable (hq : h.Queues file capacity ts) (hfree : h.guards.size = 0)
  (hm : h.mappings.get? name = some m)

include hq hfree hm

theorem Queues.enqueue_full (hfull : ts.length = capacity.toNat) :
    h.perform (.enqueue name t) = (.failed .full, h) := by
  obtain ⟨r, hs, hholds⟩ := hq
  rw [perform_enqueue, hs.through_eq hm]
  simp only [Region.enqueue_free (hs.lock_eq_zero hfree), hholds.push_full hfull,
    hs.setRegion_self]
  rfl

theorem Queues.enqueue (hroom : ts.length < capacity.toNat) :
    ∃ h', h.perform (.enqueue name t) = (.queued, h') ∧ h'.guards = h.guards ∧
      h'.Queues file capacity (ts ++ [t.image]) := by
  obtain ⟨r, hs, hholds⟩ := hq
  obtain ⟨r', hop, hholds', hlock⟩ := hholds.push (t := t) hroom
  have hreply : h.perform (.enqueue name t) = (.queued, h.setRegion file r') := by
    rw [perform_enqueue, hs.through_eq hm]
    simp only [Region.enqueue_free (hs.lock_eq_zero hfree), hop]
    rfl
  exact ⟨h.setRegion file r', hreply, rfl, Queues.written hs hholds' hlock⟩

theorem Queues.list : h.perform (.list name) = (.tasks ts, h) := by
  obtain ⟨r, hs, hholds⟩ := hq
  rw [perform_list, hs.through_eq hm]
  simp only [Region.list_free (hs.lock_eq_zero hfree), hholds.contents_eq, hs.setRegion_self]
  rfl

theorem Queues.lock (guard : String) :
    ∃ h', h.perform (.lock name guard) = (.flag true, h') ∧ h'.guards.size = 1 ∧
      h'.Queues file capacity ts := by
  obtain ⟨r, hs, hholds⟩ := hq
  obtain ⟨hfile, hcap⟩ := hs.mapping hm
  have hhold := hs.hold guard hfree (g := ⟨name, file, capacity⟩) ⟨rfl, rfl⟩
  refine ⟨_, ?_, hhold.2, _, hhold.1, hholds.withLock 1⟩
  simp only [perform, hm, hfile, hcap, hs.region_eq, Region.tryLock,
    if_pos (hs.lock_eq_zero hfree)]

end Free

theorem Queues.dequeue_nil (hq : h.Queues file capacity []) (hfree : h.guards.size = 0)
    (hm : h.mappings.get? name = some m) : h.perform (.dequeue name) = (.failed .empty, h) := by
  obtain ⟨r, hs, hholds⟩ := hq
  rw [perform_dequeue, hs.through_eq hm]
  simp only [Region.dequeue_free (hs.lock_eq_zero hfree), hholds.pop_nil, hs.setRegion_self]
  rfl

theorem Queues.dequeue (hq : h.Queues file capacity (t :: ts)) (hfree : h.guards.size = 0)
    (hm : h.mappings.get? name = some m) :
    ∃ h', h.perform (.dequeue name) = (.task t, h') ∧ h'.guards = h.guards ∧
      h'.Queues file capacity ts := by
  obtain ⟨r, hs, hholds⟩ := hq
  obtain ⟨r', hop, hholds', hlock⟩ := hholds.pop
  refine ⟨h.setRegion file r', ?_, rfl, Queues.written hs hholds' hlock⟩
  rw [perform_dequeue, hs.through_eq hm]
  simp only [Region.dequeue_free (hs.lock_eq_zero hfree), hop]
  rfl

/-! ### Work under the held lock -/

section Held

variable (hq : h.Queues file capacity ts) (hg : h.guards.get? name = some g)

include hq hg

theorem Queues.push_full (hfull : ts.length = capacity.toNat) :
    h.perform (.push name t) = (.failed .full, h) := by
  obtain ⟨r, hs, hholds⟩ := hq
  rw [perform_push, hs.under_eq hg, hholds.push_full hfull]
  rfl

theorem Queues.push (hroom : ts.length < capacity.toNat) :
    ∃ h', h.perform (.push name t) = (.queued, h') ∧ h'.guards = h.guards ∧
      h'.Queues file capacity (ts ++ [t.image]) := by
  obtain ⟨r, hs, hholds⟩ := hq
  obtain ⟨r', hop, hholds', hlock⟩ := hholds.push (t := t) hroom
  have hreply : h.perform (.push name t) = (.queued, h.setRegion file r') := by
    rw [perform_push, hs.under_eq hg, hop]
    rfl
  exact ⟨h.setRegion file r', hreply, rfl, Queues.written hs hholds' hlock⟩

theorem Queues.contents : h.perform (.contents name) = (.tasks ts, h) := by
  obtain ⟨r, hs, hholds⟩ := hq
  rw [perform_contents, hs.under_eq hg]
  simp only [hholds.contents_eq, Except.map, hs.setRegion_self]

theorem Queues.state :
    h.perform (.state name) = (.state (h.region file).header.window
      ((h.region file).occupied capacity) ts.isEmpty, h) := by
  obtain ⟨r, hs, hholds⟩ := hq
  have hempty : r.isEmpty capacity = ts.isEmpty := by
    rw [Bool.eq_iff_iff, hholds.isEmpty_iff, List.isEmpty_iff]
  rw [perform_state, hs.under_eq hg]
  simp only [hs.setRegion_self, hs.region_eq, hholds.free_eq, hempty]

theorem Queues.unlock :
    ∃ h', h.perform (.unlock name) = (.flag true, h') ∧ h'.guards.size = 0 ∧
      h'.Queues file capacity ts := by
  obtain ⟨r, hs, hholds⟩ := hq
  obtain ⟨hs', hsize⟩ := hs.release hg
  refine ⟨_, ?_, hsize, _, hs', hholds.withLock 0⟩
  simp only [perform, hg]

end Held

theorem Queues.pop_nil (hq : h.Queues file capacity []) (hg : h.guards.get? name = some g) :
    h.perform (.pop name) = (.failed .empty, h) := by
  obtain ⟨r, hs, hholds⟩ := hq
  rw [perform_pop, hs.under_eq hg, hholds.pop_nil]

theorem Queues.pop (hq : h.Queues file capacity (t :: ts)) (hg : h.guards.get? name = some g) :
    ∃ h', h.perform (.pop name) = (.task t, h') ∧ h'.guards = h.guards ∧
      h'.Queues file capacity ts := by
  obtain ⟨r, hs, hholds⟩ := hq
  obtain ⟨r', hop, hholds', hlock⟩ := hholds.pop
  refine ⟨h.setRegion file r', ?_, rfl, Queues.written hs hholds' hlock⟩
  rw [perform_pop, hs.under_eq hg, hop]

/-! ### Runs -/

/-- Requests by which processes work together on a queue: none writes to memory without the lock
and none makes a queue anew. -/
def Request.cooperative : Request → Bool
  | .create .. | .poke .. | .pokeSlot .. | .pokeName .. | .writeZeros .. => false
  | _ => true

/-- The tasks in a queue after a request, as the answer tells: an accepted task is the last one,
and a task that is handed out was the first one. -/
def queueAfter (ts : List Task) : Request → Reply → List Task
  | .enqueue _ t, .queued => ts ++ [t.image]
  | .push _ t, .queued => ts ++ [t.image]
  | .dequeue _, .task _ => ts.tail
  | .pop _, .task _ => ts.tail
  | _, _ => ts

/-- A host and the tasks in its queue after one more request. -/
def serve (s : Host × List Task) (q : Request) : Host × List Task :=
  ((s.1.perform q).2, queueAfter s.2 q (s.1.perform q).1)

/-- A process that maps a queue shares it with the others. -/
private theorem Queues.attach (hq : h.Queues file capacity ts) (name path : String)
    (promised : UInt64) :
    (h.attach name path promised).2.Queues file capacity ts := by
  simp only [Host.attach]
  split
  · exact hq
  · rename_i f _
    split
    · exact hq
    · rename_i hcheck
      obtain ⟨r, hs, hholds⟩ := hq
      -- files without memory have no queue to map
      have hf : f = file := by
        apply Decidable.byContradiction
        intro hf
        rw [Host.region, hs.alone hf] at hcheck
        cases hcheck
      have hpromised : promised = capacity := by
        rw [hf, hs.region_eq, Region.check_eq_ok_iff] at hcheck
        rw [← hcheck.1.capacity_eq, hs.capacity_eq]
      obtain ⟨lock, hbound⟩ := hs.bind name (m := ⟨f, ⟨path, promised⟩, false⟩) ⟨hf, hpromised⟩
      exact ⟨_, hbound, hholds.withLock lock⟩

/-- A request leaves a shared queue with the tasks that the answer tells. -/
def Follows (h : Host) (file : Nat) (capacity : UInt64) (ts : List Task) (q : Request) : Prop :=
  (h.perform q).2.Queues file capacity (queueAfter ts q (h.perform q).1)

theorem Follows.of_eq {q : Request} {reply : Reply} {h' : Host}
    (hreply : h.perform q = (reply, h'))
    (hq : h'.Queues file capacity (queueAfter ts q reply)) :
    h.Follows file capacity ts q := by
  unfold Follows
  rw [hreply]
  exact hq

section Each

variable (hq : h.Queues file capacity ts) (name : String)

include hq

private theorem Queues.follows_unmap : h.Follows file capacity ts (.unmap name) := by
  cases hm : h.mappings.get? name with
  | none =>
    have hreply : h.perform (.unmap name) = (.flag false, h) := by simp only [Host.perform, hm]
    exact .of_eq hreply hq
  | some m =>
    obtain ⟨r, hs, hholds⟩ := hq
    obtain ⟨lock, hs'⟩ := hs.unmap name m
    have hreply : h.perform (.unmap name) =
        (.flag true, { h.unmap name m with mappings := h.mappings.erase name }) := by
      simp only [Host.perform, hm]
    refine .of_eq hreply ⟨_, hs'.withMappings fun hget => ?_, hholds.withLock lock⟩
    rw [OrderedMap.get?_erase] at hget
    split at hget
    · cases hget
    · exact hs.mapping hget

private theorem Queues.follows_enqueue (t : Task) :
    h.Follows file capacity ts (.enqueue name t) := by
  cases hm : h.mappings.get? name with
  | none =>
    have hreply : h.perform (.enqueue name t) = (.unknownMapping, h) := by
      rw [perform_enqueue, through_none hm]
    exact .of_eq hreply hq
  | some m =>
    rcases hq.size_eq_zero_or_one with hfree | hheld
    · rcases Nat.lt_or_eq_of_le hq.holds.length_le with hroom | hfull
      · obtain ⟨h', hreply, -, hq'⟩ := hq.enqueue (t := t) hfree hm hroom
        exact .of_eq hreply hq'
      · exact .of_eq (hq.enqueue_full hfree hm hfull) hq
    · exact .of_eq (hq.locked hheld hm t "").1 hq

private theorem Queues.follows_dequeue : h.Follows file capacity ts (.dequeue name) := by
  cases hm : h.mappings.get? name with
  | none =>
    have hreply : h.perform (.dequeue name) = (.unknownMapping, h) := by
      rw [perform_dequeue, through_none hm]
    exact .of_eq hreply hq
  | some m =>
    rcases hq.size_eq_zero_or_one with hfree | hheld
    · cases ts with
      | nil => exact .of_eq (hq.dequeue_nil hfree hm) hq
      | cons t ts =>
        obtain ⟨h', hreply, -, hq'⟩ := hq.dequeue hfree hm
        exact .of_eq hreply hq'
    · exact .of_eq (hq.locked hheld hm default "").2.1 hq

private theorem Queues.follows_list : h.Follows file capacity ts (.list name) := by
  cases hm : h.mappings.get? name with
  | none =>
    have hreply : h.perform (.list name) = (.unknownMapping, h) := by
      rw [perform_list, through_none hm]
    exact .of_eq hreply hq
  | some m =>
    rcases hq.size_eq_zero_or_one with hfree | hheld
    · exact .of_eq (hq.list hfree hm) hq
    · exact .of_eq (hq.locked hheld hm default "").2.2.1 hq

private theorem Queues.follows_lock (guard : String) :
    h.Follows file capacity ts (.lock name guard) := by
  cases hm : h.mappings.get? name with
  | none =>
    have hreply : h.perform (.lock name guard) = (.unknownMapping, h) := by
      simp only [Host.perform, hm]
    exact .of_eq hreply hq
  | some m =>
    rcases hq.size_eq_zero_or_one with hfree | hheld
    · obtain ⟨h', hreply, -, hq'⟩ := hq.lock hfree hm guard
      exact .of_eq hreply hq'
    · exact .of_eq (hq.locked hheld hm default guard).2.2.2 hq

private theorem Queues.follows_unlock : h.Follows file capacity ts (.unlock name) := by
  cases hg : h.guards.get? name with
  | none =>
    have hreply : h.perform (.unlock name) = (.flag false, h) := by simp only [Host.perform, hg]
    exact .of_eq hreply hq
  | some g =>
    obtain ⟨h', hreply, -, hq'⟩ := hq.unlock hg
    exact .of_eq hreply hq'

private theorem Queues.follows_push (t : Task) : h.Follows file capacity ts (.push name t) := by
  cases hg : h.guards.get? name with
  | none =>
    have hreply : h.perform (.push name t) = (.unknownGuard, h) := by
      rw [perform_push, under_none hg]
    exact .of_eq hreply hq
  | some g =>
    rcases Nat.lt_or_eq_of_le hq.holds.length_le with hroom | hfull
    · obtain ⟨h', hreply, -, hq'⟩ := hq.push (t := t) hg hroom
      exact .of_eq hreply hq'
    · exact .of_eq (hq.push_full hg hfull) hq

private theorem Queues.follows_pop : h.Follows file capacity ts (.pop name) := by
  cases hg : h.guards.get? name with
  | none =>
    have hreply : h.perform (.pop name) = (.unknownGuard, h) := by
      rw [perform_pop, under_none hg]
    exact .of_eq hreply hq
  | some g =>
    cases ts with
    | nil => exact .of_eq (hq.pop_nil hg) hq
    | cons t ts =>
      obtain ⟨h', hreply, -, hq'⟩ := hq.pop hg
      exact .of_eq hreply hq'

private theorem Queues.follows_state : h.Follows file capacity ts (.state name) := by
  cases hg : h.guards.get? name with
  | none =>
    have hreply : h.perform (.state name) = (.unknownGuard, h) := by
      rw [perform_state, under_none hg]
    exact .of_eq hreply hq
  | some g => exact .of_eq (hq.state hg) hq

private theorem Queues.follows_contents : h.Follows file capacity ts (.contents name) := by
  cases hg : h.guards.get? name with
  | none =>
    have hreply : h.perform (.contents name) = (.unknownGuard, h) := by
      rw [perform_contents, under_none hg]
    exact .of_eq hreply hq
  | some g => exact .of_eq (hq.contents hg) hq

end Each

/-- Every request of working processes leaves a shared queue, with the tasks that the answer
tells. -/
theorem Queues.perform (hq : h.Queues file capacity ts) {q : Request}
    (hco : q.cooperative = true) : h.Follows file capacity ts q := by
  cases q with
  -- these write to memory past the lock, or make the queue anew
  | create | poke | pokeSlot | pokeName | writeZeros => exact nomatch hco
  | attach name path promised => exact hq.attach name path promised
  | unmap name => exact hq.follows_unmap name
  | enqueue name t => exact hq.follows_enqueue name t
  | dequeue name => exact hq.follows_dequeue name
  | list name => exact hq.follows_list name
  | lock name guard => exact hq.follows_lock name guard
  | unlock guard => exact hq.follows_unlock guard
  | push guard t => exact hq.follows_push guard t
  | pop guard => exact hq.follows_pop guard
  | state guard => exact hq.follows_state guard
  | contents guard => exact hq.follows_contents guard
  | inspect | «exists» => exact hq
  | makeDirectory path =>
    simp only [Follows, Host.perform]
    split
    · obtain ⟨r, hs, hholds⟩ := hq
      exact ⟨r, hs.withTree _, hholds⟩
    · exact hq

/-! ### What processes see -/

/-- The queue after an operation: its tasks and its lock word. -/
structure Left (h : Host) (file : Nat) (capacity : UInt64) (ts : List Task) (lock : UInt32) :
    Prop where
  holds : (h.region file).Holds capacity ts
  lock_eq : (h.region file).header.lock = lock

/-- A request that queues a task: it succeeds if a slot is free, and changes nothing otherwise. -/
def Takes (h : Host) (file : Nat) (capacity : UInt64) (ts : List Task) (lock : UInt32)
    (q : Request) (t : Task) : Prop :=
  if ts.length < capacity.toNat then
    ∃ h', h.perform q = (.queued, h') ∧ h'.Left file capacity (ts ++ [t.image]) lock
  else h.perform q = (.failed .full, h)

/-- A request for the first task: it is handed out if there is one, and nothing changes
otherwise. -/
def Gives (h : Host) (file : Nat) (capacity : UInt64) (ts : List Task) (lock : UInt32)
    (q : Request) : Prop :=
  match ts with
  | [] => h.perform q = (.failed .empty, h)
  | t :: ts => ∃ h', h.perform q = (.task t, h') ∧ h'.Left file capacity ts lock

/-- A request for all tasks: it tells the queued tasks and changes nothing. -/
def Lists (h : Host) (ts : List Task) (q : Request) : Prop := h.perform q = (.tasks ts, h)

/-- What processes see of the queue that they share when it holds the tasks `ts`. -/
structure Serves (h : Host) (file : Nat) (capacity : UInt64) (ts : List Task) : Prop where
  holds : (h.region file).Holds capacity ts
  head_lt : (h.region file).header.head < capacity
  tail_lt : (h.region file).header.tail < capacity
  window_le : (h.region file).header.window ≤ capacity
  tail_eq : (h.region file).header.tail.toNat = ((h.region file).header.head.toNat +
    (capacity.toNat - (h.region file).header.window.toNat)) % capacity.toNat
  /-- At most one lock is held, and the lock word tells whether one is. -/
  size_le : h.guards.size ≤ 1
  lock_eq : (h.region file).header.lock = if h.guards.size = 0 then 0 else 1
  /-- While a lock is held, no single operation does anything. -/
  locked : h.guards.size = 1 → ∀ {name : String} {m : Mapping},
    h.mappings.get? name = some m → ∀ (t : Task) (guard : String),
      h.perform (.enqueue name t) = (.failed .locked, h) ∧
        h.perform (.dequeue name) = (.failed .locked, h) ∧
        h.perform (.list name) = (.failed .locked, h) ∧
        h.perform (.lock name guard) = (.flag false, h)
  /-- Otherwise single operations work on the queue and leave the lock free. -/
  single : h.guards.size = 0 → ∀ {name : String} {m : Mapping},
    h.mappings.get? name = some m →
      (∀ t, h.Takes file capacity ts 0 (.enqueue name t) t) ∧
        h.Gives file capacity ts 0 (.dequeue name) ∧ h.Lists ts (.list name)
  lock : h.guards.size = 0 → ∀ {name : String} {m : Mapping},
    h.mappings.get? name = some m → ∀ guard, ∃ h', h.perform (.lock name guard) = (.flag true, h') ∧
      h'.guards.size = 1 ∧ h'.Left file capacity ts 1
  /-- The holder of the lock works on the queue until the lock is freed. -/
  held : ∀ {guard : String} {g : Guard}, h.guards.get? guard = some g →
    (∀ t, h.Takes file capacity ts 1 (.push guard t) t) ∧
      h.Gives file capacity ts 1 (.pop guard) ∧ h.Lists ts (.contents guard)
  state : ∀ {guard : String} {g : Guard}, h.guards.get? guard = some g →
    ∃ window occupied, h.perform (.state guard) = (.state window occupied ts.isEmpty, h) ∧
      window.toNat = capacity.toNat - ts.length ∧ occupied.toNat = ts.length
  unlock : ∀ {guard : String} {g : Guard}, h.guards.get? guard = some g →
    ∃ h', h.perform (.unlock guard) = (.flag true, h') ∧ h'.guards.size = 0 ∧
      h'.Left file capacity ts 0

theorem Queues.left_free (hq : h.Queues file capacity ts) (hfree : h.guards.size = 0) :
    h.Left file capacity ts 0 :=
  ⟨hq.holds, by rw [hq.lock_eq, if_pos hfree]⟩

theorem Queues.left_held (hq : h.Queues file capacity ts) (hheld : h.guards.size = 1) :
    h.Left file capacity ts 1 :=
  ⟨hq.holds, by rw [hq.lock_eq, hheld]; rfl⟩

/-- Single operations on a queue whose lock is free. -/
private theorem Queues.single (hq : h.Queues file capacity ts) (hfree : h.guards.size = 0)
    (hm : h.mappings.get? name = some m) :
    (∀ t, h.Takes file capacity ts 0 (.enqueue name t) t) ∧
      h.Gives file capacity ts 0 (.dequeue name) ∧ h.Lists ts (.list name) := by
  refine ⟨fun t => ?takes, ?gives, hq.list hfree hm⟩
  case takes =>
    rw [Takes]
    split
    · rename_i hroom
      obtain ⟨h', hreply, hguards, hq'⟩ := hq.enqueue (t := t) hfree hm hroom
      exact ⟨h', hreply, hq'.left_free (hguards ▸ hfree)⟩
    · rename_i hfull
      exact hq.enqueue_full hfree hm (Nat.le_antisymm hq.holds.length_le (Nat.not_lt.1 hfull))
  case gives =>
    cases ts with
    | nil => exact hq.dequeue_nil hfree hm
    | cons t ts =>
      obtain ⟨h', hreply, hguards, hq'⟩ := hq.dequeue hfree hm
      exact ⟨h', hreply, hq'.left_free (hguards ▸ hfree)⟩

/-- Work of the holder of the lock. -/
private theorem Queues.held (hq : h.Queues file capacity ts) (hg : h.guards.get? name = some g) :
    (∀ t, h.Takes file capacity ts 1 (.push name t) t) ∧
      h.Gives file capacity ts 1 (.pop name) ∧ h.Lists ts (.contents name) := by
  have hheld := hq.size_eq_one hg
  refine ⟨fun t => ?takes, ?gives, hq.contents hg⟩
  case takes =>
    rw [Takes]
    split
    · rename_i hroom
      obtain ⟨h', hreply, hguards, hq'⟩ := hq.push (t := t) hg hroom
      exact ⟨h', hreply, hq'.left_held (hguards ▸ hheld)⟩
    · rename_i hfull
      exact hq.push_full hg (Nat.le_antisymm hq.holds.length_le (Nat.not_lt.1 hfull))
  case gives =>
    cases ts with
    | nil => exact hq.pop_nil hg
    | cons t ts =>
      obtain ⟨h', hreply, hguards, hq'⟩ := hq.pop hg
      exact ⟨h', hreply, hq'.left_held (hguards ▸ hheld)⟩

/-- The invariant tells all that processes see. -/
theorem Queues.serves (hq : h.Queues file capacity ts) : h.Serves file capacity ts where
  holds := hq.holds
  head_lt := UInt64.lt_iff_toNat_lt.2 hq.holds.head_lt
  tail_lt := UInt64.lt_iff_toNat_lt.2 hq.holds.tail_lt
  window_le := UInt64.le_iff_toNat_le.2 (Nat.le.intro hq.holds.window_add)
  tail_eq := by
    have hadd := hq.holds.window_add
    rw [hq.holds.tail_eq]
    congr 2
    omega
  size_le := hq.size_le
  lock_eq := hq.lock_eq
  locked := fun hheld _ _ hm => hq.locked hheld hm
  single := fun hfree _ _ hm => hq.single hfree hm
  lock := fun hfree _ _ hm guard => by
    obtain ⟨h', hreply, hheld, hq'⟩ := hq.lock hfree hm guard
    exact ⟨h', hreply, hheld, hq'.left_held hheld⟩
  held := hq.held
  state := fun hg => by
    have hadd := hq.holds.window_add
    exact ⟨_, _, hq.state hg, by omega, hq.holds.occupied_eq⟩
  unlock := fun hg => by
    obtain ⟨h', hreply, hfree, hq'⟩ := hq.unlock hg
    exact ⟨h', hreply, hfree, hq'.left_free hfree⟩

/-- Writing a file anew on a host without memory makes that memory the only one. -/
private theorem rewind_spec {tree : FileTree} {path : String} {h' : Host}
    (hrewind : rewind { tree } path = .ok (file, h')) :
    h'.memory = OrderedMap.empty.insert file (.zeros 0) ∧ h'.mappings = .empty ∧
      h'.guards = .empty := by
  simp only [rewind] at hrewind
  split at hrewind
  · cases hrewind
    exact ⟨rfl, rfl, rfl⟩
  · cases hrewind

/-- The creator's mapping is the first one of a queue without tasks. -/
theorem queues_create {tree : FileTree} {path : String} {handle : RingHandle}
    (hcreate : ({ tree } : Host).create name path capacity = (.mapped handle, h)) :
    ∃ file, h.mappings.get? name = some ⟨file, ⟨path, capacity⟩, true⟩ ∧
      h.Queues file capacity [] := by
  simp only [create] at hcreate
  split at hcreate
  · cases hcreate
  · rename_i hcap
    split at hcreate
    · cases hcreate
    · rename_i length hlength
      cases hrewind : rewind { tree } path with
      | error fault =>
        rw [hrewind] at hcreate
        cases hcreate
      | ok made =>
        obtain ⟨file, h₀⟩ := made
        simp only [hrewind, Region.initialise_zeros hlength] at hcreate
        split at hcreate
        · cases hcreate
        · obtain ⟨-, rfl⟩ := Prod.mk.inj hcreate
          obtain ⟨hmemory, hmappings, hguards⟩ := rewind_spec hrewind
          have hholds := Region.holds_fresh hcap (Region.addressable_of_lengthFor hlength)
          simp only [bind, setRegion, hmappings, OrderedMap.get?_empty]
          refine ⟨file, ?name, .fresh capacity,
            ⟨?region, ?alone, rfl, ?mapping, ?guard, ?size, ?lock⟩, hholds⟩
          case name => simp only [OrderedMap.get?_insert, if_pos]
          case region => simp only [OrderedMap.get?_insert, if_pos]
          case alone =>
            intro f hf
            simp only [OrderedMap.get?_insert, hmemory, if_neg hf, OrderedMap.get?_empty]
          case mapping =>
            intro name' m hm
            simp only [OrderedMap.get?_insert, OrderedMap.get?_empty] at hm
            split at hm
            · cases hm
              exact ⟨rfl, rfl⟩
            · cases hm
          case guard =>
            intro name' g hg
            rw [hguards] at hg
            cases hg
          case size =>
            rw [hguards]
            exact Nat.zero_le 1
          case lock => rw [hguards]; rfl

/-- Queues stay queues in every run. -/
theorem Queues.run (hq : h.Queues file capacity ts) {rs : List Request}
    (hrs : ∀ q ∈ rs, q.cooperative = true) :
    (rs.foldl serve (h, ts)).1.Queues file capacity (rs.foldl serve (h, ts)).2 := by
  induction rs generalizing h ts with
  | nil => exact hq
  | cons q rs ih =>
    have hq' := hq.perform (hrs q List.mem_cons_self)
    exact ih hq' fun q' hmem => hrs q' (List.mem_cons_of_mem q hmem)

/-- However processes work together on a new queue, they see a bounded queue with a lock that is
tried.  The tasks in it are those that the answers tell. -/
theorem serves_run {tree : FileTree} {path : String} {handle : RingHandle}
    (hcreate : ({ tree } : Host).create name path capacity = (.mapped handle, h))
    (rs : List Request) (hrs : ∀ q ∈ rs, q.cooperative = true) :
    ∃ file, h.mappings.get? name = some ⟨file, ⟨path, capacity⟩, true⟩ ∧
      (rs.foldl serve (h, [])).1.Serves file capacity (rs.foldl serve (h, [])).2 := by
  obtain ⟨file, hname, hq⟩ := queues_create hcreate
  exact ⟨file, hname, (hq.run hrs).serves⟩

/-- A worker takes the task that the creator has queued and leaves another one, on a queue with one
slot. -/
theorem serves_creator_and_worker :
    ∃ h file, ({ tree := ⟨[]⟩ } : Host).create "creator" "queue" 1 = (.mapped ⟨"queue", 1⟩, h) ∧
      h.mappings.get? "creator" = some ⟨file, ⟨"queue", 1⟩, true⟩ ∧
      let rs : List Request := [.attach "worker" "queue" 1, .enqueue "creator" { id := 1 },
        .lock "worker" "lock", .pop "lock", .push "lock" { id := 2 }]
      (rs.foldl serve (h, [])).2 = [({ id := 2 } : Task).image] ∧
        (rs.foldl serve (h, [])).1.Serves file 1 (rs.foldl serve (h, [])).2 := by
  have hcreate : ({ tree := ⟨[]⟩ } : Host).create "creator" "queue" 1 =
      (.mapped ⟨"queue", 1⟩, (({ tree := ⟨[]⟩ } : Host).create "creator" "queue" 1).2) := by rfl
  obtain ⟨file, hname, hserves⟩ := serves_run hcreate
    [.attach "worker" "queue" 1, .enqueue "creator" { id := 1 }, .lock "worker" "lock",
      .pop "lock", .push "lock" { id := 2 }] (by decide)
  exact ⟨_, file, hcreate, hname, by rfl, hserves⟩

end RealTime.Host
