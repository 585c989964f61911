import RealTime.Proofs.Ring.Readers

/-! # Headers that anybody can write

Another process can leave any words in the header of a queue.  Whatever they are, the operations
stay within the slots of the capacity that was checked, and taking out one task after the other
comes to an end (`Withstands`).

A listing and the tasks that are taken out agree as far as machine words can count on from the head.
Both walk from the head to the slots behind it, but taking out brings the head below the capacity at
every step, while a listing brings only the sum of head and distance there.  If such a sum passes
the last word, the listing fails as a whole, although all tasks can be taken out.

* `drains_queued`                               the tasks that are taken out
* `list_eq`                                     what a listing tells of them
* `Alike.push`, `Alike.pop`, `Alike.contents`   slots from the capacity on are never read
* `withstands`                                  what holds for every header -/

namespace RealTime.Region

variable {r r' s : Region} {capacity : UInt64} {t : Task} {ts : List Task} {i n : Nat}

/-! ### Taking out all tasks -/

/-- Taking out one task after the other until there is none gives these tasks. -/
inductive Drains (capacity : UInt64) : Region → List Task → Prop where
  | empty {r r' : Region} (h : r.dequeue capacity = (.error .empty, r')) : Drains capacity r []
  | task {r r' : Region} {t : Task} {ts : List Task} (h : r.dequeue capacity = (.ok t, r'))
      (rest : Drains capacity r' ts) : Drains capacity r (t :: ts)

/-- There is one way only to take out all tasks. -/
theorem Drains.unique {ts' : List Task} (h : Drains capacity r ts) (h' : Drains capacity r ts') :
    ts = ts' := by
  induction h generalizing ts' with
  | empty h =>
    cases h' with
    | empty => rfl
    | task h' => cases h.symm.trans h'
  | task h _ ih =>
    cases h' with
    | empty h' => cases h.symm.trans h'
    | task h' rest' =>
      cases h.symm.trans h'
      rw [ih rest']

theorem pop_of_occupied_eq_zero (h : (r.occupied capacity).toNat = 0) :
    r.pop capacity = .error .empty := by
  have hge : r.free capacity ≥ capacity := by
    rw [ge_iff_le, UInt64.le_iff_toNat_le, toNat_free]
    rw [toNat_occupied] at h
    omega
  simp only [pop, if_pos hge]

/-- While slots are occupied, the first of them is given free. -/
theorem pop_of_occupied_pos (h : 0 < (r.occupied capacity).toNat) :
    ∃ r', r.pop capacity = .ok ((r.slot (r.header.head.toNat % capacity.toNat)).toTask, r') ∧
      r'.slots = r.slots ∧ r'.header.lock = r.header.lock ∧
      r'.header.head.toNat = (r.header.head.toNat + 1) % capacity.toNat ∧
      r'.header.window.toNat = min r.header.window.toNat capacity.toNat + 1 := by
  have hcap := capacity.toNat_lt
  rw [toNat_occupied] at h
  have hlt : ¬ r.free capacity ≥ capacity := by
    rw [ge_iff_le, UInt64.le_iff_toNat_le, toNat_free]
    omega
  simp only [pop, if_neg hlt, UInt64.toNat_mod]
  refine ⟨_, rfl, rfl, rfl, toNat_advance (by omega) _, ?_⟩
  show (r.free capacity + 1).toNat = _
  rw [UInt64.toNat_add, UInt64.toNat_one, toNat_free]
  exact Nat.mod_eq_of_lt (by omega)

/-- With one slot more free, one is less occupied. -/
theorem occupied_eq_succ (h : 0 < (r.occupied capacity).toNat)
    (hwindow : r'.header.window.toNat = min r.header.window.toNat capacity.toNat + 1) :
    (r.occupied capacity).toNat = (r'.occupied capacity).toNat + 1 := by
  rw [toNat_occupied] at h ⊢
  rw [toNat_occupied, hwindow]
  omega

/-- The first queued task leaves, and the others move up. -/
theorem queued_eq_cons (hslots : r'.slots = r.slots)
    (hhead : r'.header.head.toNat = (r.header.head.toNat + 1) % capacity.toNat)
    (hoccupied : (r.occupied capacity).toNat = (r'.occupied capacity).toNat + 1) :
    r.queued capacity =
      (r.slot (r.header.head.toNat % capacity.toNat)).toTask :: r'.queued capacity := by
  rw [queued, hoccupied, List.range_succ_eq_map, List.map_cons, List.map_map]
  refine congrArg (List.cons _) (List.map_congr_left fun i _ => ?_)
  -- the slot `i` behind the new head is the one `i + 1` behind the old one
  have hindex : (r'.header.head.toNat + i) % capacity.toNat =
      (r.header.head.toNat + (i + 1)) % capacity.toNat := by
    rw [hhead, Nat.mod_add_mod, Nat.add_assoc, Nat.add_comm 1 i]
  rw [Function.comp_apply, hindex, slot, slot, hslots]

/-- The tasks that are taken out are the ones in the occupied slots.  By induction on their number,
which every task that leaves lowers by one. -/
theorem drains_queued (hlock : r.header.lock = 0) : Drains capacity r (r.queued capacity) := by
  induction hn : (r.occupied capacity).toNat generalizing r with
  | zero =>
    have hnil : r.queued capacity = [] := List.length_eq_zero_iff.1 (length_queued.trans hn)
    rw [hnil]
    exact .empty (by rw [dequeue_free hlock, pop_of_occupied_eq_zero hn])
  | succ n ih =>
    have hpos : 0 < (r.occupied capacity).toNat := by omega
    obtain ⟨r', hpop, hslots, hlock', hhead, hwindow⟩ := pop_of_occupied_pos hpos
    have hoccupied := occupied_eq_succ hpos hwindow
    rw [queued_eq_cons hslots hhead hoccupied]
    exact .task (by rw [dequeue_free hlock, hpop]) (ih (hlock'.trans hlock) (by omega))

/-! ### Listings -/

/-- The first places from the head on can be counted in machine words. -/
def Counts (r : Region) (n : Nat) : Prop := r.header.head.toNat + n ≤ UInt64.size

instance : Decidable (r.Counts n) := inferInstanceAs (Decidable (_ ≤ _))

/-- A listing of a free queue tells the tasks that can be taken out, or fails, and changes
nothing. -/
theorem list_eq (hlock : r.header.lock = 0) (h : Drains capacity r ts) :
    r.list capacity = (if r.Counts ts.length then .ok ts else .error .overflow, r) := by
  obtain rfl := h.unique (drains_queued hlock)
  rw [list_free hlock, contents_eq, length_queued]
  rfl

/-! ### Slots that belong to the queue -/

/-- Two regions have one header and agree on all slots below the capacity. -/
structure Alike (capacity : UInt64) (r r' : Region) : Prop where
  header : r'.header = r.header
  slot : ∀ {i : Nat}, i < capacity.toNat → r'.slot i = r.slot i

theorem Alike.free_eq (h : Alike capacity r r') : r'.free capacity = r.free capacity := by
  rw [free, free, h.header]

theorem Alike.contents (h : Alike capacity r r') (hcap : capacity ≠ 0) :
    r'.contents capacity = r.contents capacity := by
  have hoccupied : r'.occupied capacity = r.occupied capacity := by
    rw [occupied, occupied, h.free_eq]
  have hqueued : r'.queued capacity = r.queued capacity := by
    rw [queued, queued, hoccupied, h.header]
    exact List.map_congr_left fun i _ => congrArg _ (h.slot (Nat.mod_lt _ (toNat_pos hcap)))
  rw [contents_eq, contents_eq, hoccupied, hqueued, h.header]

theorem Alike.pop (h : Alike capacity r r') (hcap : capacity ≠ 0) :
    (∃ t s s', r.pop capacity = .ok (t, s) ∧ r'.pop capacity = .ok (t, s') ∧
      Alike capacity s s') ∨
    r.pop capacity = .error .empty ∧ r'.pop capacity = .error .empty := by
  have hhead : (r.header.head % capacity).toNat < capacity.toNat := by
    rw [UInt64.toNat_mod]
    exact Nat.mod_lt _ (toNat_pos hcap)
  by_cases hempty : r.free capacity ≥ capacity
  · simp only [Region.pop, h.free_eq, if_pos hempty]
    exact .inr ⟨trivial, trivial⟩
  · simp only [Region.pop, h.free_eq, h.header, h.slot hhead, if_neg hempty]
    exact .inl ⟨_, _, _, rfl, rfl, rfl, fun hi => h.slot hi⟩

theorem Alike.push (h : Alike capacity r r') (t : Task) :
    (∃ s s', r.push capacity t = .ok s ∧ r'.push capacity t = .ok s' ∧ Alike capacity s s') ∨
    r.push capacity t = .error .full ∧ r'.push capacity t = .error .full := by
  by_cases hfull : r.free capacity < 1
  · simp only [Region.push, h.free_eq, if_pos hfull]
    exact .inr ⟨trivial, trivial⟩
  · simp only [Region.push, h.free_eq, h.header, if_neg hfull]
    refine .inl ⟨_, _, rfl, rfl, rfl, fun {i} hi => ?_⟩
    -- both have the new task in one slot, and elsewhere what they had
    have hslot := h.slot hi
    simp only [Region.slot] at hslot
    simp only [Region.slot, OrderedMap.get?_insert]
    split
    · rfl
    · exact hslot

/-- Taking a task out changes no slot. -/
theorem slot_pop (h : r.pop capacity = .ok (t, s)) (i : Nat) : s.slot i = r.slot i := by
  simp only [pop] at h
  split at h
  · cases h
  · cases h
    rfl

/-- A task is pushed into a slot below the capacity. -/
theorem slot_push_of_le (hcap : capacity ≠ 0) (h : r.push capacity t = .ok s)
    (hi : capacity.toNat ≤ i) : s.slot i = r.slot i := by
  simp only [push] at h
  split at h
  · cases h
  · cases h
    have htail : (r.header.tail % capacity).toNat < capacity.toNat := by
      rw [UInt64.toNat_mod]
      exact Nat.mod_lt _ (toNat_pos hcap)
    simp only [slot, OrderedMap.get?_insert]
    rw [if_neg (by omega)]

/-- An operation reads and writes only slots below the capacity. -/
structure Confined {α : Type} (capacity : UInt64) (r : Region)
    (op : Region → Except RingError α × Region) : Prop where
  /-- No other slot has an influence on the answer or on what is left behind. -/
  reads : ∀ {r'}, Alike capacity r r' → (op r').1 = (op r).1 ∧ Alike capacity (op r).2 (op r').2
  /-- All other slots stay as they are. -/
  writes : ∀ {i : Nat}, capacity.toNat ≤ i → (op r).2.slot i = r.slot i

theorem confined_list (hcap : capacity ≠ 0) (hlock : r.header.lock = 0) :
    Confined capacity r (·.list capacity) where
  reads := fun h => by
    have hlock' := (congrArg Header.lock h.header).trans hlock
    rw [list_free hlock, list_free hlock', h.contents hcap]
    exact ⟨rfl, h⟩
  writes := fun _ => by rw [list_free hlock]

theorem confined_dequeue (hcap : capacity ≠ 0) (hlock : r.header.lock = 0) :
    Confined capacity r (·.dequeue capacity) where
  reads := fun h => by
    have hlock' := (congrArg Header.lock h.header).trans hlock
    rw [dequeue_free hlock, dequeue_free hlock']
    rcases h.pop hcap with ⟨t, s, s', hpop, hpop', halike⟩ | ⟨hpop, hpop'⟩
    · rw [hpop, hpop']
      exact ⟨rfl, halike⟩
    · rw [hpop, hpop']
      exact ⟨rfl, h⟩
  writes := fun {i} _ => by
    rw [dequeue_free hlock]
    cases hpop : r.pop capacity with
    | error e => rfl
    | ok done => exact slot_pop hpop i

theorem confined_enqueue (hcap : capacity ≠ 0) (hlock : r.header.lock = 0) (t : Task) :
    Confined capacity r (·.enqueue capacity t) where
  reads := fun h => by
    have hlock' := (congrArg Header.lock h.header).trans hlock
    rw [enqueue_free hlock, enqueue_free hlock']
    rcases h.push t with ⟨s, s', hpush, hpush', halike⟩ | ⟨hpush, hpush'⟩
    · rw [hpush, hpush']
      exact ⟨rfl, halike⟩
    · rw [hpush, hpush']
      exact ⟨rfl, h⟩
  writes := fun hi => by
    rw [enqueue_free hlock]
    cases hpush : r.push capacity t with
    | error e => rfl
    | ok s => exact slot_push_of_le hcap hpush hi

/-! ### The window -/

/-- A task is taken exactly if a slot counts as free, and one slot less counts as free then. -/
theorem push_iff :
    (∃ s, r.push capacity t = .ok s) ↔ 1 ≤ min r.header.window.toNat capacity.toNat := by
  have hlt : r.free capacity < 1 ↔ min r.header.window.toNat capacity.toNat < 1 := by
    rw [UInt64.lt_iff_toNat_lt, toNat_free, UInt64.toNat_one]
  simp only [push]
  split
  · rename_i hfull
    exact iff_of_false (by simp) (by have h := hlt.1 hfull; omega)
  · rename_i hfree
    exact iff_of_true ⟨_, rfl⟩ (Nat.not_lt.1 fun h => hfree (hlt.2 h))

theorem window_push (h : r.push capacity t = .ok s) : s.header.window ≤ capacity := by
  simp only [push] at h
  split at h
  · cases h
  · rename_i hfree
    cases h
    have hone : 1 ≤ r.free capacity := UInt64.not_lt.1 hfree
    rw [UInt64.le_iff_toNat_le, UInt64.toNat_sub_of_le _ _ hone, toNat_free]
    omega

theorem window_pop (h : r.pop capacity = .ok (t, s)) : s.header.window ≤ capacity := by
  have hpos : 0 < (r.occupied capacity).toNat := by
    apply Nat.pos_of_ne_zero
    intro h0
    rw [pop_of_occupied_eq_zero h0] at h
    cases h
  obtain ⟨s', hpop, -, -, -, hwindow⟩ := pop_of_occupied_pos hpos
  obtain ⟨-, rfl⟩ := Prod.mk.inj (Except.ok.inj (h.symm.trans hpop))
  rw [toNat_occupied] at hpos
  rw [UInt64.le_iff_toNat_le, hwindow]
  omega

/-! ### All headers -/

/-- What a region that is used as a queue of a given capacity does, whatever its header says. -/
structure Withstands (r : Region) (capacity : UInt64) : Prop where
  /-- Taking out tasks ends after at most as many as there are slots.  A listing tells the same ones
  if their places can be counted from the head.  Otherwise it fails, and in no case it changes
  anything. -/
  drains : ∃ ts, Drains capacity r ts ∧ ts.length ≤ capacity.toNat ∧
    r.list capacity = (if r.Counts ts.length then .ok ts else .error .overflow, r)
  list_confined : Confined capacity r (·.list capacity)
  dequeue_confined : Confined capacity r (·.dequeue capacity)
  enqueue_confined : ∀ t, Confined capacity r (·.enqueue capacity t)
  takes : ∀ t, (∃ s, r.enqueue capacity t = (.ok (), s)) ↔
    1 ≤ min r.header.window.toNat capacity.toNat
  window_enqueue : ∀ {t s}, r.enqueue capacity t = (.ok (), s) → s.header.window ≤ capacity
  window_dequeue : ∀ {t s}, r.dequeue capacity = (.ok t, s) → s.header.window ≤ capacity

/-- A free queue withstands every header. -/
theorem withstands (hcap : capacity ≠ 0) (hlock : r.header.lock = 0) : r.Withstands capacity where
  drains := by
    have hdrains : Drains capacity r (r.queued capacity) := drains_queued hlock
    refine ⟨r.queued capacity, hdrains, ?_, list_eq hlock hdrains⟩
    rw [length_queued]
    exact occupied_le
  list_confined := confined_list hcap hlock
  dequeue_confined := confined_dequeue hcap hlock
  enqueue_confined := confined_enqueue hcap hlock
  takes := fun t => by
    rw [← push_iff (t := t), enqueue_free hlock]
    cases r.push capacity t with
    | error e => exact iff_of_false nofun nofun
    | ok s => exact iff_of_true ⟨_, rfl⟩ ⟨_, rfl⟩
  window_enqueue := fun {t s} h => by
    rw [enqueue_free hlock] at h
    cases hpush : r.push capacity t with
    | error e =>
      rw [hpush] at h
      cases h
    | ok s' =>
      rw [hpush] at h
      cases h
      exact window_push hpush
  window_dequeue := fun {t s} h => by
    rw [dequeue_free hlock] at h
    cases hpop : r.pop capacity with
    | error e =>
      rw [hpop] at h
      cases h
    | ok done =>
      rw [hpop] at h
      cases h
      exact window_pop hpop

/-- A queue of three slots with two tasks, whose head another process has overwritten. -/
def displaced : Region :=
  let filled := (((fresh 3).enqueue 3 { id := 1 }).2.enqueue 3 { id := 2 }).2
  { filled with header := filled.header.set .head 0xFFFFFFFFFFFFFFFF }

/-- Two tasks can be taken out, and a third one has room. -/
theorem withstands_displaced :
    displaced.header.lock = 0 ∧ displaced.Withstands 3 ∧
      (∃ t u, t.id = 1 ∧ u.id = 2 ∧ Drains 3 displaced [t, u]) ∧
      ∃ s, displaced.enqueue 3 { id := 3 } = (.ok (), s) := by
  have hlock : displaced.header.lock = 0 := by decide
  have hwithstands : displaced.Withstands 3 := withstands (by decide) hlock
  refine ⟨hlock, hwithstands, ⟨_, _, ?_, ?_, drains_queued hlock⟩, (hwithstands.takes _).2 ?_⟩
  · rfl
  · rfl
  · decide

/-- A listing does not tell what is taken out under all headers: here it fails, as the second task
lies behind the last place that can be counted. -/
theorem list_fails_displaced :
    ¬ ∀ (r : Region) (capacity : UInt64) (ts : List Task), capacity ≠ 0 → r.header.lock = 0 →
      Drains capacity r ts → r.list capacity = (.ok ts, r) := by
  intro h
  have hlock : displaced.header.lock = 0 := by decide
  have hdrains : Drains 3 displaced (displaced.queued 3) := drains_queued hlock
  have hlist := h displaced 3 _ (by decide) hlock hdrains
  rw [list_eq hlock hdrains, if_neg (by decide)] at hlist
  cases hlist

end RealTime.Region
