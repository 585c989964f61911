import RealTime.Proofs.Admission.Entry

/-! # The tasks of a slot

A slot has tasks in its shared queue and tasks that wait for it.  `Moves` lists all that one
request can do to them: a task is admitted to either end, waiting tasks enter the queue, or the
first queued task leaves.  All that holds of the tasks of a slot in every run follows from it.

* `Stores`          what a slot has
* `stores_of_create`  what it has in a new bank
* `Stores.committed`, `Stores.waits`  what it has after an entry
* `Stores.flush`, `Stores.dequeue`    what it has after a request for its tasks
* `perform_moves`   every request is one of the moves -/

namespace RealTime.Admission

/-- The task that a request wants to be admitted. -/
def Request.task? : Request → Option Task
  | .place t _ => some t
  | .placeOn t _ _ => some t
  | _ => none

/-- Whether a request leaves it to the analysis which tasks enter the queues. -/
def Request.throughAnalysis : Request → Bool
  | .enqueue .. => false
  | _ => true

/-- Whether a request can move tasks.  Locks and changes of the platform do not. -/
def Request.touchesTasks : Request → Bool
  | .lock _ | .unlock _ | .change _ => false
  | _ => true

/-- A slot has the queued tasks `ts` and the waiting tasks `ws`. -/
structure Stores (a : Admission) (capacity : UInt64) (slot : Nat) (ts ws : List Task) : Prop where
  capacity_eq : a.bank.capacity = capacity
  region : ∃ r, a.bank.queues[slot]? = some r ∧ r.Holds capacity ts
  pendingOn_eq : a.pendingOn slot = ws

/-- What one request can do to the queued tasks `ts` and the waiting tasks `ws` of a slot. -/
inductive Moves (q : Request) (ts ws : List Task) : List Task → List Task → Prop
  | stays : Moves q ts ws ts ws
  | commits {t : Task} (hq : q.task? = some t) (haccept : analyze t (analysed ts ws) = .accept) :
      Moves q ts ws (ts ++ [t.image]) ws
  | waits {t : Task} (hq : q.task? = some t) (haccept : analyze t (analysed ts ws) = .accept) :
      Moves q ts ws ts (ws ++ [t])
  | flushes {entered rest : List Task} (hws : ws = entered ++ rest) :
      Moves q ts ws (ts ++ entered.map Task.image) rest
  | leaves {t : Task} {rest : List Task} (hts : ts = t :: rest) : Moves q ts ws rest ws

variable {a a' : Admission} {capacity : UInt64} {t : Task} {slot i : Nat} {ts ws : List Task}
  {q : Request}

/-! ### What a slot keeps -/

/-- A slot of a new bank has no task. -/
theorem stores_of_create {tree : FileTree} {directory : String} {count : Nat}
    (hcreate : Bank.create tree directory count capacity = .ok a.bank)
    (hpending : a.pendingOn slot = []) (hslot : slot < count) :
    a.Stores capacity slot [] [] := by
  obtain ⟨rfl, rfl, hempty⟩ := Bank.holds_of_create hcreate
  have hr := List.getElem?_eq_getElem (show slot < a.bank.queues.length from hslot)
  exact ⟨rfl, ⟨_, hr, hempty hr⟩, hpending⟩

/-- Locks do not count. -/
theorem Stores.unlocked (h : a.Stores capacity slot ts ws)
    (hbank : a'.bank.unlocked = a.bank.unlocked)
    (hpending : a'.pendingOn slot = a.pendingOn slot) : a'.Stores capacity slot ts ws := by
  obtain ⟨hcap, ⟨r, hr, hholds⟩, hws⟩ := h
  obtain ⟨r', hr', heq⟩ := Bank.exists_of_unlocked hbank hr
  exact ⟨(Bank.capacity_eq_of_unlocked hbank).trans hcap, ⟨r', hr', hholds.of_unlock_eq heq⟩,
    hpending.trans hws⟩

/-- Cores and run queues do not count. -/
theorem Stores.withPlatform (h : a.Stores capacity slot ts ws) (platform : Platform) :
    { a with platform }.Stores capacity slot ts ws := ⟨h.capacity_eq, h.region, h.pendingOn_eq⟩

/-- What happens on another slot does not count. -/
theorem Stores.frame (h : a.Stores capacity slot ts ws)
    (hqueue : a'.bank.queues[slot]? = a.bank.queues[slot]?)
    (hcapacity : a'.bank.capacity = a.bank.capacity)
    (hpending : a'.pendingOn slot = a.pendingOn slot) : a'.Stores capacity slot ts ws := by
  obtain ⟨hcap, ⟨r, hr, hholds⟩, hws⟩ := h
  exact ⟨hcapacity.trans hcap, ⟨r, hqueue.trans hr, hholds⟩, hpending.trans hws⟩

/-- The region of the slot is the queue. -/
theorem Stores.holds (h : a.Stores capacity slot ts ws) {r : Region}
    (hr : a.bank.queues[slot]? = some r) : r.Holds a.bank.capacity ts := by
  obtain ⟨rfl, ⟨r', hr', hholds⟩, -⟩ := h
  obtain rfl : r' = r := Option.some.inj (hr'.symm.trans hr)
  exact hholds

/-- The analysis reads the queued tasks. -/
theorem Stores.queued_eq (h : a.Stores capacity slot ts ws) {r : Region} {queued : List Task}
    (hr : a.bank.queues[slot]? = some r) (hqueued : r.contents a.bank.capacity = .ok queued) :
    queued = ts :=
  Except.ok.inj (hqueued.symm.trans (h.holds hr).contents_eq)

/-! ### One entry -/

/-- A slot after a task has entered the queue of some slot. -/
theorem Stores.committed {r r' : Region} {bank : Bank} (h : a.Stores capacity i ts ws)
    (hr : a.bank.queues[slot]? = some r) (hpush : r.push a.bank.capacity t = .ok r')
    (hbank : bank.unlocked = (a.bank.put slot r').unlocked) :
    { a with bank }.Stores capacity i (if slot = i then ts ++ [t.image] else ts) ws := by
  by_cases hi : slot = i
  · subst hi
    have hholds := (h.holds hr).of_push hpush
    have hslot : (a.bank.put slot r').queues[slot]? = some r' := by
      rw [Bank.put_getElem? (Bank.lt_count hr), if_pos rfl]
    have hput : { a with bank := a.bank.put slot r' }.Stores capacity slot (ts ++ [t.image]) ws :=
      ⟨h.capacity_eq, ⟨r', hslot, h.capacity_eq ▸ hholds⟩, h.pendingOn_eq⟩
    rw [if_pos rfl]
    exact hput.unlocked hbank rfl
  · have hother : (a.bank.put slot r').queues[i]? = a.bank.queues[i]? := by
      rw [Bank.put_getElem? (Bank.lt_count hr), if_neg hi]
    have hput : { a with bank := a.bank.put slot r' }.Stores capacity i ts ws :=
      h.frame hother rfl rfl
    have hkept : { a with bank }.Stores capacity i ts ws := hput.unlocked hbank rfl
    rw [if_neg hi]
    exact hkept

/-- A slot after a task has begun to wait for some slot. -/
theorem Stores.waits {bank : Bank} (h : a.Stores capacity i ts ws)
    (hbank : bank.unlocked = a.bank.unlocked) (slot : Nat) (t : Task) :
    { a with bank, pending := a.pending.insert slot (a.pendingOn slot ++ [t]) }.Stores
      capacity i ts (if slot = i then ws ++ [t] else ws) := by
  by_cases hi : slot = i
  · subst hi
    have hkept : { a with bank }.Stores capacity slot ts ws := h.unlocked hbank rfl
    rw [if_pos rfl]
    refine ⟨hkept.capacity_eq, hkept.region, ?_⟩
    rw [pendingOn_insert, if_pos rfl, h.pendingOn_eq]
  · have hne : ¬ i = slot := fun heq => hi heq.symm
    rw [if_neg hi]
    exact h.unlocked hbank (pendingOn_insert.trans (if_neg hne))

/-- A slot after a task has been entered into some slot. -/
theorem Stores.entered {r : Attempt PlacementStatus} (h : a.Stores capacity i ts ws)
    (hentered : Entered a t slot r) (hq : q.task? = some t) :
    ∃ ts' ws', r.state.Stores capacity i ts' ws' ∧ Moves q ts ws ts' ws' := by
  -- the analysis has seen what the slot has
  have hseen : ∀ {r : Region} {queued : List Task}, a.bank.queues[slot]? = some r →
      r.contents a.bank.capacity = .ok queued → slot = i →
        analyze t (analysed queued (a.pendingOn slot)) = .accept →
          analyze t (analysed ts ws) = .accept := by
    intro r queued hr hqueued hi haccept
    subst hi
    rwa [h.queued_eq hr hqueued, h.pendingOn_eq] at haccept
  cases hentered with
  | @refused _ _ bank hbank =>
    have hkept : { a with bank }.Stores capacity i ts ws := h.unlocked hbank rfl
    exact ⟨ts, ws, hkept, .stays⟩
  | committed hr hqueued haccept hpush hbank =>
    refine ⟨_, ws, h.committed hr hpush hbank, ?_⟩
    split
    · rename_i hi
      exact .commits hq (hseen hr hqueued hi haccept)
    · exact .stays
  | waits hr hqueued haccept hbank =>
    refine ⟨ts, _, h.waits hbank slot t, ?_⟩
    split
    · rename_i hi
      exact .waits hq (hseen hr hqueued hi haccept)
    · exact .stays

/-! ### One request -/

theorem afterwards_state {α β : Type} (r : Attempt α)
    (f : α → Platform → Except PlatformError β × Platform) :
    (afterwards r f).state.bank = r.state.bank ∧
      (afterwards r f).state.pending = r.state.pending := by
  simp only [afterwards]
  split <;> exact ⟨rfl, rfl⟩

/-- Wherever a task is placed, at most one entry is made. -/
theorem place_entry (a : Admission) (t : Task) (intruder : Option Nat) :
    (a.place t intruder).state = a ∨ ∃ slot r, Entered a t slot r ∧
      (a.place t intruder).state.bank = r.state.bank ∧
      (a.place t intruder).state.pending = r.state.pending := by
  simp only [place]
  split
  · exact .inl rfl
  · split
    · simp only [placeOnNew]
      split
      · exact .inl rfl
      · split
        · exact .inl rfl
        · exact .inr ⟨_, _, entered a t _ intruder, afterwards_state _ _⟩
    · simp only [placeOnMatching]
      split
      · exact .inl rfl
      · exact .inr ⟨_, _, entered a t _ intruder, afterwards_state _ _⟩

theorem placeOn_entry (a : Admission) (t : Task) (slot : Nat) (intruder : Option Nat) :
    (a.placeOn t slot intruder).state = a ∨ ∃ s r, Entered a t s r ∧
      (a.placeOn t slot intruder).state.bank = r.state.bank ∧
      (a.placeOn t slot intruder).state.pending = r.state.pending := by
  simp only [placeOn]
  split
  · exact .inl rfl
  · split
    · exact .inl rfl
    · exact .inr ⟨_, _, entered a t slot intruder, afterwards_state _ _⟩

/-- A slot after an attempt to place a task. -/
private theorem Stores.attempted {r : Attempt Placement} (h : a.Stores capacity i ts ws)
    (hq : q.task? = some t)
    (hr : r.state = a ∨ ∃ slot r', Entered a t slot r' ∧ r.state.bank = r'.state.bank ∧
      r.state.pending = r'.state.pending) :
    ∃ ts' ws', (replyTo r).2.Stores capacity i ts' ws' ∧ Moves q ts ws ts' ws' := by
  rw [replyTo_state]
  rcases hr with heq | ⟨slot, r', hentered, hbank, hpending⟩
  · rw [heq]
    exact ⟨ts, ws, h, .stays⟩
  · obtain ⟨ts', ws', hstores, hmoves⟩ := h.entered hentered hq
    refine ⟨ts', ws', hstores.frame ?_ ?_ ?_, hmoves⟩
    · rw [hbank]
    · rw [hbank]
    · rw [pendingOn, hpending, pendingOn]

/-- A flush leaves the other slots alone. -/
private theorem Stores.flush_other (h : a.Stores capacity i ts ws) (hi : slot ≠ i)
    (intruder : Option Nat) : (a.flush slot intruder).2.Stores capacity i ts ws := by
  cases hwaiting : a.pending.get? slot with
  | none =>
    simp only [Admission.flush, hwaiting]
    split <;> exact h
  | some waiting =>
    simp only [Admission.flush, hwaiting]
    have hqueue := flushTasks_keeps waiting (P := fun b => b.queues[i]? = a.bank.queues[i]?)
      (fun b hb => (Bank.on_frame hi _).trans hb)
      (fun b t _ hb => (Bank.on_frame hi _).trans hb) rfl intruder 0
    have hcapacity := flushTasks_keeps waiting (P := fun b => b.capacity = a.bank.capacity)
      (fun b hb => (Bank.on_capacity b slot _).trans hb)
      (fun b t _ hb => (Bank.on_capacity b slot _).trans hb) rfl intruder 0
    generalize flushTasks a.bank slot intruder 0 waiting = out at *
    obtain ⟨result, rest, bank⟩ := out
    cases result with
    | ok m => exact h.frame hqueue hcapacity (pendingOn_erase.trans (if_neg hi.symm))
    | error e => exact h.frame hqueue hcapacity (pendingOn_insert.trans (if_neg hi.symm))

/-- The tasks that a flush enters are the first to wait, whether or not it comes to an end. -/
private theorem Stores.flush_self (h : a.Stores capacity slot ts ws) (intruder : Option Nat) :
    ∃ entered ws', entered = entering a.bank slot intruder 0 (a.pendingOn slot) ∧
      ws = entered ++ ws' ∧ (a.flush slot intruder).2.Stores capacity slot
        (ts ++ entered.map Task.image) ws' := by
  have hpending := h.pendingOn_eq
  cases hwaiting : a.pending.get? slot with
  | none =>
    rw [pendingOn, hwaiting, Option.getD_none] at hpending
    subst hpending
    refine ⟨[], [], ?_, rfl, ?_⟩
    · rw [h.pendingOn_eq, entering]
    · rw [List.map_nil, List.append_nil]
      simp only [Admission.flush, hwaiting]
      split <;> exact h
  | some waiting =>
    rw [pendingOn, hwaiting, Option.getD_some] at hpending
    subst hpending
    rw [h.pendingOn_eq]
    -- the list of waiting tasks is dropped if none is left and cut otherwise, with the same effect
    simp only [Admission.flush, hwaiting]
    obtain ⟨rfl, ⟨r, hr, hholds⟩, -⟩ := h
    obtain ⟨hsplit, hall, hregion⟩ := flushed hr hholds intruder 0 waiting
    have hcapacity := flushTasks_keeps waiting (P := fun b => b.capacity = a.bank.capacity)
      (fun b hb => (Bank.on_capacity b slot _).trans hb)
      (fun b t _ hb => (Bank.on_capacity b slot _).trans hb) rfl intruder 0
    generalize entering a.bank slot intruder 0 waiting = entered at *
    generalize flushTasks a.bank slot intruder 0 waiting = out at *
    obtain ⟨result, rest, bank⟩ := out
    refine ⟨entered, rest, rfl, hsplit, ?_⟩
    cases result with
    | ok m =>
      obtain rfl : rest = [] := hall m rfl
      refine ⟨hcapacity, hregion, ?_⟩
      rw [pendingOn_erase, if_pos rfl]
    | error e =>
      refine ⟨hcapacity, hregion, ?_⟩
      rw [pendingOn_insert, if_pos rfl]

/-- A slot after a flush of some slot. -/
theorem Stores.flush (h : a.Stores capacity i ts ws) (slot : Nat) (intruder : Option Nat) :
    ∃ entered ws', entered =
        (if slot = i then entering a.bank slot intruder 0 (a.pendingOn slot) else []) ∧
      ws = entered ++ ws' ∧ (a.perform (.flush slot intruder)).2.Stores capacity i
        (ts ++ entered.map Task.image) ws' := by
  rw [perform_flush]
  by_cases hi : slot = i
  · subst hi
    rw [if_pos rfl]
    exact h.flush_self intruder
  · refine ⟨[], ws, (if_neg hi).symm, rfl, ?_⟩
    rw [List.map_nil, List.append_nil]
    exact h.flush_other hi intruder

/-- A slot after the first task of some slot has been asked for. -/
theorem Stores.dequeue (h : a.Stores capacity i ts ws) (slot : Nat) :
    ∃ left ts', left = (if slot = i then (a.bank.dequeue slot).1.toOption else none) ∧
      ts = left.toList ++ ts' ∧ (a.perform (.dequeue slot)).2.Stores capacity i ts' ws := by
  simp only [perform, onBank_state]
  by_cases hi : slot = i
  · subst hi
    rw [if_pos rfl]
    obtain ⟨rfl, ⟨r, hr, hholds⟩, hws⟩ := h
    rw [Bank.dequeue_eq hr]
    split
    · cases ts with
      | nil =>
        rw [hholds.pop_nil]
        exact ⟨none, [], rfl, rfl, rfl, ⟨r, hr, hholds⟩, hws⟩
      | cons t ts =>
        obtain ⟨r', hpop, hholds', -⟩ := hholds.pop
        have hslot : (a.bank.put slot r').queues[slot]? = some r' := by
          rw [Bank.put_getElem? (Bank.lt_count hr), if_pos rfl]
        rw [hpop]
        exact ⟨some t, ts, rfl, rfl, rfl, ⟨r', hslot, hholds'⟩, hws⟩
    · exact ⟨none, ts, rfl, rfl, rfl, ⟨r, hr, hholds⟩, hws⟩
  · have hkept : { a with bank := (a.bank.dequeue slot).2 }.Stores capacity i ts ws :=
      h.frame (Bank.on_frame hi _) (Bank.on_capacity a.bank slot _) rfl
    exact ⟨none, ts, (if_neg hi).symm, rfl, hkept⟩

/-- A slot after a request that is no business of tasks. -/
theorem Stores.untouched (h : a.Stores capacity i ts ws) (hq : q.touchesTasks = false) :
    (a.perform q).2.Stores capacity i ts ws := by
  cases q with
  | lock slot =>
    simp only [perform, onBank_state]
    exact h.unlocked (a.bank.unlocked_lock slot) rfl
  | unlock slot => exact h.unlocked (a.bank.unlocked_unlock slot) rfl
  | change change =>
    rw [perform_change]
    exact h.withPlatform _
  | _ => cases hq

/-- All that a request does to the tasks of a slot is one of the moves. -/
theorem perform_moves (h : a.Stores capacity i ts ws) (hq : q.throughAnalysis = true) :
    ∃ ts' ws', (a.perform q).2.Stores capacity i ts' ws' ∧ Moves q ts ws ts' ws' := by
  cases q with
  | place t intruder => exact h.attempted rfl (place_entry a t intruder)
  | placeOn t slot intruder => exact h.attempted rfl (placeOn_entry a t slot intruder)
  | flush slot intruder =>
    obtain ⟨entered, ws', -, hws, hstores⟩ := h.flush slot intruder
    exact ⟨_, ws', hstores, .flushes hws⟩
  | enqueue => exact nomatch hq
  | dequeue slot =>
    obtain ⟨left, ts', -, hts, hstores⟩ := h.dequeue slot
    refine ⟨ts', ws, hstores, ?_⟩
    cases left with
    | none =>
      obtain rfl : ts = ts' := hts
      exact .stays
    | some t => exact .leaves hts
  | lock => exact ⟨ts, ws, h.untouched rfl, .stays⟩
  | unlock => exact ⟨ts, ws, h.untouched rfl, .stays⟩
  | change => exact ⟨ts, ws, h.untouched rfl, .stays⟩

end RealTime.Admission
