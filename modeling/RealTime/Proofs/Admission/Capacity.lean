import RealTime.Proofs.Admission.Ledger

/-! # How many tasks a slot has

A queue never has more tasks than places, but a slot may: whether there is a place left is asked by
the entry alone, and a task that finds the lock taken waits without asking.  A task that finds the
lock free, on the other hand, enters the queue past those that wait.  So tasks are admitted although
those that the slot has already will take all places.  These admissions are counted, and there are no
more tasks too many than they bring.

When the lock is free, a flush enters waiting tasks as long as there are places.  So all of them fit if
and only if the slot has no more tasks than its queue has places.

* `Accounts.length_add`   those that have left or stay are those that were there or were admitted
* `held_run_le`           how many tasks a slot has after a run
* `Stores.flush_free`     what a flush does when the lock is free
* `overcommitted_run`     all of this in every run -/

namespace RealTime.Admission

/-- Number of tasks that a slot has, queued or waiting. -/
def held (a : Admission) (slot : Nat) : Nat :=
  (a.bank.queues[slot]?.elim 0 fun r => (r.occupied a.bank.capacity).toNat) +
    (a.pendingOn slot).length

/-- Whether a task is admitted. -/
def Fate.admits : Fate → Bool
  | .admitted _ => true
  | .flushed | .left => false

/-- Number of tasks that are admitted to a slot in a run when it has as many as its queue has places,
or more. -/
def overcommitments (a : Admission) (slot : Nat) : List Request → Nat
  | [] => 0
  | q :: rs =>
    (if a.bank.capacity.toNat ≤ a.held slot then (pick (eventsOf a q) slot Fate.admits).length
      else 0) + overcommitments (a.perform q).2 slot rs

variable {a : Admission} {b : Bank} {r : Region} {capacity : UInt64} {t : Task} {slot count : Nat}
  {ts ws ts' ws' : List Task} {es : List Event} {q : Request} {status : PlacementStatus}

/-! ### Numbers of events -/

theorem length_pick_cons (e : Event) (es : List Event) (slot : Nat) (fates : Fate → Bool) :
    (pick (e :: es) slot fates).length =
      (if e.slot = slot ∧ fates e.fate = true then 1 else 0) + (pick es slot fates).length := by
  show (pick (eventsAt e.slot e.fate [e.task] ++ es) slot fates).length = _
  rw [pick_append, List.length_append, pick_eventsAt]
  split <;> rfl

/-- A task that is admitted enters the queue at once or waits, and a task that enters the queue is
admitted or flushed. -/
theorem length_pick_admits (es : List Event) (slot : Nat) :
    (pick es slot Fate.admits).length + (pick es slot (· = .flushed)).length =
      (pick es slot Fate.commits).length + (pick es slot (· = .admitted .pending)).length := by
  induction es with
  | nil => rfl
  | cons e es ih =>
    obtain ⟨i, t, fate⟩ := e
    simp only [length_pick_cons]
    by_cases hi : i = slot
    · cases fate with
      | admitted status => cases status <;> simp [hi, Fate.admits, Fate.commits] <;> omega
      | flushed => simp [hi, Fate.admits, Fate.commits]; omega
      | left => simp [hi, Fate.admits, Fate.commits]; omega
    · simp [hi]; omega

/-- Tasks that have left a slot and those that it has now are those that it had and those that have
been admitted. -/
theorem Accounts.length_add (h : Accounts es slot ts ws ts' ws') :
    (pick es slot (· = .left)).length + (ts'.length + ws'.length) =
      ts.length + ws.length + (pick es slot Fate.admits).length := by
  have hqueued := congrArg List.length h.queued
  have hwaiting := congrArg List.length h.waiting
  have hadmits := length_pick_admits es slot
  simp only [List.length_append, List.length_map] at hqueued hwaiting
  omega

/-- One request admits one task at most. -/
theorem length_admissions_le (a : Admission) (q : Request) (slot : Nat) :
    (pick (eventsOf a q) slot Fate.admits).length ≤ 1 := by
  have hreply : ∀ (t : Task) (reply : Reply),
      (pick (admissionOf t reply) slot Fate.admits).length ≤ 1 := by
    intro t reply
    cases reply with
    | placed p lockTaken =>
      rw [admissionOf, pick_eventsAt]
      split <;> simp
    | _ => exact Nat.zero_le 1
  cases q with
  | place t intruder => exact hreply t _
  | placeOn t i intruder => exact hreply t _
  | flush i intruder => simp [eventsOf, Fate.admits]
  | dequeue i => simp [eventsOf_dequeue, Fate.admits]
  | _ => exact Nat.zero_le 1

/-- A request that admits a task does nothing else. -/
theorem eventsOf_eq_singleton (he : ⟨slot, t, .admitted status⟩ ∈ eventsOf a q) :
    eventsOf a q = [⟨slot, t, .admitted status⟩] := by
  have hreply : ∀ {u : Task} {reply : Reply}, ⟨slot, t, .admitted status⟩ ∈ admissionOf u reply →
      admissionOf u reply = [⟨slot, t, .admitted status⟩] := by
    intro u reply he
    cases reply with
    | placed p lockTaken => exact congrArg (fun e => [e]) (List.mem_singleton.1 he).symm
    | _ => cases he
  cases q with
  | place u intruder => exact hreply he
  | placeOn u i intruder => exact hreply he
  | flush i intruder => cases fate_of_mem_eventsAt he
  | dequeue i =>
    rw [eventsOf_dequeue] at he
    cases fate_of_mem_eventsAt he
  | _ => cases he

/-- A task that is admitted is the last one in the queue, or the last one to wait. -/
theorem Accounts.admitted (h : Accounts [⟨slot, t, .admitted status⟩] slot ts ws ts' ws') :
    status = .committed ∧ ts' = ts ++ [t.image] ∧ ws' = ws ∨
      status = .pending ∧ ts' = ts ∧ ws' = ws ++ [t] := by
  have hqueued := h.queued
  have hwaiting := h.waiting
  cases status with
  | committed =>
    simp [pick, Fate.commits] at hqueued hwaiting
    exact .inl ⟨rfl, hqueued, hwaiting.symm⟩
  | pending =>
    simp [pick, Fate.commits] at hqueued hwaiting
    exact .inr ⟨rfl, hqueued, hwaiting.symm⟩

/-! ### Runs -/

theorem Stores.held_eq (h : a.Stores capacity slot ts ws) :
    a.held slot = ts.length + ws.length := by
  obtain ⟨rfl, ⟨r, hr, hholds⟩, rfl⟩ := h
  rw [held, hr, Option.elim_some, hholds.occupied_eq]

theorem Stores.length_le (h : a.Stores capacity slot ts ws) : ts.length ≤ capacity.toNat := by
  obtain ⟨r, -, hholds⟩ := h.region
  exact hholds.length_le

theorem sound_run (h : a.Sound count) (rs : List Request) : (run a rs).Sound count := by
  induction rs generalizing a with
  | nil => exact h
  | cons q rs ih => exact ih (h.perform q)

/-- A slot has more tasks than its queue has places only by as many as have been admitted when it had
no fewer. -/
theorem held_run_le (h : a.Stores capacity slot ts ws) (hsound : a.Sound count)
    (rs : List Request) (hrs : ∀ q ∈ rs, q.throughAnalysis = true) :
    (run a rs).held slot ≤ max capacity.toNat (a.held slot) + overcommitments a slot rs := by
  induction rs generalizing a ts ws with
  | nil => exact Nat.le_max_right _ _
  | cons q rs ih =>
    obtain ⟨hq, hrs⟩ := List.forall_mem_cons.1 hrs
    obtain ⟨ts₁, ws₁, hfirst, haccounts⟩ := h.perform hsound.registered hq
    have hrest : (run a (q :: rs)).held slot ≤ max capacity.toNat ((a.perform q).2.held slot) +
        overcommitments (a.perform q).2 slot rs := ih hfirst (hsound.perform q) hrs
    have hadd := haccounts.length_add
    have hone := length_admissions_le a q slot
    have hbefore := h.held_eq
    have hafter := hfirst.held_eq
    rw [overcommitments, h.capacity_eq]
    -- below the capacity one more task does no harm, and at the capacity it is counted
    split <;> omega

/-! ### Flushes -/

/-- While nobody takes the lock, waiting tasks enter the queue as long as it has places. -/
theorem flushTasks_free (hr : b.queues[slot]? = some r) (hholds : r.Holds b.capacity ts)
    (hlock : r.header.lock = 0) (n : Nat) (ws : List Task) :
    (flushTasks b slot none n ws).1 =
        (if ts.length + ws.length ≤ b.capacity.toNat then .ok (n + ws.length) else .error .full) ∧
      (flushTasks b slot none n ws).2.1 = ws.drop (b.capacity.toNat - ts.length) := by
  induction ws generalizing b r ts n with
  | nil =>
    have hle := hholds.length_le
    simp [flushTasks, hle]
  | cons t ws ih =>
    simp only [flushTasks, reduceCtorEq, if_false, Bank.enqueue_eq hr, if_pos hlock]
    rcases Nat.lt_or_eq_of_le hholds.length_le with hroom | hfull
    · obtain ⟨r₂, hpush, hholds₂, hlock₂⟩ := hholds.push (t := t) hroom
      rw [hpush]
      have hr₂ : (b.put slot r₂).queues[slot]? = some r₂ := by
        rw [Bank.put_getElem? (Bank.lt_count hr), if_pos rfl]
      obtain ⟨hresult, hrest⟩ := ih hr₂ hholds₂ (hlock₂.trans hlock) (n + 1)
      have hdrop : b.capacity.toNat - ts.length = b.capacity.toNat - (ts.length + 1) + 1 := by omega
      rw [List.length_append, List.length_singleton] at hresult hrest
      rw [List.length_cons, hdrop, List.drop_succ_cons]
      rw [show ts.length + (ws.length + 1) = ts.length + 1 + ws.length by omega,
        show n + (ws.length + 1) = n + 1 + ws.length by omega]
      exact ⟨hresult, hrest⟩
    · -- there is no place for the first of them
      have hover : ¬ ts.length + (t :: ws).length ≤ b.capacity.toNat := by
        rw [List.length_cons]
        omega
      rw [hholds.push_full hfull, if_neg hover, hfull, Nat.sub_self, List.drop_zero]
      exact ⟨rfl, rfl⟩

/-- The answer to a flush of a slot whose lock is free, and the tasks that still wait then. -/
theorem flush_free (hr : a.bank.queues[slot]? = some r) (hholds : r.Holds a.bank.capacity ts)
    (hlock : r.header.lock = 0) :
    (a.flush slot).1 = (if ts.length + (a.pendingOn slot).length ≤ a.bank.capacity.toNat
        then .ok (a.pendingOn slot).length else .error (.ring .full)) ∧
      (a.flush slot).2.pendingOn slot =
        (a.pendingOn slot).drop (a.bank.capacity.toNat - ts.length) := by
  cases hwaiting : a.pending.get? slot with
  | none =>
    have hle := hholds.length_le
    simp [Admission.flush, hwaiting, Bank.queue, hr, hle, pendingOn]
  | some waiting =>
    have hpending : a.pendingOn slot = waiting := by rw [pendingOn, hwaiting, Option.getD_some]
    obtain ⟨hresult, hrest⟩ := flushTasks_free hr hholds hlock 0 waiting
    rw [hpending]
    simp only [Admission.flush, hwaiting]
    generalize flushTasks a.bank slot none 0 waiting = out at *
    obtain ⟨result, rest, bank⟩ := out
    split at hresult
    · rename_i hfits
      obtain rfl : result = .ok (0 + waiting.length) := hresult
      have hnone : waiting.drop (a.bank.capacity.toNat - ts.length) = [] :=
        List.drop_eq_nil_of_le (by omega)
      simp [hfits, hnone]
    · rename_i hover
      obtain rfl : result = .error .full := hresult
      obtain rfl : rest = waiting.drop (a.bank.capacity.toNat - ts.length) := hrest
      simp [hover]

/-- A flush of a slot whose lock is free enters as many waiting tasks as there are places. -/
theorem Stores.flush_free (h : a.Stores capacity slot ts ws) (hr : a.bank.queues[slot]? = some r)
    (hlock : r.header.lock = 0) :
    (a.flush slot).1 = (if ts.length + ws.length ≤ capacity.toNat then .ok ws.length
        else .error (.ring .full)) ∧
      (a.flush slot).2.Stores capacity slot
        (ts ++ (ws.take (capacity.toNat - ts.length)).map Task.image)
        (ws.drop (capacity.toNat - ts.length)) := by
  obtain ⟨entered, ws', -, hws, hstores⟩ := h.flush slot none
  obtain ⟨rfl, ⟨r', hr', hholds⟩, hwaits⟩ := h
  obtain rfl : r' = r := Option.some.inj (hr'.symm.trans hr)
  obtain ⟨hanswer, hrest⟩ := Admission.flush_free hr hholds hlock
  rw [perform_flush] at hstores
  rw [hwaits] at hanswer hrest
  -- the tasks that have entered are those in front of the tasks that still wait
  obtain rfl : ws' = ws.drop (a.bank.capacity.toNat - ts.length) :=
    hstores.pendingOn_eq.symm.trans hrest
  obtain rfl : entered = ws.take (a.bank.capacity.toNat - ts.length) :=
    List.append_cancel_right (hws.symm.trans (List.take_append_drop _ ws).symm)
  exact ⟨hanswer, hstores⟩

/-! ### Every run -/

/-- When a slot has as many tasks as its queue has places, a task is admitted only if it finds the lock
taken or finds others waiting. -/
theorem Stores.overcommits (h : a.Stores capacity slot ts ws) (hreg : a.platform.Registered)
    (hq : q.throughAnalysis = true) (he : ⟨slot, t, .admitted status⟩ ∈ eventsOf a q)
    (hfull : capacity.toNat ≤ a.held slot) : status = .pending ∨ a.pendingOn slot ≠ [] := by
  obtain ⟨ts', ws', hafter, haccounts⟩ := h.perform hreg hq
  rw [eventsOf_eq_singleton he] at haccounts
  rcases haccounts.admitted with ⟨-, rfl, -⟩ | ⟨hstatus, -, -⟩
  · -- the queue had a place left, so that some tasks are not in it
    have hplace := hafter.length_le
    rw [h.held_eq] at hfull
    rw [List.length_append, List.length_singleton] at hplace
    rw [h.pendingOn_eq]
    refine .inr fun hnone => ?_
    rw [hnone, List.length_nil] at hfull
    omega
  · exact .inl hstatus

/-- In every run that starts with a new bank and no task waiting, for every slot: its queue never has
more tasks than places.  With those that wait there may be more tasks than places, but only by as many
as have been admitted when there were no fewer, and those have found the lock taken or others waiting.
If the lock is free, a flush enters as many waiting tasks as there are places left, in their order,
and all of them if and only if there are no more tasks than places. -/
theorem overcommitted_run {tree : FileTree} {directory : String}
    (hcreate : Bank.create tree directory count capacity = .ok a.bank) (hpending : a.pending = .empty)
    (hreg : a.platform.Registered) (rs : List Request)
    (hrs : ∀ q ∈ rs, q.throughAnalysis = true) (hslot : slot < count) :
    let a' := run a rs
    ∃ r ts, a'.bank.queues[slot]? = some r ∧ r.Holds capacity ts ∧ ts.length ≤ capacity.toNat ∧
      a'.held slot = ts.length + (a'.pendingOn slot).length ∧
      a'.held slot ≤ capacity.toNat + overcommitments a slot rs ∧
      (∀ q t status, q.throughAnalysis = true → ⟨slot, t, .admitted status⟩ ∈ eventsOf a' q →
        capacity.toNat ≤ a'.held slot → status = .pending ∨ a'.pendingOn slot ≠ []) ∧
      (r.header.lock = 0 →
        let places := capacity.toNat - ts.length
        (a'.flush slot).1 = (if a'.held slot ≤ capacity.toNat then .ok (a'.pendingOn slot).length
            else .error (.ring .full)) ∧
          (a'.flush slot).2.pendingOn slot = (a'.pendingOn slot).drop places ∧
          ∃ r', (a'.flush slot).2.bank.queues[slot]? = some r' ∧
            r'.Holds capacity (ts ++ ((a'.pendingOn slot).take places).map Task.image)) := by
  intro a'
  have hnone : a.pendingOn slot = [] := by
    rw [pendingOn, hpending]
    rfl
  have hstart := stores_of_create hcreate hnone hslot
  have hsound := sound_of_create hcreate hreg
  obtain ⟨ts, ws, hstores, -⟩ := hstart.run hsound rs hrs
  have hheld := held_run_le hstart hsound rs hrs
  obtain ⟨r, hr, hholds⟩ := hstores.region
  refine ⟨r, ts, hr, hholds, hholds.length_le, ?held, ?bound, ?late, ?flushed⟩
  case held => rw [hstores.held_eq, hstores.pendingOn_eq]
  case bound =>
    -- the slot has no task at the start
    rw [hstart.held_eq] at hheld
    simpa using hheld
  case late =>
    intro q t status hq he hfull
    exact hstores.overcommits (sound_run hsound rs).registered hq he hfull
  case flushed =>
    intro hlock
    obtain ⟨hanswer, hafter⟩ := hstores.flush_free hr hlock
    rw [hstores.held_eq, hstores.pendingOn_eq]
    obtain ⟨r', hr', hholds'⟩ := hafter.region
    exact ⟨hanswer, hafter.pendingOn_eq, r', hr', hholds'⟩

/-- The only place of a queue is taken, and another task is admitted all the same.  It can be flushed
once the first one has left. -/
theorem overcommitted_drained :
    let first : Task := { name := "first", wcet := 1, deadline := 10, interArrival := 10, prio := 1 }
    let second : Task := { first with name := "second", prio := 2 }
    ∃ bank, Bank.create ⟨[]⟩ "" 1 1 = .ok bank ∧
      let a : Admission := { platform := .ofCount 1, bank }
      let rs : List Request := [.placeOn first 0 none, .placeOn second 0 (some 0), .unlock 0,
        .dequeue 0]
      overcommitments a 0 rs = 1 ∧ (run a rs).held 0 = 1 ∧ (run a rs).pendingOn 0 = [second] ∧
        ((run a rs).flush 0).1 = .ok 1 ∧ ((run a rs).flush 0).2.pendingOn 0 = [] := by
  intro first second
  have hcreate : Bank.create ⟨[]⟩ "" 1 1 = .ok ⟨"", 1, [.fresh 1]⟩ := by rfl
  refine ⟨_, hcreate, ?_⟩
  intro a rs
  have hheld : (run a rs).held 0 = 1 := by decide +kernel
  have hwaiting : (run a rs).pendingOn 0 = [second] := by decide +kernel
  have hlock : (run a rs).bank.queues[0]?.map (·.header.lock) = some 0 := by decide +kernel
  have hreg : a.platform.Registered := Platform.registered_ofCores _ 1
  obtain ⟨r, ts, hr, -, -, hsum, -, -, hflush⟩ :=
    overcommitted_run (a := a) hcreate rfl hreg rs (by decide) (show 0 < 1 by decide)
  rw [hr, Option.map_some] at hlock
  obtain ⟨hanswer, hrest, -⟩ := hflush (Option.some.inj hlock)
  -- the one task that the slot has waits, so the place is free
  rw [hheld, hwaiting, List.length_singleton] at hsum
  have hfree : ts.length = 0 := by omega
  rw [hheld, hwaiting] at hanswer
  rw [hwaiting, hfree] at hrest
  exact ⟨by decide +kernel, hheld, hwaiting, hanswer, hrest⟩

/-- As long as the first one has not left, there is no place for the other one. -/
theorem overcommitted_one_place :
    let first : Task := { name := "first", wcet := 1, deadline := 10, interArrival := 10, prio := 1 }
    let second : Task := { first with name := "second", prio := 2 }
    ∃ bank, Bank.create ⟨[]⟩ "" 1 1 = .ok bank ∧
      let a : Admission := { platform := .ofCount 1, bank }
      let rs : List Request := [.placeOn first 0 none, .placeOn second 0 (some 0), .unlock 0]
      (∀ q ∈ rs, q.throughAnalysis = true) ∧ ¬ (run a rs).held 0 ≤ 1 ∧
        ((run a rs).flush 0).1 = .error (.ring .full) := by
  intro first second
  refine ⟨⟨"", 1, [.fresh 1]⟩, by rfl, ?_⟩
  intro a rs
  exact ⟨by decide, by decide +kernel, by decide +kernel⟩

end RealTime.Admission
