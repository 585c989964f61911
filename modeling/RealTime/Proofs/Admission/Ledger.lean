import RealTime.Proofs.Admission.Guarantee
import RealTime.Proofs.Admission.Sound

/-! # No admitted task is lost

The answers tell what becomes of the tasks of a slot: one is admitted into the queue or has to
wait for it, waiting ones are flushed into the queue, the first queued one leaves.  In every run
these events account for all that is in the queue and for all that waits, first come first
served, however often other processes take the lock at a bad moment.

Within one admission or one flush only the lock of its own slot matters, and a lock that has been
freed again by the next entry is as good as none.  So one intruder for an operation stands for
all that other processes can do meanwhile.

* `Accounts`         what the events say about the tasks of a slot
* `Stores.perform`   one request
* `conserved_run`    all runs -/

namespace RealTime.Admission

/-- What can become of a task. -/
inductive Fate where
  | admitted (status : PlacementStatus)
  /-- It has waited and enters the queue. -/
  | flushed
  /-- It is the first of the queue and leaves. -/
  | left
  deriving DecidableEq

/-- Whether a task enters the queue. -/
def Fate.commits : Fate → Bool
  | .admitted .committed | .flushed => true
  | .admitted .pending | .left => false

/-- Something has become of a task at a slot. -/
structure Event where
  slot : Nat
  task : Task
  fate : Fate

/-- The same has become of some tasks at a slot. -/
def eventsAt (slot : Nat) (fate : Fate) (ts : List Task) : List Event := ts.map (⟨slot, ·, fate⟩)

/-- The tasks of a slot with one of some fates, in the order of the events. -/
def pick (es : List Event) (slot : Nat) (fates : Fate → Bool) : List Task :=
  (es.filter fun e => e.slot = slot && fates e.fate).map Event.task

/-- What the answer to an attempt to place a task tells. -/
def admissionOf (t : Task) : Reply → List Event
  | .placed p _ => eventsAt p.slot (.admitted p.status) [t]
  | _ => []

/-- What the answer to a request for the first task of a slot tells. -/
def departureOf (slot : Nat) : Reply → List Event
  | .task t => eventsAt slot .left [t]
  | _ => []

/-- What becomes of tasks by one request. -/
def eventsOf (a : Admission) : Request → List Event
  | q@(.place t _) | q@(.placeOn t _ _) => admissionOf t (a.perform q).1
  | .flush slot intruder =>
    eventsAt slot .flushed (entering a.bank slot intruder 0 (a.pendingOn slot))
  | q@(.dequeue slot) => departureOf slot (a.perform q).1
  | _ => []

/-- What becomes of tasks in a run. -/
def events (a : Admission) : List Request → List Event
  | [] => []
  | q :: rs => eventsOf a q ++ events (a.perform q).2 rs

/-- The events account for the queued tasks `ts'` and the waiting tasks `ws'` of a slot that had
`ts` and `ws` before. -/
structure Accounts (es : List Event) (slot : Nat) (ts ws ts' ws' : List Task) : Prop where
  queued : pick es slot (· = .left) ++ ts' = ts ++ (pick es slot Fate.commits).map Task.image
  waiting : ws ++ pick es slot (· = .admitted .pending) = pick es slot (· = .flushed) ++ ws'

variable {a : Admission} {capacity : UInt64} {t : Task} {slot i count : Nat}
  {ts ws ts' ws' ts'' ws'' : List Task} {es es' : List Event} {q : Request}

/-! ### Accounts -/

theorem pick_append (es es' : List Event) (slot : Nat) (fates : Fate → Bool) :
    pick (es ++ es') slot fates = pick es slot fates ++ pick es' slot fates := by
  rw [pick, List.filter_append, List.map_append, pick, pick]

@[simp]
theorem pick_eventsAt (ts : List Task) (slot i : Nat) (fate : Fate) (fates : Fate → Bool) :
    pick (eventsAt slot fate ts) i fates = if slot = i ∧ fates fate = true then ts else [] := by
  by_cases hpicked : slot = i ∧ fates fate = true
  · rw [if_pos hpicked, pick, List.filter_eq_self.2, eventsAt, List.map_map]
    · exact List.map_id ts
    · simp [eventsAt, hpicked]
  · rw [if_neg hpicked, pick, List.filter_eq_nil_iff.2, List.map_nil]
    intro e he
    obtain ⟨t, -, rfl⟩ := List.mem_map.1 he
    simpa using hpicked

theorem fate_of_mem_eventsAt {fate : Fate} {ks : List Task} {e : Event}
    (he : e ∈ eventsAt slot fate ks) : e.fate = fate := by
  obtain ⟨k, -, rfl⟩ := List.mem_map.1 he
  rfl

theorem Accounts.refl : Accounts [] slot ts ws ts ws where
  queued := (List.append_nil ts).symm
  waiting := List.append_nil ws

theorem Accounts.trans (h : Accounts es slot ts ws ts' ws')
    (h' : Accounts es' slot ts' ws' ts'' ws'') : Accounts (es ++ es') slot ts ws ts'' ws'' := by
  constructor
  · rw [pick_append, pick_append, List.append_assoc, h'.queued, ← List.append_assoc, h.queued,
      List.append_assoc, List.map_append]
  · rw [pick_append, pick_append, ← List.append_assoc, h.waiting, List.append_assoc, h'.waiting,
      List.append_assoc]

/-- What happens at another slot does not count. -/
theorem Accounts.elsewhere (hi : slot ≠ i) (fate : Fate) (ks : List Task) :
    Accounts (eventsAt slot fate ks) i ts ws ts ws := by
  constructor <;> simp [hi]

/-- A task enters the queue of some slot. -/
theorem accounts_committed (slot i : Nat) (t : Task) (ts ws : List Task) :
    Accounts (eventsAt slot (.admitted .committed) [t]) i ts ws
      (if slot = i then ts ++ [t.image] else ts) ws := by
  by_cases hi : slot = i
  · constructor <;> simp [hi, Fate.commits]
  · rw [if_neg hi]
    exact .elsewhere hi _ [t]

/-- A task begins to wait for some slot. -/
theorem accounts_waits (slot i : Nat) (t : Task) (ts ws : List Task) :
    Accounts (eventsAt slot (.admitted .pending) [t]) i ts ws ts
      (if slot = i then ws ++ [t] else ws) := by
  by_cases hi : slot = i
  · constructor <;> simp [hi, Fate.commits]
  · rw [if_neg hi]
    exact .elsewhere hi _ [t]

/-- Tasks that have waited for some slot enter its queue. -/
theorem accounts_flushed (slot i : Nat) (ks ts ws : List Task) :
    Accounts (eventsAt slot .flushed ks) i ts ((if slot = i then ks else []) ++ ws)
      (ts ++ (if slot = i then ks else []).map Task.image) ws := by
  by_cases hi : slot = i
  · constructor <;> simp [hi, Fate.commits]
  · rw [if_neg hi, List.map_nil, List.append_nil]
    exact .elsewhere hi _ ks

/-- A task leaves the queue of some slot. -/
theorem accounts_left (slot i : Nat) (left : Option Task) (ts ws : List Task) :
    Accounts (eventsAt slot .left left.toList) i ((if slot = i then left else none).toList ++ ts)
      ws ts ws := by
  by_cases hi : slot = i
  · constructor <;> simp [hi, Fate.commits]
  · rw [if_neg hi]
    exact .elsewhere hi _ _

/-! ### Requests -/

variable {r : Attempt Placement}

/-- An attempt to place a task, and what its answer tells. -/
private theorem Stores.placed (h : a.Stores capacity i ts ws) (hplaced : Placed a t r) :
    ∃ ts' ws', (replyTo r).2.Stores capacity i ts' ws' ∧
      Accounts (admissionOf t (replyTo r).1) i ts ws ts' ws' := by
  cases hplaced with
  | @refused _ _ bank hbank =>
    have hkept : { a with bank }.Stores capacity i ts ws := h.unlocked hbank rfl
    exact ⟨ts, ws, hkept, .refl⟩
  | @placed _ p platform hentered hstatus _ =>
    obtain ⟨slot, queue, status, created⟩ := p
    cases hentered with
    | refused => cases hstatus
    | committed hr _ _ hpush hbank =>
      cases hstatus
      exact ⟨_, ws, (h.committed hr hpush hbank).withPlatform platform,
        accounts_committed slot i t ts ws⟩
    | waits _ _ _ hbank =>
      cases hstatus
      exact ⟨ts, _, (h.waits hbank slot t).withPlatform platform, accounts_waits slot i t ts ws⟩

theorem eventsOf_dequeue (a : Admission) (slot : Nat) :
    eventsOf a (.dequeue slot) = eventsAt slot .left (a.bank.dequeue slot).1.toOption.toList := by
  simp only [eventsOf, Admission.perform]
  obtain ⟨_ | t, bank⟩ := a.bank.dequeue slot <;> rfl

/-- Whatever is asked, the events account for what a slot has then. -/
theorem Stores.perform (h : a.Stores capacity i ts ws) (hreg : a.platform.Registered)
    (hq : q.throughAnalysis = true) :
    ∃ ts' ws', (a.perform q).2.Stores capacity i ts' ws' ∧
      Accounts (eventsOf a q) i ts ws ts' ws' := by
  cases q with
  -- a placement is refused or done as a whole, so its answer tells whether a task has entered
  | place t intruder => exact h.placed (placed_place hreg t intruder)
  | placeOn t slot intruder => exact h.placed (placed_placeOn a t slot intruder)
  | flush slot intruder =>
    obtain ⟨entered, ws', rfl, rfl, hstores⟩ := h.flush slot intruder
    exact ⟨_, ws', hstores, accounts_flushed slot i _ ts ws'⟩
  | enqueue => exact nomatch hq
  | dequeue slot =>
    obtain ⟨left, ts', rfl, rfl, hstores⟩ := h.dequeue slot
    refine ⟨ts', ws, hstores, ?_⟩
    rw [eventsOf_dequeue]
    exact accounts_left slot i _ ts' ws
  | lock => exact ⟨ts, ws, h.untouched rfl, .refl⟩
  | unlock => exact ⟨ts, ws, h.untouched rfl, .refl⟩
  | change => exact ⟨ts, ws, h.untouched rfl, .refl⟩

/-! ### Runs -/

/-- In every run, the events account for what a slot has at the end. -/
theorem Stores.run (h : a.Stores capacity slot ts ws) (hsound : a.Sound count)
    (rs : List Request) (hrs : ∀ q ∈ rs, q.throughAnalysis = true) :
    ∃ ts' ws', (run a rs).Stores capacity slot ts' ws' ∧
      Accounts (events a rs) slot ts ws ts' ws' := by
  -- what a slot has after the first request is what the others start from
  induction rs generalizing a ts ws with
  | nil => exact ⟨ts, ws, h, .refl⟩
  | cons q rs ih =>
    obtain ⟨hq, hrs⟩ := List.forall_mem_cons.1 hrs
    obtain ⟨ts₁, ws₁, hfirst, haccounts⟩ := h.perform hsound.registered hq
    obtain ⟨ts₂, ws₂, hlast, haccounts'⟩ := ih hfirst (hsound.perform q) hrs
    exact ⟨ts₂, ws₂, hlast, haccounts.trans haccounts'⟩

/-- In every run that starts with a new bank and no task waiting, for every slot: the tasks that have
left its queue and those that are in it are the committed ones, admitted at once or flushed, in this
order; and the tasks admitted to wait are those that have been flushed and those that still wait, in
this order.  A listing of the queue tells what is in it. -/
theorem conserved_run {tree : FileTree} {directory : String}
    (hcreate : Bank.create tree directory count capacity = .ok a.bank) (hpending : a.pending = .empty)
    (hreg : a.platform.Registered) (rs : List Request)
    (hrs : ∀ q ∈ rs, q.throughAnalysis = true) (hslot : slot < count) :
    ∃ r ts, (run a rs).bank.queues[slot]? = some r ∧ r.Holds capacity ts ∧
      r.contents capacity = .ok ts ∧
      pick (events a rs) slot (· = .left) ++ ts =
        (pick (events a rs) slot Fate.commits).map Task.image ∧
      pick (events a rs) slot (· = .admitted .pending) =
        pick (events a rs) slot (· = .flushed) ++ (run a rs).pendingOn slot := by
  have hnone : a.pendingOn slot = [] := by
    rw [pendingOn, hpending]
    rfl
  have hstart := stores_of_create hcreate hnone hslot
  obtain ⟨ts, ws, hstores, haccounts⟩ := hstart.run (sound_of_create hcreate hreg) rs hrs
  obtain ⟨r, hr, hholds⟩ := hstores.region
  refine ⟨r, ts, hr, hholds, hholds.contents_eq, haccounts.queued, ?_⟩
  rw [hstores.pendingOn_eq]
  exact haccounts.waiting

/-- The lock is taken before two of three tasks can enter the queue, and again before the second of
these can be flushed. -/
theorem conserved_stopped_flush :
    let queued : Task := { name := "queued", wcet := 1, deadline := 10, interArrival := 10, prio := 1 }
    let flushed : Task := { queued with name := "flushed", prio := 2 }
    let waiting : Task := { queued with name := "waiting", prio := 3 }
    ∃ bank, Bank.create ⟨[]⟩ "" 1 4 = .ok bank ∧
      let a : Admission := { platform := .ofCount 1, bank }
      let rs : List Request := [.placeOn queued 0 none, .placeOn flushed 0 (some 0), .unlock 0,
        .dequeue 0, .placeOn waiting 0 (some 0), .unlock 0, .flush 0 (some 1)]
      pick (events a rs) 0 (· = .left) = [queued.image] ∧
        pick (events a rs) 0 (· = .admitted .pending) = [flushed, waiting] ∧
        (run a rs).pendingOn 0 = [waiting] ∧
        ∃ r, (run a rs).bank.queues[0]? = some r ∧ r.contents 4 = .ok [flushed.image] := by
  intro queued flushed waiting
  have hcreate : Bank.create ⟨[]⟩ "" 1 4 = .ok ⟨"", 4, [.fresh 4]⟩ := by rfl
  refine ⟨_, hcreate, ?_⟩
  intro a rs
  have hleft : pick (events a rs) 0 (· = .left) = [queued.image] := by decide +kernel
  have hcommits : pick (events a rs) 0 Fate.commits = [queued, flushed] := by decide +kernel
  have hreg : a.platform.Registered := Platform.registered_ofCores _ 1
  refine ⟨hleft, by decide +kernel, by decide +kernel, ?_⟩
  obtain ⟨r, ts, hr, -, hcontents, htasks, -⟩ :=
    conserved_run (a := a) hcreate rfl hreg rs (by decide) (show 0 < 1 by decide)
  -- the queue is what the account says, and need not be computed
  rw [hleft, hcommits] at htasks
  refine ⟨r, hr, ?_⟩
  rw [hcontents]
  exact congrArg Except.ok (List.tail_eq_of_cons_eq htasks)

end RealTime.Admission
