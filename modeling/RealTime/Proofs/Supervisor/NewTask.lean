import RealTime.Proofs.Supervisor.Reachable

/-! # A new task, all or nothing

A new task passes through the bank, the platform and the arbiter.  If it is refused anywhere, all
of them are as before but for locks that other processes hold.  If it is placed, there is one copy
of it in one place, the platform provides for it, and the arbiter watches over it.

* `Untouched`, `Admits`  what is meant by nothing and by all
* `newTask_all_or_nothing`  there is no third outcome -/

namespace RealTime.Supervisor

/-- Nothing has changed but locks: platform, waiting tasks and arbiter are the same, and so is
every region but for its lock. -/
def Untouched (s s' : Supervisor) : Prop :=
  ∃ bank, bank.unlocked = s.admission.bank.unlocked ∧
    s' = { s with admission := { s.admission with bank } }

/-- One task has been added to what a slot has, to the end of its queue or of its waiting tasks.
No other slot has changed but for locks. -/
inductive Added (a : Admission) (t : Task) (slot : Nat) : PlacementStatus → Admission → Prop
  /-- The queue held the tasks `ts`, and a listing tells the new one behind them. -/
  | committed {a' : Admission} {r r' : Region} {ts : List Task}
      (hr : a.bank.queues[slot]? = some r) (hbefore : r.Holds a.bank.capacity ts)
      (hafter : r'.Holds a.bank.capacity (ts ++ [t.image]))
      (hlisted : r.contents a.bank.capacity = .ok ts)
      (hlisted' : r'.contents a.bank.capacity = .ok (ts ++ [t.image]))
      (hbank : a'.bank.unlocked = (a.bank.put slot r').unlocked)
      (hpending : a'.pending = a.pending) : Added a t slot .committed a'
  | pending {a' : Admission} (hslot : slot < a.bank.count)
      (hbank : a'.bank.unlocked = a.bank.unlocked)
      (hpending : ∀ i, a'.pendingOn i = if i = slot then a.pendingOn i ++ [t] else a.pendingOn i) :
      Added a t slot .pending a'

/-- The placement of a task has been carried out in full. -/
structure Admits (s : Supervisor) (t : Task) (p : Placement) (s' : Supervisor) : Prop where
  added : Added s.admission t p.slot p.status s'.admission
  provides : Admission.Provides s.admission.platform t p s'.admission.platform
  /-- The arbiter did not watch over the task, and does so now on the slot of the task. -/
  new : s.arbiter.tasks.contains t.name = false
  watched : ∃ r, s'.arbiter.tasks.get? t.name = some r ∧ r.core = p.slot ∧ r.allowed = true
  /-- For the rest the arbiter is the same. -/
  arbiter : s'.arbiter = { s.arbiter with
    ended := s.arbiter.ended.erase t.name
    tasks := s.arbiter.tasks.insert t.name (.ofTask t p.slot s.arbiter.cores) }
  /-- So is what lies beyond admission and arbiter. -/
  rest : s' = { s with admission := s'.admission, arbiter := s'.arbiter }

variable {s : Supervisor} {a : Admission} {t : Task} {slot : Nat}

/-- An entry that is not refused adds the task. -/
private theorem added_of_entered (hsound : a.bank.Sound) {r : Attempt PlacementStatus}
    {status : PlacementStatus} (h : Admission.Entered a t slot r) (hstatus : r.result = .ok status)
    (platform : Platform) : Added a t slot status { r.state with platform } := by
  cases h with
  | refused => cases hstatus
  | committed hr _ _ hpush hbank =>
    cases hstatus
    obtain ⟨ts, hholds⟩ := hsound.holds hr
    have hholds' := hholds.of_push hpush
    exact .committed hr hholds hholds' hholds.contents_eq hholds'.contents_eq hbank rfl
  | waits hr _ _ hbank =>
    cases hstatus
    refine .pending (Bank.lt_count hr) hbank fun i => ?_
    rw [Admission.pendingOn_insert]
    split
    · rename_i heq
      rw [heq]
    · rfl

/-- Where a task has been added, the bank has a slot. -/
private theorem Added.lt_count {status : PlacementStatus} {a' : Admission}
    (h : Added a t slot status a') : slot < a.bank.count := by
  cases h with
  | committed hr => exact Bank.lt_count hr
  | pending hslot => exact hslot

/-- A new task is refused and nothing has changed but locks, or it is placed and all has been done
that belongs to that. -/
theorem newTask_all_or_nothing (h : Reachable s) (t : Task) (slot intruder : Option Nat) :
    (∃ e lockTaken, (s.newTask t slot intruder).1 = .refused e lockTaken ∧
      Untouched s (s.newTask t slot intruder).2) ∨
    ∃ p lockTaken, (s.newTask t slot intruder).1 = .placed p lockTaken ∧
      Admits s t p (s.newTask t slot intruder).2 := by
  have hsound := sound_of_reachable h
  rw [newTask_eq]
  split
  · exact .inl ⟨_, _, rfl, _, rfl, rfl⟩
  · rename_i hnew
    have hnew := Bool.eq_false_iff.2 hnew
    have hplaced := placed_attempt hsound.registered t slot intruder
    generalize s.attempt t slot intruder = r at hplaced
    cases hplaced with
    | refused hbank => exact .inl ⟨_, _, rfl, _, hbank, rfl⟩
    | @placed r p platform hentered hstatus hprovides =>
      have hadded := added_of_entered hsound.bank hentered hstatus platform
      -- the slot is one of the bank, which has as many as the arbiter has cores
      have hlt : p.slot < s.arbiter.cores := hsound.count_eq ▸ hadded.lt_count
      refine .inr ⟨p, _, rfl, hadded, hprovides, hnew, ?_, Arbiter.add_of_new hlt hnew, rfl⟩
      refine ⟨.ofTask t p.slot s.arbiter.cores, ?_, rfl, rfl⟩
      simp only [Arbiter.add_of_new hlt hnew, OrderedMap.get?_insert, if_pos]

/-- The first task is queued on a slot that gets a run queue for it. -/
theorem newTask_first :
    let s := ofParts (.ofCores [(0, .active)] 1) ⟨"", 4, [.fresh 4]⟩
    let t : Task := { name := "first", deadline := 10, wcet := 1 }
    Reachable s ∧ (s.newTask t none none).1 = .placed ⟨0, some 0, .committed, true⟩ false ∧
      Admits s t ⟨0, some 0, .committed, true⟩ (s.newTask t none none).2 := by
  intro s t
  have hcreate : Bank.create ⟨[]⟩ "" 1 4 = .ok ⟨"", 4, [.fresh 4]⟩ := by rfl
  have hreach : Reachable s := .start (.ofParts hcreate [(0, .active)] 1 [])
  have hreply : (s.newTask t none none).1 = .placed ⟨0, some 0, .committed, true⟩ false := by
    decide +kernel
  rcases newTask_all_or_nothing hreach t none none with ⟨e, _, heq, -⟩ | ⟨p, _, heq, hadmits⟩
  · cases hreply.symm.trans heq
  · cases hreply.symm.trans heq
    exact ⟨hreach, hreply, hadmits⟩

end RealTime.Supervisor
