import RealTime.Proofs.Admission.Entry
import RealTime.Proofs.Platform

/-! # All of a placement or nothing

The entry of a task into a queue comes before the changes to the platform that belong to it.
These cannot fail any more once the task has entered: the run queue that was chosen is known, or
the core is unused and the slot free.  So an attempt that is refused has changed nothing but
locks.

* `Provides`       what a placement does to the platform
* `placed_place`, `placed_placeOn`  every attempt is refused or does all of it -/

namespace RealTime.Admission

/-- What the placement of a task does to the platform. -/
inductive Provides (p : Platform) (t : Task) : Placement → Platform → Prop
  /-- The requester has named the slot. -/
  | named {slot : Nat} {status : PlacementStatus} : Provides p t ⟨slot, none, status, false⟩ p
  /-- The utilization of a run queue grows by the share of the task. -/
  | chosen {q : Nat} {d : RunQueue} {status : PlacementStatus} (hd : p.queues[q]? = some d) :
      Provides p t ⟨d.slot, some q, status, false⟩
        { p with queues := p.queues.set q { d with
          utilization := Platform.clampUtilization (d.utilization + t.utilization) } }
  /-- A new run queue on a slot that backed none is hosted by a core that hosted none. -/
  | created {core slot : Nat} {c : Core} {status : PlacementStatus}
      (hc : p.cores.get? core = some c) (hactive : c.state = .active) (hunused : c.isUnused = true)
      (hslot : slot < p.slots) (hfree : p.usesSlot slot = false) :
      Provides p t ⟨slot, some p.queues.length, status, true⟩
        { p with
          queues := p.queues ++
            [{ taskClass := t.taskClass, strategy := t.strategy, slot
               utilization := Platform.clampUtilization t.utilization }]
          cores := p.cores.modify core fun c =>
            { c with taskClass := t.taskClass, hosted := c.hosted.insert p.queues.length } }

/-- What an attempt to place a task comes to. -/
inductive Placed (a : Admission) (t : Task) : Attempt Placement → Prop
  /-- Nothing has happened. -/
  | refused {e : AdmissionError} {lockTaken : Bool} {bank : Bank}
      (hbank : bank.unlocked = a.bank.unlocked) :
      Placed a t { result := .error e, lockTaken, state := { a with bank } }
  /-- The task has entered a slot, and the platform provides for it. -/
  | placed {r : Attempt PlacementStatus} {p : Placement} {platform : Platform}
      (hentered : Entered a t p.slot r) (hstatus : r.result = .ok p.status)
      (hprovides : Provides a.platform t p platform) :
      Placed a t { result := .ok p, lockTaken := r.lockTaken, state := { r.state with platform } }

variable {a : Admission} {t : Task} {slot : Nat} {r : Attempt PlacementStatus}

/-- A task enters a slot that the bank has. -/
theorem Entered.lt_count (h : Entered a t slot r) {status : PlacementStatus}
    (hstatus : r.result = .ok status) : slot < a.bank.count := by
  cases h with
  | refused => cases hstatus
  | committed hr => exact Bank.lt_count hr
  | waits hr => exact Bank.lt_count hr

theorem Placed.lt_count {r : Attempt Placement} (h : Placed a t r) {p : Placement}
    (hresult : r.result = .ok p) : p.slot < a.bank.count := by
  cases h with
  | refused => cases hresult
  | placed hentered hstatus _ =>
    cases hresult
    exact hentered.lt_count hstatus

/-- If what follows an entry cannot fail, the attempt is as good as the entry. -/
private theorem Entered.placed (h : Entered a t slot r)
    {f : PlacementStatus → Platform → Except PlatformError Placement × Platform}
    (hf : ∀ status, ∃ p platform, f status a.platform = (.ok p, platform) ∧ p.slot = slot ∧
      p.status = status ∧ Provides a.platform t p platform) :
    Placed a t (afterwards r f) := by
  have hok : ∀ {status : PlacementStatus}, r.result = .ok status →
      r.state.platform = a.platform → Placed a t (afterwards r f) := by
    intro status hresult hplatform
    obtain ⟨p, platform, hfp, rfl, rfl, hprovides⟩ := hf status
    have hafter : afterwards r f =
        { result := .ok p, lockTaken := r.lockTaken, state := { r.state with platform } } := by
      simp only [afterwards, hresult, hplatform, hfp]
      rfl
    rw [hafter]
    exact .placed h hresult hprovides
  cases h with
  | refused hbank => exact .refused hbank
  | committed => exact hok rfl rfl
  | waits => exact hok rfl rfl

/-- The chosen run queue is known when its utilization is reported. -/
private theorem placed_placeOnMatching (a : Admission) (t : Task) (first : Nat) (rest : List Nat)
    (intruder : Option Nat) : Placed a t (a.placeOnMatching t first rest intruder) := by
  simp only [placeOnMatching]
  generalize leastLoaded a.platform first rest = q
  split
  · exact .refused rfl
  · rename_i d hd
    have hqueue := Platform.getElem?_of_queue hd
    refine (entered a t d.slot intruder).placed fun status => ?_
    refine ⟨⟨d.slot, some q, status, false⟩, _, ?_, rfl, rfl, .chosen hqueue⟩
    simp only [Platform.report_eq hqueue, Platform.andThen, load, hqueue]

/-- The core is unused and the slot free when the new run queue is bound. -/
private theorem placed_placeOnNew (hreg : a.platform.Registered) (t : Task)
    (intruder : Option Nat) : Placed a t (a.placeOnNew t intruder) := by
  simp only [placeOnNew]
  split
  · exact .refused rfl
  · rename_i core hcore
    split
    · exact .refused rfl
    · rename_i slot hslot
      obtain ⟨hactive, c, hc, hunused⟩ := Platform.unusedCores_find? hcore
      obtain ⟨hlt, hfree⟩ := Platform.freeSlot?_spec hslot
      simp only [Platform.core_eq hc, decide_eq_true_eq] at hactive
      refine (entered a t slot intruder).placed fun status => ?_
      refine ⟨⟨slot, some a.platform.queues.length, status, true⟩, _, ?_, rfl, rfl,
        .created hc hactive hunused hlt hfree⟩
      -- the report goes to the run queue that has just been added at the end
      simp only [hreg.bindNew_eq hc hunused hlt hfree, Platform.andThen, Platform.report_last]

/-- An attempt to place a task by its class and strategy is refused or does all of it. -/
theorem placed_place (hreg : a.platform.Registered) (t : Task) (intruder : Option Nat) :
    Placed a t (a.place t intruder) := by
  simp only [place]
  split
  · exact .refused rfl
  · split
    · exact placed_placeOnNew hreg t intruder
    · exact placed_placeOnMatching a t _ _ intruder

/-- An attempt to place a task on a named slot is refused or does all of it. -/
theorem placed_placeOn (a : Admission) (t : Task) (slot : Nat) (intruder : Option Nat) :
    Placed a t (a.placeOn t slot intruder) := by
  simp only [placeOn]
  split
  · exact .refused rfl
  · split
    · exact .refused rfl
    · refine (entered a t slot intruder).placed fun status => ?_
      exact ⟨⟨slot, none, status, false⟩, _, rfl, rfl, rfl, .named⟩

end RealTime.Admission
