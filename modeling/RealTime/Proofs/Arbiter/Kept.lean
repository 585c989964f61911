import RealTime.Arbiter.Poll
import RealTime.Proofs.Ordered

/-! # What decisions, debts and observations leave alone

Most of what the arbiter does to a record changes its permission, its debts, its newest job,
its release or its core, and nothing else.  `Arbiter.Kept a b` says that `b` differs from `a` in
such things only: the same tasks are supervised with the same competitors in the same groups,
and the history is the same.

Each function that only decides, charges, observes or judges is shown to keep in this sense,
so that a property of competitors and groups has to be checked for the rest alone.

* `kept_arbitrate`, `kept_arbitrateAll`   decisions
* `kept_settle`, `kept_charge`            debts
* `kept_observeOthers`, `kept_conclude`   taking note of jobs -/

namespace RealTime

/-- `r'` differs from `r` in its permission, its debts, its jobs or its core only.  The core may
only change to one that exists. -/
structure Record.Kept (cores : Nat) (r r' : Record) : Prop where
  deadline : r'.deadline = r.deadline
  interArrival : r'.interArrival = r.interArrival
  group : r'.group = r.group
  competitors : r'.competitors = r.competitors
  debts : r'.debts.length = r.debts.length
  core : r.core < cores → r'.core < cores

namespace Record

variable {cores : Nat}

theorem Kept.refl (r : Record) : r.Kept cores r := ⟨rfl, rfl, rfl, rfl, rfl, id⟩

theorem Kept.trans {r r' r'' : Record} (h : r.Kept cores r') (h' : r'.Kept cores r'') :
    r.Kept cores r'' where
  deadline := h'.deadline.trans h.deadline
  interArrival := h'.interArrival.trans h.interArrival
  group := h'.group.trans h.group
  competitors := h'.competitors.trans h.competitors
  debts := h'.debts.trans h.debts
  core := fun hc => h'.core (h.core hc)

theorem kept_modifyDebt (r : Record) (core : Nat) (f : Nat → Nat) :
    r.Kept cores (r.modifyDebt core f) :=
  ⟨rfl, rfl, rfl, rfl, List.length_modify .., id⟩

theorem kept_observe (r : Record) (job : JobRecord) : r.Kept cores (r.observe job) := by
  rw [observe]
  split
  · exact ⟨rfl, rfl, rfl, rfl, rfl, id⟩
  · exact .refl r

theorem kept_follow (r : Record) (core : Nat) : r.Kept cores (r.follow core cores) := by
  rw [follow]
  split
  · rename_i hlt
    exact ⟨rfl, rfl, rfl, rfl, rfl, fun _ => hlt⟩
  · exact .refl r

theorem kept_reward (r : Record) (job : JobRecord) : r.Kept cores (Arbiter.reward r job) := by
  have hdebt : r.Kept cores (r.modifyDebt r.core (· - 1)) := kept_modifyDebt ..
  rw [Arbiter.reward]
  split
  · exact hdebt
  · exact hdebt.trans ⟨rfl, rfl, rfl, rfl, rfl, id⟩

end Record

namespace Arbiter

/-- `b` differs from `a` in its goal and in the permissions, debts, jobs and cores of its records
only. -/
structure Kept (a b : Arbiter) : Prop where
  cores : b.cores = a.cores
  groups : b.groups = a.groups
  ended : b.ended = a.ended
  records : ∀ name, Option.Rel (Record.Kept a.cores) (a.tasks.get? name) (b.tasks.get? name)

variable {a b c : Arbiter} {name : String}

theorem Kept.refl (a : Arbiter) : a.Kept a where
  cores := rfl
  groups := rfl
  ended := rfl
  records := fun name => by
    cases a.tasks.get? name with
    | none => exact .none
    | some r => exact .some (.refl r)

theorem Kept.trans (h : a.Kept b) (h' : b.Kept c) : a.Kept c where
  cores := h'.cores.trans h.cores
  groups := h'.groups.trans h.groups
  ended := h'.ended.trans h.ended
  records := fun name => by
    have hab := h.records name
    have hbc := h'.records name
    rw [h.cores] at hbc
    -- with the three lookups as variables, the relation decides which cases there are
    generalize a.tasks.get? name = x at hab
    generalize b.tasks.get? name = y at hab hbc
    generalize c.tasks.get? name = z at hbc
    cases hab with
    | none => exact hbc
    | some hr =>
      cases hbc with
      | some hr' => exact .some (hr.trans hr')

/-- A record that is kept was there before. -/
theorem Kept.get? (h : a.Kept b) {r' : Record} (hr' : b.tasks.get? name = some r') :
    ∃ r, a.tasks.get? name = some r ∧ r.Kept a.cores r' := by
  have hrel := h.records name
  rw [hr'] at hrel
  generalize a.tasks.get? name = x at hrel
  cases hrel with
  | some hr => exact ⟨_, rfl, hr⟩

/-- A record that was there before is kept. -/
theorem Kept.get?_of_get? (h : a.Kept b) {r : Record} (hr : a.tasks.get? name = some r) :
    ∃ r', b.tasks.get? name = some r' ∧ r.Kept a.cores r' := by
  have hrel := h.records name
  rw [hr] at hrel
  generalize b.tasks.get? name = x at hrel
  cases hrel with
  | some hr => exact ⟨_, rfl, hr⟩

/-- The same tasks are supervised. -/
theorem Kept.contains (h : a.Kept b) (name : String) :
    b.tasks.contains name = a.tasks.contains name := by
  have hrel := h.records name
  rw [OrderedMap.contains, OrderedMap.contains]
  generalize a.tasks.get? name = x at hrel
  generalize b.tasks.get? name = y at hrel
  cases hrel <;> rfl

/-- A change of one record that keeps the record keeps. -/
theorem kept_modify {f : Record → Record} (h : ∀ r : Record, r.Kept a.cores (f r)) :
    a.Kept (a.modify name f) where
  cores := rfl
  groups := rfl
  ended := rfl
  records := fun other => by
    simp only [modify, OrderedMap.get?_modify]
    split
    · cases a.tasks.get? other with
      | none => exact .none
      | some r => exact .some (h r)
    · exact (Kept.refl a).records other

/-- Steps that keep, one after the other, keep. -/
theorem kept_foldl {α : Type} {f : Arbiter → α → Arbiter}
    (h : ∀ (a : Arbiter) (x : α), a.Kept (f a x)) (a : Arbiter) (l : List α) : a.Kept (l.foldl f a) := by
  induction l generalizing a with
  | nil => exact .refl a
  | cons x l ih => exact (h a x).trans (ih (f a x))

/-! ### Decisions and debts -/

theorem kept_permit (a : Arbiter) (name : String) (allowed : Bool) :
    a.Kept (a.permit name allowed) :=
  kept_modify fun _ => ⟨rfl, rfl, rfl, rfl, rfl, id⟩

/-- A decision changes permissions only. -/
theorem kept_arbitrate (a : Arbiter) (name : String) : a.Kept (a.arbitrate name) := by
  rw [arbitrate]
  split
  · exact .refl a
  · split
    · exact .refl a
    · split
      · split
        · exact .refl a
        · exact kept_permit a name true
      · split
        -- the task is ahead of its rivals, or one of them is ahead of it
        · exact (kept_permit a name true).trans
            (kept_foldl (fun a (rival : String × Record) => kept_permit a rival.1 false) _ _)
        · exact (kept_permit a name false).trans (kept_permit _ _ true)

theorem kept_arbitrateAll (a : Arbiter) (names : List String) : a.Kept (a.arbitrateAll names) :=
  kept_foldl kept_arbitrate a names

/-- Settling the debts of a group changes debts only. -/
theorem kept_settle (a : Arbiter) (name : String) : a.Kept (a.settle name) := by
  simp only [settle]
  split
  · exact .refl a
  · split
    · exact .refl a
    · split
      · exact .refl a
      · exact kept_foldl (fun a _ => kept_modify fun r => r.kept_modifyDebt ..) _ _

theorem kept_charge (a : Arbiter) (name : String) : a.Kept (a.charge name) := by
  have hraise : a.Kept (a.modify name fun r => r.modifyDebt r.core Debt.raise) :=
    kept_modify fun r => r.kept_modifyDebt ..
  simp only [charge]
  split
  · exact hraise.trans (kept_arbitrate _ name)
  · exact (hraise.trans (kept_settle _ name)).trans (kept_arbitrate _ name)

/-! ### Jobs -/

theorem kept_observe (a : Arbiter) (job : JobRecord) : a.Kept (a.observe job) :=
  kept_modify fun r => r.kept_observe job

theorem kept_observeOthers (a : Arbiter) (name : String) (s : Snapshot) :
    a.Kept (a.observeOthers name s) :=
  kept_foldl (fun a job => by
    split
    · exact .refl a
    · exact kept_observe a job) a s.jobs

theorem kept_follow (a : Arbiter) (name : String) (core : Nat) :
    a.Kept (a.modify name (·.follow core a.cores)) :=
  kept_modify fun r => r.kept_follow core

/-- Marking the newest job of a task as handled keeps. -/
theorem kept_handled (a : Arbiter) (name : String) (p : Record → Bool) :
    a.Kept (a.modify name fun r =>
      if p r then { r with newest := { r.newest with handled := true } } else r) :=
  kept_modify fun r => by
    split
    · exact ⟨rfl, rfl, rfl, rfl, rfl, id⟩
    · exact .refl r

theorem kept_conclude (a : Arbiter) (name : String) (job : JobRecord) :
    a.Kept (a.conclude name job) := by
  have hobserve : (a.arbitrate name).Kept ((a.arbitrate name).modify name (·.observe job)) :=
    kept_modify fun r => r.kept_observe job
  -- deciding, taking note and marking the job as handled, in this order
  have hhandled := kept_handled ((a.arbitrate name).modify name (·.observe job)) name
    fun r => decide (r.newest.id = job.id)
  simp only [decide_eq_true_eq] at hhandled
  exact ((kept_arbitrate a name).trans hobserve).trans hhandled

theorem kept_setArrival (a : Arbiter) (name : String) (job : JobRecord) :
    a.Kept (a.setArrival name job) :=
  kept_modify fun _ => ⟨rfl, rfl, rfl, rfl, rfl, id⟩

theorem kept_setNextArrival (a : Arbiter) (name : String) (job : JobRecord) :
    a.Kept (a.setNextArrival name job) :=
  kept_modify fun _ => ⟨rfl, rfl, rfl, rfl, rfl, id⟩

/-! ### A new task -/

/-- A task that is new to the arbiter, on a core that there is, is not refused. -/
theorem add_of_new {core : Nat} {t : Task} (hcore : core < a.cores)
    (hnew : a.tasks.contains t.name = false) :
    (a.add core t).2 = { a with
      ended := a.ended.erase t.name
      tasks := a.tasks.insert t.name (.ofTask t core a.cores) } := by
  simp only [add, ge_iff_le, if_neg (Nat.not_le.2 hcore), hnew]
  rfl

end Arbiter

end RealTime
