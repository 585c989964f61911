import RealTime.Proofs.Arbiter.Fairness
import RealTime.Proofs.Arbiter.Lifecycle

/-! # What a denied task is charged

A task that is denied has no job to show when its deadline comes.  That is expected, and it is
charged for it: its debt rises and its release moves on by one period (`bill`), then the debts of its
group may decay, and then it is decided about again.  So its debt grows with each period that it
waits, apart from what is taken off the debts of its whole group.

Release 0 stands for a task of which no job has been seen, so the statement
excludes it; a task whose first job arrives at time 0 is taken for such a task, and is not charged
(`denied_without_charge`).

* `of_eq_denied`       when the examination finds a denied task
* `examine_of_denied`  the step, the decay and the decision
* `denied_charged`     all denied tasks that are due at a poll -/

namespace RealTime

/-- A change of the debt on a core that exists. -/
theorem Record.debtOn_modifyDebt {r : Record} {core : Nat} (h : core < r.debts.length)
    (f : Nat → Nat) : (r.modifyDebt core f).debtOn core = f (r.debtOn core) := by
  simp only [debtOn, modifyDebt, List.getElem?_modify_eq, List.getElem?_eq_getElem h,
    Option.map_eq_map, Option.map_some, Option.getD_some]

/-- A task that is denied, and of which no new job has been seen. -/
theorem Finding.of_eq_denied {name : String} {r : Record} {s : Snapshot}
    (hnone : ∀ j ∈ s.jobs, j.task = name → ¬ (r.arrival ≤ j.arrival ∧ j.arrival < s.now))
    (h0 : r.arrival ≠ 0) (hdenied : r.allowed = false) : of name r s = denied := by
  have hnew : newJobs name r s = [] := by
    rw [List.eq_nil_iff_forall_not_mem]
    intro j hj
    obtain ⟨hmem, htask, hwindow⟩ := mem_newJobs.1 hj
    exact hnone j hmem htask hwindow
  simp [of, hnew, ofAbsence, h0, hdenied]

namespace Arbiter

variable {a : Arbiter} {name : String} {r : Record} {s : Snapshot}

/-- Charge a task for a job that was denied: one more debt on its core, and its release one period
later. -/
def bill (a : Arbiter) (name : String) : Arbiter :=
  a.modify name fun r =>
    { r.modifyDebt r.core Debt.raise with arrival := Clock.after r.arrival r.interArrival }

/-- Settle the debts of the group of a task, if it has one. -/
def decay (a : Arbiter) (name : String) : Arbiter :=
  if a.groupOf name = 0 then a else a.settle name

/-- The order in which release and debt are written does not matter. -/
theorem charge_of_moved (a : Arbiter) (name : String) :
    (a.modify name fun r => { r with arrival := Clock.after r.arrival r.interArrival }).charge name =
      ((a.bill name).decay name).arbitrate name := by
  rw [charge_eq, indebt, bill, decay, modify_modify]
  rfl

/-- What is billed. -/
theorem get?_bill (hcons : a.Consistent) (hr : a.tasks.get? name = some r) :
    ∃ r', (a.bill name).tasks.get? name = some r' ∧ r'.core = r.core ∧
      r'.debt = Debt.raise r.debt ∧ r'.arrival = Clock.after r.arrival r.interArrival := by
  have hcore : r.core < r.debts.length := by
    rw [hcons.length_debts hr]
    exact hcons.core_lt hr
  have hget : (a.bill name).tasks.get? name = some
      { r.modifyDebt r.core Debt.raise with arrival := Clock.after r.arrival r.interArrival } := by
    rw [bill, get?_modify, if_pos rfl, hr, Option.map_some]
  exact ⟨_, hget, rfl, Record.debtOn_modifyDebt hcore Debt.raise, rfl⟩

/-- Neither decay nor decisions move a release. -/
theorem agree_arrival_of_billed (a : Arbiter) (name : String) :
    Agree Record.arrival name a ((a.decay name).arbitrate name) := by
  have hdecay : Agree Record.arrival name a (a.decay name) := by
    unfold decay
    split
    · exact .refl a
    · exact agree_settle (fun _ _ => rfl) a name
  exact hdecay.trans (agree_arbitrate (fun _ _ => rfl) _ name)

/-- The examination of a task that is denied and has no new job. -/
theorem examine_of_denied (hr : a.tasks.get? name = some r) (hdenied : Finding.of name r s = .denied) :
    a.examine name s =
      ((((a.observeOthers name s).bill name).decay name).arbitrate name) := by
  rw [examine_of_some hr, hdenied, ← charge_of_moved]
  rfl

end Arbiter

namespace Examination

/-- The arbiter once the denied job is billed. -/
def billed (e : Examination) : Arbiter :=
  (e.arbiter.observeOthers e.task e.snapshot).bill e.task

/-- The task is charged for a denied job: its debt rises by one and its release moves on by one
period, then the debts of its group decay, and then it is decided about. -/
structure Charged (e : Examination) : Prop where
  billed : ∃ r, e.billed.tasks.get? e.task = some r ∧ r.core = e.record.core ∧
    r.debt = Debt.raise e.record.debt ∧
    r.arrival = Clock.after e.record.arrival e.record.interArrival
  after_eq : e.after = (e.billed.decay e.task).arbitrate e.task
  moved : ∃ r, e.after.tasks.get? e.task = some r ∧
    r.arrival = Clock.after e.record.arrival e.record.interArrival

/-- An examination that finds a denied task charges it. -/
theorem charged_of_denied {e : Examination} (hcons : e.arbiter.Consistent)
    (hr : e.arbiter.tasks.get? e.task = some e.record) (hdenied : e.finding = .denied) :
    e.Charged := by
  have hr' := (Arbiter.get?_observeOthers e.arbiter e.task e.snapshot).trans hr
  have hcons' := hcons.kept (Arbiter.kept_observeOthers e.arbiter e.task e.snapshot)
  have hbilled := Arbiter.get?_bill hcons' hr'
  have hafter : e.after = (e.billed.decay e.task).arbitrate e.task :=
    Arbiter.examine_of_denied hr hdenied
  refine ⟨hbilled, hafter, ?_⟩
  obtain ⟨r, hr, _, _, harrival⟩ := hbilled
  have hagree := Arbiter.agree_arrival_of_billed e.billed e.task
  obtain ⟨r', hr', heq⟩ := hagree.get?_of_get? hr
  exact ⟨r', hafter ▸ hr', heq.trans harrival⟩

end Examination

namespace Arbiter

/-- At every poll under an active goal, every due task has its turn.  If it is denied then, if a job
of it has been seen before and no new one has, it is charged. -/
theorem denied_charged {cores : Nat} {rs : List Request}
    (hactive : (run { cores } rs).config.goal.isActive = true) (s : Snapshot) :
    ((run { cores } rs).examinationsOf (.poll s)).map (·.task) =
      (run { cores } rs).dueTasks s.now ∧
    ∀ e ∈ (run { cores } rs).examinationsOf (.poll s), e.record.allowed = false →
      (∀ j ∈ s.jobs, j.task = e.task → ¬ (e.record.arrival ≤ j.arrival ∧ j.arrival < s.now)) →
      e.record.arrival ≠ 0 → e.Charged := by
  refine ⟨map_task_examinationsOf hactive, fun e he hdenied hnone h0 => ?_⟩
  have hmem : e ∈ (run { cores } rs).history [.poll s] := List.mem_append_left _ he
  have hs : e.snapshot = s := by
    rw [examinationsOf, if_pos hactive] at he
    exact (record_of_mem_examinations calm_supervised (fun _ _ => rfl) (OrderedMap.nodup_keys _) he).1
  have hfinding : e.finding = .denied := by
    rw [Examination.finding, hs]
    exact Finding.of_eq_denied hnone h0 hdenied
  exact Examination.charged_of_denied
    (invariant_consistent.of_mem_history (run_consistent cores rs) hmem)
    (get?_of_mem_history hmem) hfinding

/-! A denied task that waits for one more period, and one whose first job arrived at time 0. -/

/-- No job is seen. -/
def quiet : Snapshot := { now := 32000, jobs := [], terminated := [] }

/-- The turn of `b` at that poll. -/
def denial : Examination :=
  ((contested .fairness).examinationsOf (.poll quiet)).get ⟨1, by decide +kernel⟩

/-- Task `b` owes one more. -/
theorem denied_charged_contested :
    (contested .fairness).config.goal.isActive = true ∧
      denial ∈ (contested .fairness).examinationsOf (.poll quiet) ∧
      denial.task = "b" ∧ denial.record.allowed = false ∧ denial.record.arrival ≠ 0 ∧
      denial.record.debt = 1 ∧ denial.billed.debtOf "b" = 2 ∧ denial.Charged := by
  have hactive : (contested .fairness).config.goal.isActive = true := by decide +kernel
  have hmem : denial ∈ (contested .fairness).examinationsOf (.poll quiet) := List.get_mem _ _
  have hdenied : denial.record.allowed = false := by decide +kernel
  have h0 : denial.record.arrival ≠ 0 := by decide +kernel
  exact ⟨hactive, hmem, by decide +kernel, hdenied, h0, by decide +kernel, by decide +kernel,
    (denied_charged hactive quiet).2 denial hmem hdenied (fun _ hj => nomatch hj) h0⟩

/-- The job of `a` that is going to be late. -/
def lateJob : JobRecord :=
  { id := 1, task := "a", core := 0, arrival := 1000, exit := 0, execution := 0 }

/-- The first job of `b` arrives at time 0. -/
def beginning : List Request :=
  [.setGoal { goal := .fairness },
    .add 0 { name := "a", deadline := 10000, interArrival := 10000 },
    .add 0 { name := "b", deadline := 10000, interArrival := 10000 },
    .poll { now := 2000, terminated := [], jobs := [lateJob,
      { id := 2, task := "b", core := 0, arrival := 0, exit := 0, execution := 0 }] }]

/-- The job of `b` has been terminated, and has made the one of `a` late. -/
def uncovering : Snapshot := { now := 12000, jobs := [lateJob], terminated := [⟨2, 8000⟩] }

/-- The turn of `b`, which has just been denied. -/
def overlooked : Examination :=
  ((run { cores := 1 } beginning).examinationsOf (.poll uncovering)).get ⟨1, by decide +kernel⟩

/-- Release 0 is an exception indeed: `b` is denied, its job has been seen, and it is not charged. -/
theorem denied_without_charge :
    ¬ ∀ (cores : Nat) (rs : List Request) (s : Snapshot),
      (run { cores } rs).config.goal.isActive = true →
      ∀ e ∈ (run { cores } rs).examinationsOf (.poll s), e.record.allowed = false →
        (∀ j ∈ s.jobs, j.task = e.task → ¬ (e.record.arrival ≤ j.arrival ∧ j.arrival < s.now)) →
        e.Charged := by
  intro h
  have hcharged := h 1 beginning uncovering (by decide +kernel) overlooked (List.get_mem _ _)
    (by decide +kernel) (by decide +kernel)
  obtain ⟨r, hr, harrival⟩ := hcharged.moved
  have hstays : (overlooked.after.tasks.get? overlooked.task).map Record.arrival = some 0 := by
    decide +kernel
  have hnext : Clock.after overlooked.record.arrival overlooked.record.interArrival = 10000 := by
    decide +kernel
  rw [hr, Option.map_some, harrival, hnext] at hstays
  cases hstays

end Arbiter

end RealTime
