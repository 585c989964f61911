import RealTime.Proofs.Arbiter.Examinations

/-! # Jobs that count as late

A job that did not end within the deadline of its task has missed it once the deadline has
passed.  An examination compares the clock with the deadline of the job that arrived last only.
The job before that one is judged in any case, so it counts as late before its deadline if the
next job of the task has been released by then.

* `late_eq`                     the late jobs are the judged ones that did not keep the deadline
* `deadline_passed_or_overtaken`  a late job has passed its deadline or has been overtaken
* `deadline_passed_of_spaced`   jobs that are far enough apart are not overtaken -/

namespace RealTime

namespace Arbiter

/-- The jobs for which the procedure of a missed deadline runs when some jobs are judged, one
after the other. -/
def missed (a : Arbiter) (name : String) (s : Snapshot) : List JobRecord → List JobRecord
  | [] => []
  | job :: jobs =>
    let rest := (a.judge name job s).missed name s jobs
    match (a.modify name (·.follow job.core a.cores)).tasks.get? name with
    | none => rest
    | some r => if job.metDeadline r.deadline then rest else job :: rest

end Arbiter

namespace Examination

/-- The arbiter when the first job is judged. -/
def start (e : Examination) : Arbiter :=
  let a := e.arbiter.observeOthers e.task e.snapshot
  match e.finding with
  | .overtaken _ latest => a.modify e.task (·.observe latest)
  | _ => a

/-- The recorded jobs for which the procedure of a missed deadline runs. -/
def late (e : Examination) : List JobRecord :=
  e.start.missed e.task e.snapshot e.finding.judged

end Examination

namespace Arbiter

variable {a : Arbiter} {name : String} {r : Record} {s : Snapshot} {e : Examination}
  {j : JobRecord}

/-! ### The deadline of a task -/

private theorem calm_deadline : Calm Record.deadline :=
  ⟨fun _ _ => rfl, fun _ _ => rfl, fun _ _ => rfl, fun _ _ => rfl⟩

private theorem deadline_observe (r : Record) (job : JobRecord) :
    (r.observe job).deadline = r.deadline := by
  unfold Record.observe
  split <;> rfl

/-- A job is judged by the deadline that its task had at first. -/
theorem missed_eq (hr : a.tasks.get? name = some r) (s : Snapshot) (jobs : List JobRecord) :
    a.missed name s jobs = jobs.filter fun j => !j.metDeadline r.deadline := by
  induction jobs generalizing a r with
  | nil => rfl
  | cons job jobs ih =>
    have hjudge : Agree Record.deadline name a (a.judge name job s) :=
      agree_judge calm_deadline (fun _ _ _ => rfl) (agree_follow (fun _ _ _ => rfl) a job.core) s
    obtain ⟨r', hr', hd⟩ := hjudge.get?_of_get? hr
    have hrest := ih hr'
    rw [hd] at hrest
    have hfollow : (r.follow job.core a.cores).deadline = r.deadline :=
      (r.kept_follow job.core).deadline
    rw [missed, get?_modify, if_pos rfl, hr, Option.map_some]
    simp only [hfollow, hrest]
    cases hmet : job.metDeadline r.deadline with
    | true => rw [if_pos rfl, List.filter_cons_of_neg (by simp [hmet])]
    | false => rw [if_neg (by simp), List.filter_cons_of_pos (by simp [hmet])]

/-- The late jobs of an examination are the judged ones that did not end within the deadline of
the record that is examined. -/
theorem late_eq (he : e.arbiter.tasks.get? e.task = some e.record) :
    e.late = e.finding.judged.filter fun j => !j.metDeadline e.record.deadline := by
  have hstart : Agree Record.deadline e.task e.arbiter e.start := by
    have hothers := agree_observeOthers (f := Record.deadline) e.arbiter e.task e.snapshot
    unfold Examination.start
    split
    · exact hothers.trans (agree_modify fun _ r _ => deadline_observe r _)
    · exact hothers
  obtain ⟨r, hr, hd⟩ := hstart.get?_of_get? he
  rw [Examination.late, missed_eq hr, hd]

/-- A late job has been judged. -/
theorem mem_judged_of_late (he : e.arbiter.tasks.get? e.task = some e.record) (hj : j ∈ e.late) :
    j ∈ e.finding.judged := by
  rw [late_eq he] at hj
  exact (List.mem_filter.1 hj).1

/-! ### When a job is judged -/

/-- When the procedure of a missed deadline runs for a recorded job, the deadline of that job has
passed, or another job of the task was released meanwhile. -/
theorem deadline_passed_or_overtaken {rs : List Request} (he : e ∈ a.history rs) (hj : j ∈ e.late) :
    Clock.after j.arrival e.record.deadline ≤ e.snapshot.now ∨
      ∃ k ∈ (Finding.newJobs e.task e.record e.snapshot).erase j,
        j.arrival ≤ k.arrival ∧ k.arrival < e.snapshot.now := by
  have hjudged := mem_judged_of_late (get?_of_mem_history he) hj
  refine (Finding.judged_spec hjudged).2.imp_right ?_
  rintro ⟨k, hk, hle⟩
  have hnow := (Finding.mem_newJobs.1 (List.mem_of_mem_erase hk)).2.2.2
  exact ⟨k, hk, hle, hnow⟩

/-! Two jobs of one task, the second released 10 ms after the first and 10 ms before the deadline
of the first. -/

/-- The job that has been overtaken. -/
def firstJob : JobRecord :=
  { id := 1, task := "t", core := 0, arrival := 1000, exit := 0, execution := 0 }

/-- The job that has overtaken it. -/
def secondJob : JobRecord := { firstJob with id := 2, arrival := 11000 }

/-- A poll right after the second release. -/
def overlapping : List Request :=
  [.setGoal { goal := .fairness },
    .add 0 { name := "t", deadline := 20000, interArrival := 10000 },
    .poll { now := 12000, jobs := [firstJob, secondJob], terminated := [] }]

/-- The only examination of that poll. -/
def overlap : Examination := (history { cores := 1 } overlapping).get ⟨0, by decide +kernel⟩

private theorem finding_overlap : overlap.finding = .overtaken firstJob secondJob :=
  Finding.of_pair (by decide +kernel) (by decide) (by decide +kernel)

private theorem firstJob_mem_late : firstJob ∈ overlap.late := by
  rw [Examination.late, Examination.start, finding_overlap]
  decide +kernel

/-- The first job counts as late because it has been overtaken. -/
theorem overtaken_firstJob :
    overlap ∈ history { cores := 1 } overlapping ∧ firstJob ∈ overlap.late ∧
      (Clock.after firstJob.arrival overlap.record.deadline ≤ overlap.snapshot.now ∨
        ∃ k ∈ (Finding.newJobs overlap.task overlap.record overlap.snapshot).erase firstJob,
          firstJob.arrival ≤ k.arrival ∧ k.arrival < overlap.snapshot.now) :=
  ⟨List.get_mem _ _, firstJob_mem_late,
    deadline_passed_or_overtaken (List.get_mem _ _) firstJob_mem_late⟩

/-- The procedure of a missed deadline does run before the deadline. -/
theorem late_before_deadline :
    ¬ ∀ (cores : Nat) (rs : List Request), ∀ e ∈ history { cores } rs, ∀ j ∈ e.late,
      Clock.after j.arrival e.record.deadline ≤ e.snapshot.now := by
  intro h
  have hpassed := h 1 overlapping overlap (List.get_mem _ _) firstJob firstJob_mem_late
  revert hpassed
  decide +kernel

/-- No job counts as late before its deadline if the jobs of the task are at least a deadline
apart. -/
theorem deadline_passed_of_spaced {rs : List Request} (he : e ∈ a.history rs)
    (hspaced : (Finding.newJobs e.task e.record e.snapshot).Pairwise fun i k =>
      Clock.after i.arrival e.record.deadline ≤ k.arrival ∨
        Clock.after k.arrival e.record.deadline ≤ i.arrival)
    (hj : j ∈ e.late) : Clock.after j.arrival e.record.deadline ≤ e.snapshot.now := by
  have hjudged := mem_judged_of_late (get?_of_mem_history he) hj
  obtain ⟨hnew, hpassed | ⟨k, hk, hle⟩⟩ := Finding.judged_spec hjudged
  · exact hpassed
  · have hnow := (Finding.mem_newJobs.1 (List.mem_of_mem_erase hk)).2.2.2
    have hperm := List.perm_cons_erase hnew
    have hapart := (hperm.pairwise_iff fun h => h.symm).1 hspaced
    rcases (List.pairwise_cons.1 hapart).1 k hk with h | h
    · omega
    · -- the other way round only jobs without a deadline that arrive together are that far apart
      have hk := Clock.le_after k.arrival e.record.deadline
      have heq : k.arrival = j.arrival := by omega
      rw [heq] at h hnow
      omega

end Arbiter

end RealTime
