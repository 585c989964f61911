import RealTime.Proofs.Arbiter.Examinations

/-! # The order of monitoring data

A poll walks over the records of jobs and over the list of terminated jobs again and again: it looks
for the new jobs of a task, for the newest job of every other task, for the cause of a missed
deadline and for the end of a terminated job.  Where two records are alike in what such a walk
compares, the one that comes first may decide.  Where no two are, the order of the records does not
show in anything that a poll does.

* `Finding.of_reordered`        what the examination of a task finds
* `observeOthers_of_reordered`  the newest jobs of the other tasks
* `cause?_of_reordered`         the cause of a missed deadline
* `poll_of_reordered`           the answer to a poll, and all that it leaves -/

namespace RealTime

namespace Snapshot

/-- No two records are alike in what a poll compares: two jobs of one task in their arrivals, two
jobs in the times at which they ended, two terminated jobs in their numbers or in the times at which
they ended.  A time of 0 is none.  Recorded jobs have numbers other than 0, which stands for no job
seen. -/
structure Distinct (s : Snapshot) : Prop where
  id_ne_zero : ∀ j ∈ s.jobs, j.id ≠ 0
  arrival : ∀ i ∈ s.jobs, ∀ j ∈ s.jobs, i.task = j.task → i.arrival = j.arrival → i = j
  exit : ∀ i ∈ s.jobs, ∀ j ∈ s.jobs, i.exit ≠ 0 → i.exit = j.exit → i = j
  terminated_id : ∀ d ∈ s.terminated, ∀ e ∈ s.terminated, d.id = e.id → d = e
  terminated_exit : ∀ d ∈ s.terminated, ∀ e ∈ s.terminated, d.exit ≠ 0 → d.exit = e.exit → d = e

/-- The same records at the same instant, in another order. -/
structure Reordered (s t : Snapshot) : Prop where
  now : t.now = s.now
  jobs : s.jobs.Perm t.jobs
  terminated : s.terminated.Perm t.terminated

end Snapshot

variable {s t : Snapshot}

/-! ### New jobs -/

namespace Finding

/-- The new jobs of a task, the one that arrived last first. -/
theorem newJobs_sorted_of_reordered (h : s.Reordered t) (hs : s.Distinct) (name : String)
    (r : Record) :
    (newJobs name r t).mergeSort (fun i j => j.arrival ≤ i.arrival) =
      (newJobs name r s).mergeSort (fun i j => j.arrival ≤ i.arrival) := by
  have hperm : (newJobs name r s).Perm (newJobs name r t) := by
    rw [newJobs, newJobs, h.now]
    exact h.jobs.filter _
  have hmem {j : JobRecord} (hj : j ∈ (newJobs name r s).mergeSort fun i j =>
      j.arrival ≤ i.arrival) : j ∈ s.jobs ∧ j.task = name := by
    obtain ⟨hj, htask, -⟩ := mem_newJobs.1 ((List.mergeSort_perm _ _).subset hj)
    exact ⟨hj, htask⟩
  have hsort := ((List.mergeSort_perm (newJobs name r t) fun i j =>
    decide (j.arrival ≤ i.arrival)).trans hperm.symm).trans
    (List.mergeSort_perm (newJobs name r s) fun i j => decide (j.arrival ≤ i.arrival)).symm
  refine hsort.eq_of_pairwise (fun i j hi hj hij hji => ?_) (pairwise_mergeSort_arrival _)
    (pairwise_mergeSort_arrival _)
  -- jobs of one task that arrived together are one
  obtain ⟨hi, hitask⟩ := hmem (hsort.subset hi)
  obtain ⟨hj, hjtask⟩ := hmem hj
  exact hs.arrival i hi j hj (hitask.trans hjtask.symm) (Nat.le_antisymm hji hij)

/-- The end of a terminated job is looked up by its number. -/
theorem find?_terminated_of_reordered (h : s.Reordered t) (hs : s.Distinct) (id : Nat) :
    t.terminated.find? (·.id == id) = s.terminated.find? (·.id == id) := by
  cases hd : s.terminated.find? (·.id == id) with
  | none =>
    rw [List.find?_eq_none] at hd ⊢
    exact fun d hmem => hd d (h.terminated.mem_iff.2 hmem)
  | some d =>
    have hmem := List.mem_of_find?_eq_some hd
    have hid := List.find?_some hd
    cases he : t.terminated.find? (·.id == id) with
    | none => exact absurd hid (List.find?_eq_none.1 he d (h.terminated.mem_iff.1 hmem))
    | some e =>
      have hmem' := h.terminated.mem_iff.2 (List.mem_of_find?_eq_some he)
      have hid' := List.find?_some he
      rw [beq_iff_eq] at hid hid'
      rw [hs.terminated_id e hmem' d hmem (hid'.trans hid.symm)]

/-- What the examination of a task finds. -/
theorem of_reordered (h : s.Reordered t) (hs : s.Distinct) (name : String) (r : Record) :
    of name r t = of name r s := by
  have habsence : ofAbsence r t = ofAbsence r s := by
    simp only [ofAbsence, find?_terminated_of_reordered h hs]
  simp only [of, newJobs_sorted_of_reordered h hs, habsence, h.now]

end Finding

namespace Arbiter

variable (a : Arbiter) (name : String)

/-! ### Newest jobs -/

private theorem modify_comm {name other : String} (hne : name ≠ other) (f g : Record → Record) :
    (a.modify name f).modify other g = (a.modify other g).modify name f := by
  simp only [modify, OrderedMap.modify, OrderedMap.mapValues, List.map_map, mk.injEq, and_true,
    true_and, OrderedMap.mk.injEq]
  refine List.map_congr_left fun e _ => ?_
  simp only [Function.comp_apply]
  grind

/-- Of two jobs that did not arrive together the newer one stays, whichever comes first. -/
private theorem observe_observe_comm {i j : JobRecord} (hi : i.id ≠ 0) (hj : j.id ≠ 0)
    (hne : i.arrival ≠ j.arrival) (r : Record) :
    (r.observe i).observe j = (r.observe j).observe i := by
  simp only [Record.observe]
  grind

/-- Two jobs may be noted in either order. -/
theorem observe_comm (hs : s.Distinct) {i j : JobRecord} (hi : i ∈ s.jobs) (hj : j ∈ s.jobs) :
    (a.observe i).observe j = (a.observe j).observe i := by
  by_cases htask : i.task = j.task
  · by_cases harrival : i.arrival = j.arrival
    · rw [hs.arrival i hi j hj htask harrival]
    · simp only [observe, htask, modify_modify]
      congr 1
      funext r
      exact observe_observe_comm (hs.id_ne_zero i hi) (hs.id_ne_zero j hj) harrival r
  · exact a.modify_comm htask _ _

theorem observeOthers_of_reordered (h : s.Reordered t) (hs : s.Distinct) :
    a.observeOthers name t = a.observeOthers name s := by
  refine (h.jobs.foldl_eq' (fun i hi j hj b => ?_) a).symm
  by_cases hiname : i.task = name
  · simp only [hiname, if_true]
  · by_cases hjname : j.task = name
    · simp only [hjname, if_true]
    · simp only [hiname, hjname, if_false, b.observe_comm hs hi hj]

/-! ### Causes -/

/-- Two candidates may be looked at in either order, unless two tasks ended at the same time. -/
private theorem laterExit_comm {x y : Nat} {u v : String} (h : x = y → u = v)
    (best : Option (Nat × String)) :
    laterExit (laterExit best x u) y v = laterExit (laterExit best y v) x u := by
  cases best <;> simp only [laterExit] <;> grind

/-- Both walks over the monitoring data come to the same candidate. -/
theorem cause?_of_reordered (h : s.Reordered t) (hs : s.Distinct) (released : Nat) :
    a.cause? name released t = a.cause? name released s := by
  simp only [cause?]
  split
  · rfl
  · rename_i r _
    refine congrArg (Option.map _) (Eq.symm ?_)
    refine (h.terminated.foldl_eq' (fun d hd e he best => ?terminated) _).trans
      (congrArg (List.foldl _ · t.terminated) (h.jobs.foldl_eq' (fun i hi j hj best => ?recorded) _))
    case recorded =>
      by_cases h0 : i.exit = 0
      · simp [h0]
      · have howner : i.exit = j.exit → i.task = j.task :=
          fun heq => congrArg JobRecord.task (hs.exit i hi j hj h0 heq)
        have hcomm := laterExit_comm howner best
        grind
    case terminated =>
      by_cases h0 : d.exit = 0
      · simp [h0]
      · have howner : d.exit = e.exit → a.ownerOf? name d.id = a.ownerOf? name e.id :=
          fun heq => congrArg (fun d => a.ownerOf? name d.id) (hs.terminated_exit d hd e he h0 heq)
        cases hu : a.ownerOf? name d.id with
        | none => simp
        | some u =>
          cases hv : a.ownerOf? name e.id with
          | none => simp
          | some v =>
            have huv : d.exit = e.exit → u = v :=
              fun heq => Option.some.inj (by rw [← hu, howner heq, hv])
            have hcomm := laterExit_comm huv best
            grind

/-! ### Examinations -/

theorem miss_of_reordered (h : s.Reordered t) (hs : s.Distinct) (released : Nat) :
    a.miss name released t = a.miss name released s := by
  simp only [miss, a.cause?_of_reordered name h hs]

theorem judge_of_reordered (h : s.Reordered t) (hs : s.Distinct) (job : JobRecord) :
    a.judge name job t = a.judge name job s := by
  simp only [judge, miss_of_reordered _ name h hs]

theorem conclusions_of_reordered (h : s.Reordered t) (hs : s.Distinct) (r : Record)
    (finding : Finding) : a.conclusions name r t finding = a.conclusions name r s finding := by
  cases finding <;> simp only [conclusions, judge_of_reordered _ name h hs,
    miss_of_reordered _ name h hs]

theorem examine_of_reordered (h : s.Reordered t) (hs : s.Distinct) :
    a.examine name t = a.examine name s := by
  simp only [examine, Finding.of_reordered h hs, a.observeOthers_of_reordered name h hs,
    conclusions_of_reordered _ name h hs]

/-- A poll answers and does the same for the same records in another order. -/
theorem poll_of_reordered (h : s.Reordered t) (hs : s.Distinct) : a.poll t = a.poll s := by
  simp only [poll, h.now, examine_of_reordered _ _ h hs]

/-! A deadline that three other jobs could have made a task miss. -/

/-- `a` waits for `b` and `c`, whose jobs are running. -/
def waiting : Arbiter := run { cores := 1 }
  [.setGoal { goal := .fairness },
    .add 0 { name := "a", deadline := 10000, interArrival := 10000 },
    .add 0 { name := "b", deadline := 50000, interArrival := 50000 },
    .add 0 { name := "c", deadline := 50000, interArrival := 50000 },
    .poll { now := 2000, terminated := []
            jobs := [{ id := 1, task := "a", core := 0, arrival := 1000, exit := 0, execution := 0 },
              { id := 2, task := "b", core := 0, arrival := 500, exit := 0, execution := 0 },
              { id := 3, task := "c", core := 0, arrival := 600, exit := 0, execution := 0 }] }]

/-- The job of `a` is late.  `b` has ended two jobs by then, and the job of `c` was terminated after
both. -/
def lateness : Snapshot where
  now := 12000
  jobs := [{ id := 1, task := "a", core := 0, arrival := 1000, exit := 0, execution := 0 },
    { id := 2, task := "b", core := 0, arrival := 500, exit := 5000, execution := 4000 },
    { id := 4, task := "b", core := 0, arrival := 5500, exit := 6000, execution := 500 }]
  terminated := [⟨7, 8000⟩, ⟨3, 7000⟩, ⟨8, 0⟩]

/-- The same records, the last one first. -/
def latenessReversed : Snapshot where
  now := lateness.now
  jobs := lateness.jobs.reverse
  terminated := lateness.terminated.reverse

theorem poll_latenessReversed :
    lateness.Reordered latenessReversed ∧ lateness.Distinct ∧
      waiting.poll latenessReversed = waiting.poll lateness ∧
      ((waiting.poll latenessReversed).2.tasks.get? "a").map (·.competitors.elems) = some ["c"] := by
  have hreordered : lateness.Reordered latenessReversed :=
    ⟨rfl, (List.reverse_perm _).symm, (List.reverse_perm _).symm⟩
  have hdistinct : lateness.Distinct := by
    constructor <;> decide +kernel
  exact ⟨hreordered, hdistinct, waiting.poll_of_reordered hreordered hdistinct, by decide +kernel⟩

end Arbiter

end RealTime
