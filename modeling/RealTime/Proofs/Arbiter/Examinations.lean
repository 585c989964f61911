import RealTime.Proofs.Arbiter.Agree

/-! # The examinations of a history

A poll is a sequence of examinations.  `Arbiter.history` lists all examinations that a history of
requests brings about, each with the arbiter that makes it, so that what is said of every
examination can be said of every history.

What an examination finds follows from the record of the task and the monitoring data alone.
`Finding.Sees` tells, for each finding, all that has been seen.

* `poll_eq`       a poll is its examinations, one after the other
* `history_rec`   what examinations and all other requests keep
* `agree_examine` what the examination of another task leaves alone
* `view_perform`  what requests leave alone that examine nothing
* `sees_of`       what has been seen when something is found
* `judged_spec`   which jobs are judged -/

namespace RealTime

/-- An examination: the arbiter right before it, and the task with its record. -/
structure Examination where
  arbiter : Arbiter
  task : String
  record : Record
  snapshot : Snapshot

namespace Examination

/-- What is found. -/
def finding (e : Examination) : Finding := .of e.task e.record e.snapshot

/-- The arbiter right afterwards. -/
def after (e : Examination) : Arbiter := e.arbiter.examine e.task e.snapshot

end Examination

/-! ### What is seen -/

namespace Finding

variable {name : String} {r : Record} {s : Snapshot}

theorem mem_newJobs {j : JobRecord} :
    j ∈ newJobs name r s ↔
      j ∈ s.jobs ∧ j.task = name ∧ r.arrival ≤ j.arrival ∧ j.arrival < s.now := by
  simp only [newJobs, List.mem_filter, Bool.and_eq_true, decide_eq_true_eq, and_assoc]

/-- Two of some jobs arrived last, one of them no earlier than the other. -/
structure LastTwo (jobs : List JobRecord) (earlier latest : JobRecord) : Prop where
  perm : ∃ rest, (latest :: earlier :: rest).Perm jobs
  arrival_le : earlier.arrival ≤ latest.arrival

namespace LastTwo

variable {jobs : List JobRecord} {earlier latest : JobRecord}

theorem mem_latest (h : LastTwo jobs earlier latest) : latest ∈ jobs := by
  obtain ⟨rest, hperm⟩ := h.perm
  exact hperm.subset List.mem_cons_self

theorem mem_earlier (h : LastTwo jobs earlier latest) : earlier ∈ jobs := by
  obtain ⟨rest, hperm⟩ := h.perm
  exact hperm.subset (List.mem_cons_of_mem _ List.mem_cons_self)

/-- The latest job has a place of its own, even if the other one has the same data. -/
theorem latest_mem_erase (h : LastTwo jobs earlier latest) : latest ∈ jobs.erase earlier := by
  obtain ⟨rest, hperm⟩ := h.perm
  refine (hperm.erase earlier).subset ?_
  by_cases heq : latest = earlier
  · rw [heq, List.erase_cons_head]
    exact List.mem_cons_self
  · rw [List.erase_cons_tail (by simpa using heq)]
    exact List.mem_cons_self

/-- Jobs that are told apart by a number have different numbers. -/
theorem id_ne (h : LastTwo jobs earlier latest) (hids : (jobs.map (·.id)).Nodup) :
    latest.id ≠ earlier.id := by
  obtain ⟨rest, hperm⟩ := h.perm
  have hnodup := (hperm.map (·.id)).nodup_iff.2 hids
  rw [List.map_cons, List.map_cons, List.nodup_cons] at hnodup
  exact fun heq => hnodup.1 (heq ▸ List.mem_cons_self)

end LastTwo

/-- There is no new job of a task of which one has been seen before and which is permitted. -/
structure Awaits (name : String) (r : Record) (s : Snapshot) : Prop where
  newJobs_eq : newJobs name r s = []
  arrival_ne : r.arrival ≠ 0
  allowed : r.allowed = true

/-- All that has been seen when something is found. -/
inductive Sees (name : String) (r : Record) (s : Snapshot) : Finding → Prop
  | unseen (hnew : newJobs name r s = []) (h0 : r.arrival = 0) : Sees name r s unseen
  | denied (hnew : newJobs name r s = []) (h0 : r.arrival ≠ 0) (hdenied : r.allowed = false) :
      Sees name r s denied
  | finished (h : Awaits name r s) (hhandled : r.newest.handled = true)
      (hlast : r.lastJobStarted = true) : Sees name r s finished
  | missing (h : Awaits name r s) (hhandled : r.newest.handled = true)
      (hlast : r.lastJobStarted = false) : Sees name r s missing
  | outdated (h : Awaits name r s) (hhandled : r.newest.handled = false)
      (hlt : r.newest.arrival < r.arrival) : Sees name r s outdated
  | vanished (h : Awaits name r s) (hhandled : r.newest.handled = false)
      (hle : r.arrival ≤ r.newest.arrival)
      (hnone : s.terminated.find? (·.id == r.newest.id) = none) : Sees name r s vanished
  | killed {t : Termination} (h : Awaits name r s) (hhandled : r.newest.handled = false)
      (hle : r.arrival ≤ r.newest.arrival)
      (hfind : s.terminated.find? (·.id == r.newest.id) = some t)
      (hexit : t.exit < Clock.after r.newest.arrival r.deadline) : Sees name r s killed
  | terminatedLate {t : Termination} (h : Awaits name r s) (hhandled : r.newest.handled = false)
      (hle : r.arrival ≤ r.newest.arrival)
      (hfind : s.terminated.find? (·.id == r.newest.id) = some t)
      (hexit : Clock.after r.newest.arrival r.deadline ≤ t.exit) : Sees name r s terminatedLate
  | running {j : JobRecord} (hnew : newJobs name r s = [j]) (hahead : s.now < Clock.after j.arrival r.deadline) :
      Sees name r s (running j)
  | due {j : JobRecord} (hnew : newJobs name r s = [j]) (hpassed : Clock.after j.arrival r.deadline ≤ s.now) :
      Sees name r s (due j)
  | overtaken {earlier latest : JobRecord} (hnew : LastTwo (newJobs name r s) earlier latest)
      (hahead : s.now < Clock.after latest.arrival r.deadline) :
      Sees name r s (overtaken earlier latest)
  | bothDue {earlier latest : JobRecord} (hnew : LastTwo (newJobs name r s) earlier latest)
      (hpassed : Clock.after latest.arrival r.deadline ≤ s.now) :
      Sees name r s (bothDue earlier latest)

private theorem sees_ofAbsence (hnew : newJobs name r s = []) : Sees name r s (ofAbsence r s) := by
  unfold ofAbsence
  split
  · exact .unseen hnew ‹_›
  · rename_i h0
    cases hallowed : r.allowed with
    | false => exact .denied hnew h0 hallowed
    | true =>
      have hawaits : Awaits name r s := ⟨hnew, h0, hallowed⟩
      simp only [Bool.not_true, Bool.false_eq_true, if_false]
      cases hhandled : r.newest.handled with
      | true =>
        cases hlast : r.lastJobStarted with
        | true => exact .finished hawaits hhandled hlast
        | false => exact .missing hawaits hhandled hlast
      | false =>
        simp only [Bool.false_eq_true, if_false]
        split
        · exact .outdated hawaits hhandled ‹_›
        · rename_i hnlt
          have hle := Nat.le_of_not_lt hnlt
          -- the newest job has arrived in time, so its end is looked up
          split
          · exact .vanished hawaits hhandled hle ‹_›
          · split
            · exact .terminatedLate hawaits hhandled hle ‹_› ‹_›
            · exact .killed hawaits hhandled hle ‹_› (Nat.lt_of_not_le ‹_›)

/-- Jobs are sorted with the latest first. -/
theorem pairwise_mergeSort_arrival (jobs : List JobRecord) :
    (jobs.mergeSort fun i j => j.arrival ≤ i.arrival).Pairwise fun i j => j.arrival ≤ i.arrival :=
  (List.pairwise_mergeSort
    (fun i j k hij hjk => by simp only [decide_eq_true_eq] at *; omega)
    (fun i j => by simp only [Bool.or_eq_true, decide_eq_true_eq]; omega) jobs).imp
      of_decide_eq_true

/-- The two jobs in front, once some jobs are sorted with the latest first. -/
private theorem lastTwo_of_mergeSort {jobs rest : List JobRecord} {earlier latest : JobRecord}
    (h : jobs.mergeSort (fun i j => j.arrival ≤ i.arrival) = latest :: earlier :: rest) :
    LastTwo jobs earlier latest := by
  refine ⟨⟨rest, h ▸ List.mergeSort_perm jobs _⟩, ?_⟩
  have hsorted := pairwise_mergeSort_arrival jobs
  rw [h] at hsorted
  exact (List.pairwise_cons.1 hsorted).1 earlier List.mem_cons_self

/-- Whatever is found has been seen. -/
theorem sees_of (name : String) (r : Record) (s : Snapshot) : Sees name r s (of name r s) := by
  simp only [of]
  have hperm := List.mergeSort_perm (newJobs name r s) (fun i j => j.arrival ≤ i.arrival)
  split
  · rename_i hsort
    rw [hsort] at hperm
    exact sees_ofAbsence hperm.symm.eq_nil
  · rename_i job hsort
    rw [hsort] at hperm
    have hnew := List.perm_singleton.1 hperm.symm
    split
    · exact .due hnew (of_decide_eq_true ‹_›)
    · rename_i hdue
      exact .running hnew (Nat.lt_of_not_le fun hle => hdue (decide_eq_true hle))
  · rename_i latest earlier rest hsort
    have htwo := lastTwo_of_mergeSort hsort
    split
    · exact .bothDue htwo (of_decide_eq_true ‹_›)
    · rename_i hdue
      exact .overtaken htwo (Nat.lt_of_not_le fun hle => hdue (decide_eq_true hle))

/-- Two new jobs that arrived one after the other, the deadline of the second one ahead. -/
theorem of_pair {i j : JobRecord} (hnew : newJobs name r s = [i, j]) (hlt : i.arrival < j.arrival)
    (hahead : s.now < Clock.after j.arrival r.deadline) : of name r s = overtaken i j := by
  have hsort : [i, j].mergeSort (fun i j => j.arrival ≤ i.arrival) = [j, i] := by
    simp [List.mergeSort, hlt]
  simp only [of, hnew, hsort, decide_eq_true_eq, if_neg (Nat.not_le.2 hahead)]

/-- A judged job is a new one.  Its deadline has passed, unless another new job arrived no earlier
than that one did. -/
theorem judged_spec {j : JobRecord} (hj : j ∈ (of name r s).judged) :
    j ∈ newJobs name r s ∧
      (Clock.after j.arrival r.deadline ≤ s.now ∨
        ∃ k ∈ (newJobs name r s).erase j, j.arrival ≤ k.arrival) := by
  have hsees := sees_of name r s
  cases hfinding : of name r s with
  | due job =>
    rw [hfinding] at hj hsees
    cases hsees with
    | due hnew hpassed =>
      have heq := List.mem_singleton.1 hj
      rw [hnew, heq]
      exact ⟨List.mem_cons_self, .inl hpassed⟩
  | overtaken earlier latest =>
    rw [hfinding] at hj hsees
    cases hsees with
    | overtaken htwo hahead =>
      rw [List.mem_singleton.1 hj]
      exact ⟨htwo.mem_earlier, .inr ⟨latest, htwo.latest_mem_erase, htwo.arrival_le⟩⟩
  | bothDue earlier latest =>
    rw [hfinding] at hj hsees
    cases hsees with
    | bothDue htwo hpassed =>
      rcases List.mem_cons.1 hj with rfl | hj
      · -- the deadline of the latest has passed, so that of the one before has
        have hle := Clock.after_le_after htwo.arrival_le (Nat.le_refl r.deadline)
        exact ⟨htwo.mem_earlier, .inl (Nat.le_trans hle hpassed)⟩
      · rw [List.mem_singleton.1 hj]
        exact ⟨htwo.mem_latest, .inl hpassed⟩
  | _ =>
    rw [hfinding] at hj
    cases hj

end Finding

/-! ### Histories -/

namespace Arbiter

variable {a : Arbiter} {name : String} {r : Record} {s : Snapshot}

/-- Examine some tasks, one after the other. -/
def examineAll (a : Arbiter) (s : Snapshot) (names : List String) : Arbiter :=
  names.foldl (fun a name => a.examine name s) a

/-- The examinations of some tasks, one after the other.  A task that is not supervised when its
turn comes is passed over. -/
def examinations (a : Arbiter) (s : Snapshot) : List String → List Examination
  | [] => []
  | name :: names =>
    match a.tasks.get? name with
    | none => a.examinations s names
    | some r => ⟨a, name, r, s⟩ :: (a.examine name s).examinations s names

/-- The examinations that a request brings about. -/
def examinationsOf (a : Arbiter) : Request → List Examination
  | .poll s => if a.config.goal.isActive then a.examinations s (a.dueTasks s.now) else []
  | _ => []

/-- The examinations that some requests bring about, one after the other. -/
def history (a : Arbiter) : List Request → List Examination
  | [] => []
  | q :: qs => a.examinationsOf q ++ (a.perform q).2.history qs

theorem examine_of_none (h : a.tasks.get? name = none) (s : Snapshot) : a.examine name s = a := by
  simp only [examine, h]

theorem examine_of_some (h : a.tasks.get? name = some r) (s : Snapshot) :
    a.examine name s = (a.observeOthers name s).conclusions name r s (.of name r s) := by
  simp only [examine, h]

/-- A poll examines the tasks that are due, and answers how many examinations there were. -/
theorem poll_eq (a : Arbiter) (s : Snapshot) :
    a.poll s =
      if a.config.goal.isActive then
        ((a.examinations s (a.dueTasks s.now)).length, a.examineAll s (a.dueTasks s.now))
      else (0, a) := by
  have hfold : ∀ (names : List String) (n : Nat) (a : Arbiter),
      names.foldl (fun (na : Nat × Arbiter) name =>
        if na.2.tasks.contains name then (na.1 + 1, na.2.examine name s) else na) (n, a) =
      (n + (a.examinations s names).length, a.examineAll s names) := by
    intro names
    induction names with
    | nil => exact fun n a => rfl
    | cons name names ih =>
      intro n a
      rw [List.foldl_cons, examineAll, List.foldl_cons, ← examineAll, examinations]
      cases hr : a.tasks.get? name with
      | none =>
        have hout : a.tasks.contains name = false := OrderedMap.contains_eq_false_iff.2 hr
        simp only [hout, Bool.false_eq_true, if_false, examine_of_none hr]
        exact ih n a
      | some r =>
        have hin : a.tasks.contains name = true := OrderedMap.contains_iff.2 ⟨r, hr⟩
        simp only [hin, if_true, List.length_cons]
        rw [ih, Nat.add_assoc, Nat.add_comm 1]
  unfold poll
  split
  · have hpoll := hfold (a.dueTasks s.now) 0 a
    rw [Nat.zero_add] at hpoll
    exact hpoll
  · rfl

/-- What every examination keeps holds after a sequence of them.  It may speak of the
examinations so far. -/
theorem examineAll_rec {motive : List Examination → Arbiter → Prop} {s : Snapshot}
    (hstep : ∀ {es : List Examination} {a : Arbiter} {name : String} {r : Record},
      a.tasks.get? name = some r → motive es a → motive (es ++ [⟨a, name, r, s⟩]) (a.examine name s))
    {es : List Examination} (h : motive es a) (names : List String) :
    motive (es ++ a.examinations s names) (a.examineAll s names) := by
  -- each examination adds to those before it, so these are generalized
  induction names generalizing es a with
  | nil =>
    rw [examinations, List.append_nil]
    exact h
  | cons name names ih =>
    rw [examineAll, List.foldl_cons, ← examineAll, examinations]
    cases hr : a.tasks.get? name with
    | none =>
      rw [examine_of_none hr]
      exact ih h
    | some r =>
      have hnext := ih (hstep hr h)
      rw [List.append_assoc, List.singleton_append] at hnext
      exact hnext

/-- The same for a poll, which may also do nothing. -/
theorem poll_rec {motive : List Examination → Arbiter → Prop} {s : Snapshot}
    (hstep : ∀ {es : List Examination} {a : Arbiter} {name : String} {r : Record},
      a.tasks.get? name = some r → motive es a → motive (es ++ [⟨a, name, r, s⟩]) (a.examine name s))
    {es : List Examination} (h : motive es a) :
    motive (es ++ a.examinationsOf (.poll s)) (a.perform (.poll s)).2 := by
  simp only [perform, poll_eq, examinationsOf]
  split
  · exact examineAll_rec hstep h (a.dueTasks s.now)
  · rw [List.append_nil]
    exact h

/-- What no examination breaks, a poll keeps. -/
theorem poll_keeps {P : Arbiter → Prop} {s : Snapshot}
    (hstep : ∀ {a : Arbiter} (name : String), P a → P (a.examine name s)) (h : P a) :
    P (a.perform (.poll s)).2 :=
  @poll_rec a (fun _ b => P b) s (fun _ hb => hstep _ hb) [] h

/-- The same for a whole history. -/
theorem history_rec {motive : List Examination → Arbiter → Prop} (rs : List Request)
    (hother : ∀ q ∈ rs, (∀ s, q ≠ .poll s) → ∀ {es : List Examination} {a : Arbiter},
      motive es a → motive es (a.perform q).2)
    (hstep : ∀ {es : List Examination} {a : Arbiter} {name : String} {r : Record} {s : Snapshot},
      a.tasks.get? name = some r → motive es a → motive (es ++ [⟨a, name, r, s⟩]) (a.examine name s))
    {es : List Examination} (h : motive es a) : motive (es ++ a.history rs) (a.run rs) := by
  induction rs generalizing es a with
  | nil =>
    rw [history, List.append_nil]
    exact h
  | cons q rs ih =>
    have hq : motive (es ++ a.examinationsOf q) (a.perform q).2 := by
      cases q with
      | poll s => exact poll_rec hstep h
      | _ =>
        -- no other request examines anything
        show motive (es ++ []) _
        rw [List.append_nil]
        exact hother _ List.mem_cons_self (fun s => nofun) h
    rw [history, ← List.append_assoc]
    exact ih (fun q hq => hother q (List.mem_cons_of_mem _ hq)) hq

/-- What can be said of every examination, where the arbiter that makes it has a property that
nothing breaks. -/
theorem of_mem_history {P : Arbiter → Prop} {Q : Examination → Prop}
    (hother : ∀ {q : Request}, (∀ s, q ≠ .poll s) → ∀ {a : Arbiter}, P a → P (a.perform q).2)
    (hstep : ∀ {a : Arbiter} {name : String} {r : Record} (s : Snapshot),
      a.tasks.get? name = some r → P a → Q ⟨a, name, r, s⟩ ∧ P (a.examine name s))
    (h : P a) {rs : List Request} {e : Examination} (he : e ∈ a.history rs) : Q e := by
  have hall : P (a.run rs) ∧ ∀ e ∈ [] ++ a.history rs, Q e :=
    history_rec rs (motive := fun es b => P b ∧ ∀ e ∈ es, Q e)
      (fun _ _ hq _ _ h => ⟨hother hq h.1, h.2⟩)
      (fun hr h => ⟨(hstep _ hr h.1).2, fun e he => by
        rcases List.mem_append.1 he with he | he
        · exact h.2 e he
        · rw [List.mem_singleton.1 he]
          exact (hstep _ hr h.1).1⟩)
      ⟨h, fun _ h => nomatch h⟩
  exact hall.2 e he

/-- The task of every examination is supervised, with the record that is examined. -/
theorem get?_of_mem_history {e : Examination} {rs : List Request} (he : e ∈ a.history rs) :
    e.arbiter.tasks.get? e.task = some e.record :=
  of_mem_history (P := fun _ => True) (Q := fun e => e.arbiter.tasks.get? e.task = some e.record)
    (fun _ _ h => h) (fun _ hr h => ⟨hr, h⟩) trivial he

/-- What no request breaks holds whenever a task is examined. -/
theorem Invariant.of_mem_history {P : Arbiter → Prop} (inv : Invariant P) (h : P a)
    {rs : List Request} {e : Examination} (he : e ∈ a.history rs) : P e.arbiter :=
  Arbiter.of_mem_history (Q := fun e => P e.arbiter) (fun _ _ h => inv.perform h _)
    (fun s _ h => ⟨h, inv.examine h _ s⟩) h he

/-! ### Examinations of a poll -/

/-- Taking note of jobs shows in the newest jobs only. -/
theorem agree_observeOthers_of_newest {β : Type} {f : Record → β} {other : String}
    (hnewest : ∀ (r : Record) (newest : NewestJob), f { r with newest } = f r)
    (a : Arbiter) (name : String) (s : Snapshot) : Agree f other a (a.observeOthers name s) := by
  refine agree_foldl (fun a job => ?_) a s.jobs
  split
  · exact .refl a
  · exact agree_modify fun _ r _ => apply_observe hnewest r job

/-- An examination of another task leaves a task alone, apart from its newest job. -/
theorem agree_examine {β : Type} {f : Record → β} {other : String} (hne : other ≠ name)
    (hcalm : Calm f) (hnewest : ∀ (r : Record) (newest : NewestJob), f { r with newest } = f r)
    (a : Arbiter) (s : Snapshot) : Agree f other a (a.examine name s) := by
  unfold examine
  split
  · exact .refl a
  · exact (agree_observeOthers_of_newest hnewest a name s).trans (agree_conclusions hne hcalm _ _ s _)

/-- Until the turn of a task comes, its record changes in its newest job and in what others decide
only. -/
theorem record_of_mem_examinations {β : Type} {f : Record → β} (hcalm : Calm f)
    (hnewest : ∀ (r : Record) (newest : NewestJob), f { r with newest } = f r)
    {names : List String} (hnodup : names.Nodup) {e : Examination}
    (he : e ∈ a.examinations s names) :
    e.snapshot = s ∧ e.task ∈ names ∧ ∃ r, a.tasks.get? e.task = some r ∧ f e.record = f r := by
  induction names generalizing a with
  | nil => cases he
  | cons n names ih =>
    obtain ⟨hn, hnodup⟩ := List.nodup_cons.1 hnodup
    rw [examinations] at he
    split at he
    · obtain ⟨hs, hmem, hrecord⟩ := ih hnodup he
      exact ⟨hs, List.mem_cons_of_mem n hmem, hrecord⟩
    · rename_i r hr
      rcases List.mem_cons.1 he with rfl | he
      · exact ⟨rfl, List.mem_cons_self, r, hr, rfl⟩
      · obtain ⟨hs, hmem, r', hr', heq⟩ := ih hnodup he
        have hne : e.task ≠ n := fun heq => hn (heq ▸ hmem)
        obtain ⟨r, hr, heq'⟩ := (agree_examine hne hcalm hnewest a s).get? hr'
        exact ⟨hs, List.mem_cons_of_mem n hmem, r, hr, heq.trans heq'⟩

/-- Every task has its turn. -/
theorem map_task_examinations {names : List String} (hnodup : names.Nodup)
    (hin : ∀ n ∈ names, a.tasks.contains n = true) :
    (a.examinations s names).map (·.task) = names := by
  induction names generalizing a with
  | nil => rfl
  | cons n names ih =>
    obtain ⟨hn, hnodup⟩ := List.nodup_cons.1 hnodup
    obtain ⟨r, hr⟩ := OrderedMap.contains_iff.1 (hin n List.mem_cons_self)
    rw [examinations, hr]
    refine congrArg (n :: ·) (ih hnodup fun m hm => ?_)
    have hne : m ≠ n := fun heq => hn (heq ▸ hm)
    rw [(agree_examine hne calm_supervised (fun _ _ => rfl) a s).contains]
    exact hin m (List.mem_cons_of_mem n hm)

/-! ### Other requests -/

/-- A request that a task is supervised from now on, and that succeeds. -/
def Adds (a : Arbiter) (name : String) : Request → Prop
  | .add core t => t.name = name ∧ core < a.cores ∧ a.tasks.contains name = false
  | _ => False

instance (a : Arbiter) (name : String) : DecidablePred (a.Adds name) := fun q => by
  cases q <;> unfold Adds <;> infer_instance

theorem not_adds_of_contains (h : a.tasks.contains name = true) (q : Request) :
    ¬ a.Adds name q := by
  cases q with
  | add core t =>
    rintro ⟨-, -, hout⟩
    rw [h] at hout
    cases hout
  | _ => exact id

/-- Other requests than polls decide, move a task to another core and announce its last job. -/
theorem view_perform {β : Type} {f : Record → β} (hcalm : Calm f)
    (hcore : ∀ (r : Record) (core : Nat), f { r with core } = f r) {q : Request}
    (hlast : q = .lastJobStarted name →
      ∀ (r : Record) (lastJobStarted : Bool), f { r with lastJobStarted } = f r)
    (hq : ∀ s, q ≠ .poll s) (hadds : ¬ a.Adds name q) :
    ((a.perform q).2.tasks.get? name).map f = (a.tasks.get? name).map f := by
  cases q with
  | setGoal config => rfl
  | add core t =>
    show ((a.add core t).2.tasks.get? name).map f = _
    unfold add
    split
    · rfl
    · split
      · rfl
      · rename_i hcore hout
        have hne : name ≠ t.name := fun heq =>
          hadds ⟨heq.symm, Nat.lt_of_not_le hcore, by rw [heq]; simpa using hout⟩
        simp only [OrderedMap.get?_insert, if_neg hne]
  | lastJobStarted other =>
    show ((a.lastJobStarted other).2.tasks.get? name).map f = _
    unfold lastJobStarted
    split
    · exact (agree_modify (n := name) fun heq r _ => hlast (by rw [heq]) r true).view
    · rfl
  | move other core =>
    show ((a.move other core).2.tasks.get? name).map f = _
    unfold move
    split
    · rfl
    · split
      · have hmove : Agree f name a (a.modify other fun r => { r with core }) :=
          agree_modify fun _ r _ => hcore r core
        exact (hmove.trans (agree_arbitrateAll hcalm.allowed _ _)).view
      · rfl
  | poll s => exact absurd rfl (hq s)

end Arbiter

end RealTime
