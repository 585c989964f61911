import RealTime.Proofs.Arbiter.Examinations

/-! # Each job is judged once

A job is judged when it is recorded and its deadline has passed, when it is recorded and another
job of its task has overtaken it, or when it is the newest one and was terminated too late.
Nothing in the records says which jobs have been judged.  A recorded job is not judged again
because the release of its task has moved past it; a terminated one because the newest job has
been marked as handled.

`Course.Settled` relates the release and the newest job of a task to the jobs that have been
judged, and to all monitoring data that is still to come.

* `Course.next`            what an examination does to the release and to the newest job
* `Settled.observe`        the newest job may change when another task is examined
* `Settled.next`           an examination of the task itself judges only jobs not judged before
* `judged_once`            no job is judged twice while its task is supervised -/

namespace RealTime

/-! ### Well-formed monitoring data -/

/-- No job that one snapshot reports as terminated is recorded in the other. -/
def Snapshot.Buries (s t : Snapshot) : Prop := ∀ d ∈ s.terminated, ∀ j ∈ t.jobs, j.id ≠ d.id

/-- Snapshots, the earliest first, of monitoring data in which a job keeps its number, its task
and its arrival.  Jobs that end, new jobs and terminated jobs may appear from one to the next. -/
structure WellFormed (ss : List Snapshot) : Prop where
  now_le : ∀ s ∈ ss, s.now ≤ Clock.limit
  id_ne_zero : ∀ s ∈ ss, ∀ j ∈ s.jobs, j.id ≠ 0
  nodup_ids : ∀ s ∈ ss, (s.jobs.map (·.id)).Nodup
  /-- Two jobs of one task do not arrive at the same time. -/
  id_eq_iff : ∀ s ∈ ss, ∀ t ∈ ss, ∀ i ∈ s.jobs, ∀ j ∈ t.jobs,
    i.id = j.id ↔ i.task = j.task ∧ i.arrival = j.arrival
  /-- A terminated job has left the records and does not come back. -/
  buries_self : ∀ s ∈ ss, s.Buries s
  buries_later : ss.Pairwise Snapshot.Buries

namespace WellFormed

variable {s t : Snapshot} {ss : List Snapshot} {i j : JobRecord}

theorem tail (h : WellFormed (s :: ss)) : WellFormed ss where
  now_le := fun t ht => h.now_le t (List.mem_cons_of_mem s ht)
  id_ne_zero := fun t ht => h.id_ne_zero t (List.mem_cons_of_mem s ht)
  nodup_ids := fun t ht => h.nodup_ids t (List.mem_cons_of_mem s ht)
  id_eq_iff := fun t ht u hu =>
    h.id_eq_iff t (List.mem_cons_of_mem s ht) u (List.mem_cons_of_mem s hu)
  buries_self := fun t ht => h.buries_self t (List.mem_cons_of_mem s ht)
  buries_later := (List.pairwise_cons.1 h.buries_later).2

/-- A job keeps its arrival. -/
theorem arrival_eq (h : WellFormed ss) (hs : s ∈ ss) (ht : t ∈ ss) (hi : i ∈ s.jobs)
    (hj : j ∈ t.jobs) (hid : i.id = j.id) : i.arrival = j.arrival :=
  ((h.id_eq_iff s hs t ht i hi j hj).1 hid).2

/-- A job that is terminated now is recorded neither now nor later. -/
theorem id_ne_of_terminated (h : WellFormed (s :: ss)) {d : Termination} (hd : d ∈ s.terminated)
    (ht : t ∈ s :: ss) (hj : j ∈ t.jobs) : j.id ≠ d.id := by
  rcases List.mem_cons.1 ht with rfl | ht
  · exact h.buries_self t List.mem_cons_self d hd j hj
  · exact (List.pairwise_cons.1 h.buries_later).1 t ht d hd j hj

/-- Two new jobs have different numbers, hence different arrivals. -/
theorem lastTwo (h : WellFormed ss) (hs : s ∈ ss) {name : String} {r : Record}
    (htwo : Finding.LastTwo (Finding.newJobs name r s) i j) :
    j.id ≠ i.id ∧ i.arrival < j.arrival := by
  have hids : ((Finding.newJobs name r s).map (·.id)).Nodup :=
    (h.nodup_ids s hs).sublist (List.filter_sublist.map _)
  have hne := htwo.id_ne hids
  obtain ⟨hi, htask, -⟩ := Finding.mem_newJobs.1 htwo.mem_earlier
  obtain ⟨hj, htask', -⟩ := Finding.mem_newJobs.1 htwo.mem_latest
  have harrival : j.arrival ≠ i.arrival := fun heq =>
    hne ((h.id_eq_iff s hs s hs j hj i hi).2 ⟨htask'.trans htask.symm, heq⟩)
  have hle := htwo.arrival_le
  exact ⟨hne, by omega⟩

end WellFormed

/-! ### The course of a task -/

/-- What decides which jobs of a task are judged next. -/
structure Course where
  /-- Earliest release of the current job. -/
  arrival : Nat
  interArrival : Nat
  newest : NewestJob

/-- The course of a supervised task. -/
def Record.course (r : Record) : Course := ⟨r.arrival, r.interArrival, r.newest⟩

@[simp] theorem Record.course_arrival (r : Record) : r.course.arrival = r.arrival := rfl

@[simp] theorem Record.course_interArrival (r : Record) : r.course.interArrival = r.interArrival :=
  rfl

/-- The numbers of the jobs that are judged upon a finding about a task with a given newest job:
recorded jobs, or the newest job if it was terminated too late. -/
def Finding.judgedIds (newest : NewestJob) : Finding → List Nat
  | terminatedLate => [newest.id]
  | f => f.judged.map (·.id)

namespace Course

/-- Take note of a job that is newer than those seen before. -/
def observe (c : Course) (job : JobRecord) : Course :=
  if c.newest.arrival < job.arrival ∨ c.newest.id = 0 then
    { c with newest := { id := job.id, arrival := job.arrival, core := job.core, handled := false } }
  else c

/-- Mark a job as handled if it is the newest one. -/
def handle (c : Course) (job : JobRecord) : Course :=
  if c.newest.id = job.id then { c with newest := { c.newest with handled := true } } else c

/-- What an examination does to the course of the examined task. -/
def next (c : Course) : Finding → Course
  | .denied => { c with arrival := Clock.after c.arrival c.interArrival }
  | .terminatedLate => { c with newest := { c.newest with handled := true } }
  | .running job => { c.observe job with arrival := job.arrival }
  | .due job =>
    { (c.observe job).handle job with arrival := Clock.after job.arrival c.interArrival }
  | .overtaken earlier latest =>
    { ((c.observe latest).observe earlier).handle earlier with arrival := latest.arrival }
  | .bothDue _ latest =>
    { (c.observe latest).handle latest with arrival := Clock.after latest.arrival c.interArrival }
  | _ => c

variable {c : Course} {job : JobRecord}

@[simp] theorem observe_arrival (c : Course) (job : JobRecord) :
    (c.observe job).arrival = c.arrival := by
  unfold observe
  split <;> rfl

@[simp] theorem observe_interArrival (c : Course) (job : JobRecord) :
    (c.observe job).interArrival = c.interArrival := by
  unfold observe
  split <;> rfl

/-- After a job has been noted it is the newest one, or the newest one is no older. -/
theorem observe_cases (c : Course) (job : JobRecord) :
    (c.observe job).newest = { id := job.id, arrival := job.arrival, core := job.core, handled := false } ∨
      c.observe job = c ∧ job.arrival ≤ c.newest.arrival ∧ c.newest.id ≠ 0 := by
  unfold observe
  split
  · exact .inl rfl
  · rename_i h
    simp only [not_or, Nat.not_lt] at h
    exact .inr ⟨rfl, h⟩

@[simp] theorem handle_arrival (c : Course) (job : JobRecord) :
    (c.handle job).arrival = c.arrival := by
  unfold handle
  split <;> rfl

@[simp] theorem handle_interArrival (c : Course) (job : JobRecord) :
    (c.handle job).interArrival = c.interArrival := by
  unfold handle
  split <;> rfl

/-! ### Jobs that have been judged -/

/-- Whatever the snapshots record about the newest job agrees with what is known of it. -/
def Known (c : Course) (ss : List Snapshot) : Prop :=
  ∀ s ∈ ss, ∀ j ∈ s.jobs, j.id = c.newest.id → j.arrival = c.newest.arrival

/-- None of the given numbers, those of judged jobs, will be judged again on the given
snapshots. -/
structure Settled (c : Course) (ids : List Nat) (ss : List Snapshot) : Prop where
  period : 0 < c.interArrival
  known : c.Known ss
  /-- The release has moved past every judged job that is still recorded. -/
  released : ∀ s ∈ ss, ∀ j ∈ s.jobs, j.id ∈ ids → j.arrival < c.arrival
  /-- A judged newest job is marked as such, or out of date. -/
  handled : c.newest.id ∈ ids → c.newest.handled = true ∨ c.newest.arrival < c.arrival

variable {ids new : List Nat} {s : Snapshot} {ss : List Snapshot} {name : String} {r : Record}
  {f : Finding} {j earlier latest : JobRecord}

theorem Known.observe (h : c.Known ss) (hwell : WellFormed ss) (hs : s ∈ ss) (hj : j ∈ s.jobs) :
    (c.observe j).Known ss := by
  intro t ht i hi hid
  rcases c.observe_cases j with hnewest | ⟨hsame, -⟩
  · rw [hnewest] at hid ⊢
    exact hwell.arrival_eq ht hs hi hj hid
  · rw [hsame] at hid ⊢
    exact h t ht i hi hid

namespace Settled

/-- Less is to come. -/
theorem tail (h : c.Settled ids (s :: ss)) : c.Settled ids ss where
  period := h.period
  known := fun t ht => h.known t (List.mem_cons_of_mem s ht)
  released := fun t ht => h.released t (List.mem_cons_of_mem s ht)
  handled := h.handled

/-- Taking note of a recorded job. -/
theorem observe (h : c.Settled ids ss) (hwell : WellFormed ss) (hs : s ∈ ss) (hj : j ∈ s.jobs) :
    (c.observe j).Settled ids ss where
  period := by rw [observe_interArrival]; exact h.period
  known := h.known.observe hwell hs hj
  released := by rw [observe_arrival]; exact h.released
  handled := by
    intro hid
    rcases c.observe_cases j with hnewest | ⟨hsame, -⟩
    · -- the job counts as unhandled, but if it has been judged the release is later
      rw [hnewest] at hid ⊢
      rw [observe_arrival]
      exact .inr (h.released s hs j hj hid)
    · rw [hsame] at hid ⊢
      exact h.handled hid

/-- Before the first job is seen, none has been judged.  The newest job then has a number that no
job has. -/
theorem of_unseen (hwell : WellFormed ss) (hperiod : 0 < c.interArrival) (hid : c.newest.id = 0) :
    c.Settled [] ss where
  period := hperiod
  known := fun s hs j hj hnewest => absurd (hnewest.trans hid) (hwell.id_ne_zero s hs j hj)
  released := fun _ _ _ _ h => absurd h List.not_mem_nil
  handled := fun h => absurd h List.not_mem_nil

/-- Marking the newest job. -/
theorem handle (h : c.Settled ids ss) (job : JobRecord) : (c.handle job).Settled ids ss := by
  unfold Course.handle
  split
  · exact ⟨h.period, h.known, h.released, fun _ => .inl rfl⟩
  · exact h

/-- Moving the release past recorded jobs that are judged. -/
theorem advance (h : c.Settled ids ss) (hwell : WellFormed ss) (hs : s ∈ ss) {arrival : Nat}
    (hle : c.arrival ≤ arrival)
    (hnew : ∀ id ∈ new, ∃ j ∈ s.jobs, j.id = id ∧ j.arrival < arrival) :
    { c with arrival }.Settled (ids ++ new) ss where
  period := h.period
  known := h.known
  released := by
    intro t ht i hi hid
    rcases List.mem_append.1 hid with hid | hid
    · exact Nat.lt_of_lt_of_le (h.released t ht i hi hid) hle
    · -- a job arrived at the same time in whatever snapshot it is recorded
      obtain ⟨j, hj, hji, hlt⟩ := hnew i.id hid
      rw [hwell.arrival_eq ht hs hi hj hji.symm]
      exact hlt
  handled := by
    intro hid
    rcases List.mem_append.1 hid with hid | hid
    · exact (h.handled hid).imp_right fun hlt => Nat.lt_of_lt_of_le hlt hle
    · obtain ⟨j, hj, hjid, hlt⟩ := hnew c.newest.id hid
      have harrival := h.known s hs j hj hjid
      exact .inr (by show c.newest.arrival < arrival; omega)

/-- Judging the newest job because it was terminated. -/
theorem terminate (h : c.Settled ids (s :: ss)) (hwell : WellFormed (s :: ss)) {d : Termination}
    (hd : d ∈ s.terminated) (hid : d.id = c.newest.id) :
    { c with newest := { c.newest with handled := true } }.Settled (ids ++ [c.newest.id])
      (s :: ss) where
  period := h.period
  known := h.known
  released := by
    intro t ht j hj hmem
    rcases List.mem_append.1 hmem with hmem | hmem
    · exact h.released t ht j hj hmem
    · -- the release need not move, for the job is recorded no more
      have hjd : j.id = d.id := (List.mem_singleton.1 hmem).trans hid.symm
      exact absurd hjd (hwell.id_ne_of_terminated hd ht hj)
  handled := fun _ => .inl rfl

end Settled

/-! ### Examinations of the task -/

/-- An examination judges only jobs that have not been judged before, and settles them. -/
structure Proceeds (c : Course) (f : Finding) (ids : List Nat) (ss : List Snapshot) : Prop where
  settled : (c.next f).Settled (ids ++ f.judgedIds c.newest) ss
  nodup : (f.judgedIds c.newest).Nodup
  fresh : ∀ id ∈ f.judgedIds c.newest, id ∉ ids

section Proceeds

variable (h : r.course.Settled ids (s :: ss)) (hwell : WellFormed (s :: ss))

include h hwell

/-- A new job has not been judged, and one period later it is in the past. -/
theorem Settled.fresh (hj : j ∈ Finding.newJobs name r s) :
    j ∈ s.jobs ∧ r.arrival ≤ j.arrival ∧ j.id ∉ ids ∧
      j.arrival < Clock.after j.arrival r.interArrival := by
  obtain ⟨hj, -, hle, hlt⟩ := Finding.mem_newJobs.1 hj
  have hnow := hwell.now_le s List.mem_cons_self
  exact ⟨hj, hle, fun hid => Nat.not_lt.2 hle (h.released s List.mem_cons_self j hj hid),
    Clock.lt_after (Nat.lt_of_lt_of_le hlt hnow) h.period⟩

/-- The newest job has been terminated too late. -/
theorem proceeds_terminatedLate {d : Termination}
    (hfind : s.terminated.find? (·.id == r.newest.id) = some d)
    (hhandled : r.newest.handled = false) (hle : r.arrival ≤ r.newest.arrival) :
    r.course.Proceeds .terminatedLate ids (s :: ss) where
  settled := by
    have hd : d.id = r.newest.id := by simpa using List.find?_some hfind
    exact h.terminate hwell (List.mem_of_find?_eq_some hfind) hd
  nodup := List.pairwise_singleton _ _
  fresh := by
    intro id hid hmem
    rw [List.mem_singleton.1 hid] at hmem
    -- a judged newest job would be marked, or the release would have passed it
    rcases h.handled hmem with hmarked | hout
    · rw [show r.newest.handled = true from hmarked] at hhandled
      cases hhandled
    · exact Nat.not_lt.2 hle hout

/-- The deadline of the only new job has passed. -/
theorem proceeds_due (hnew : j ∈ Finding.newJobs name r s) :
    r.course.Proceeds (.due j) ids (s :: ss) where
  settled := by
    obtain ⟨hj, hle, -, hpast⟩ := h.fresh hwell hnew
    refine ((h.observe hwell List.mem_cons_self hj).handle j).advance hwell List.mem_cons_self ?_ ?_
    · simpa using Nat.le_of_lt (Nat.lt_of_le_of_lt hle hpast)
    · intro id hid
      exact ⟨j, hj, (List.mem_singleton.1 hid).symm, hpast⟩
  nodup := List.pairwise_singleton _ _
  fresh := by
    intro id hid
    rw [List.mem_singleton.1 hid]
    exact (h.fresh hwell hnew).2.2.1

variable (htwo : Finding.LastTwo (Finding.newJobs name r s) earlier latest)

include htwo

/-- The earlier one of two new jobs has been overtaken. -/
theorem proceeds_overtaken : r.course.Proceeds (.overtaken earlier latest) ids (s :: ss) where
  settled := by
    obtain ⟨hearlier, -⟩ := h.fresh hwell htwo.mem_earlier
    obtain ⟨hlatest, hle, -⟩ := h.fresh hwell htwo.mem_latest
    have hnoted := (h.observe hwell List.mem_cons_self hlatest).observe hwell List.mem_cons_self
      hearlier
    -- the release moves to the latest job, which may yet be judged, and just past the earlier one
    refine (hnoted.handle earlier).advance hwell List.mem_cons_self ?_ ?_
    · simpa using hle
    · intro id hid
      exact ⟨earlier, hearlier, (List.mem_singleton.1 hid).symm,
        (hwell.lastTwo List.mem_cons_self htwo).2⟩
  nodup := List.pairwise_singleton _ _
  fresh := by
    intro id hid
    rw [List.mem_singleton.1 hid]
    exact (h.fresh hwell htwo.mem_earlier).2.2.1

/-- The deadlines of two new jobs have passed. -/
theorem proceeds_bothDue : r.course.Proceeds (.bothDue earlier latest) ids (s :: ss) where
  settled := by
    obtain ⟨hearlier, -⟩ := h.fresh hwell htwo.mem_earlier
    obtain ⟨hlatest, hle, -, hpast⟩ := h.fresh hwell htwo.mem_latest
    have hnoted := h.observe hwell List.mem_cons_self hlatest
    refine (hnoted.handle latest).advance hwell List.mem_cons_self ?_ ?_
    · simpa using Nat.le_of_lt (Nat.lt_of_le_of_lt hle hpast)
    · intro id hid
      rcases List.mem_cons.1 hid with rfl | hid
      · exact ⟨earlier, hearlier, rfl, Nat.lt_of_le_of_lt htwo.arrival_le hpast⟩
      · exact ⟨latest, hlatest, (List.mem_singleton.1 hid).symm, hpast⟩
  nodup := by
    have hne := (hwell.lastTwo List.mem_cons_self htwo).1
    show [earlier.id, latest.id].Nodup
    simpa using hne.symm
  fresh := by
    intro id hid
    rcases List.mem_cons.1 hid with rfl | hid
    · exact (h.fresh hwell htwo.mem_earlier).2.2.1
    · rw [List.mem_singleton.1 hid]
      exact (h.fresh hwell htwo.mem_latest).2.2.1

end Proceeds

/-- Whatever an examination finds, it judges only jobs that have not been judged before. -/
theorem Settled.next (h : r.course.Settled ids (s :: ss)) (hwell : WellFormed (s :: ss))
    (hsees : f.Sees name r s) : r.course.Proceeds f ids (s :: ss) := by
  have hs : s ∈ s :: ss := List.mem_cons_self
  -- most findings judge nothing
  have hnothing : ∀ {f : Finding}, f.judgedIds r.newest = [] →
      (r.course.next f).Settled (ids ++ []) (s :: ss) → r.course.Proceeds f ids (s :: ss) := by
    intro f hf hsettled
    have hids : f.judgedIds r.course.newest = [] := hf
    exact ⟨hids ▸ hsettled, hids ▸ List.nodup_nil, fun id hid => by rw [hids] at hid; cases hid⟩
  have hsame : r.course.Settled (ids ++ []) (s :: ss) := by
    rw [List.append_nil]
    exact h
  cases hsees with
  | unseen => exact hnothing rfl hsame
  | finished => exact hnothing rfl hsame
  | missing => exact hnothing rfl hsame
  | outdated => exact hnothing rfl hsame
  | vanished => exact hnothing rfl hsame
  | killed => exact hnothing rfl hsame
  | denied =>
    exact hnothing rfl (h.advance hwell hs (Clock.le_after _ _) (by simp))
  | @running j hnew =>
    obtain ⟨hj, hle, -⟩ := h.fresh hwell (hnew ▸ List.mem_cons_self)
    have hnoted := h.observe hwell hs hj
    exact hnothing rfl (hnoted.advance hwell hs (by simpa using hle) (by simp))
  | terminatedLate _ hhandled hle hfind =>
    exact proceeds_terminatedLate h hwell hfind hhandled hle
  | due hnew => exact proceeds_due h hwell (hnew ▸ List.mem_cons_self)
  | overtaken htwo => exact proceeds_overtaken h hwell htwo
  | bothDue htwo => exact proceeds_bothDue h hwell htwo

end Course

/-! ### The course of a task in the arbiter -/

namespace Arbiter

/-- The course of a task, if it is supervised. -/
def course? (a : Arbiter) (name : String) : Option Course := (a.tasks.get? name).map Record.course

/-- No judged job of a task will be judged again as long as the task is supervised. -/
def Settled (a : Arbiter) (name : String) (ids : List Nat) (ss : List Snapshot) : Prop :=
  ∀ c, a.course? name = some c → c.Settled ids ss

variable {a b : Arbiter} {name : String} {r : Record} {s : Snapshot} {ss : List Snapshot}
  {c : Course}

theorem course?_of_agree (h : Agree Record.course name a b) : b.course? name = a.course? name :=
  h.view

private theorem calm_course : Calm Record.course :=
  ⟨fun _ _ => rfl, fun _ _ => rfl, fun _ _ => rfl, fun _ _ => rfl⟩

/-- A change of a record that shows in its course. -/
theorem course?_modify {f : Record → Record} (g : Course → Course)
    (h : ∀ r : Record, (f r).course = g r.course) (a : Arbiter) (name : String) :
    (a.modify name f).course? name = (a.course? name).map g := by
  rw [course?, get?_modify, if_pos rfl, course?, Option.map_map, Option.map_map]
  exact congrArg (fun f => (a.tasks.get? name).map f) (funext h)

private theorem course_observe (r : Record) (job : JobRecord) :
    (r.observe job).course = r.course.observe job := by
  unfold Record.observe Course.observe Record.course
  dsimp only
  split <;> rfl

/-- Noting a job that is newer than those seen before. -/
theorem course?_observe (a : Arbiter) (name : String) (job : JobRecord) :
    (a.modify name (·.observe job)).course? name = (a.course? name).map (·.observe job) :=
  course?_modify (·.observe job) (course_observe · job) a name

theorem course?_setArrival (a : Arbiter) (name : String) (job : JobRecord) :
    (a.setArrival name job).course? name =
      (a.course? name).map fun c => { c with arrival := job.arrival } :=
  course?_modify (fun c => { c with arrival := job.arrival }) (fun _ => rfl) a name

theorem course?_setNextArrival (a : Arbiter) (name : String) (job : JobRecord) :
    (a.setNextArrival name job).course? name =
      (a.course? name).map fun c => { c with arrival := Clock.after job.arrival c.interArrival } :=
  course?_modify (fun c => { c with arrival := Clock.after job.arrival c.interArrival })
    (fun _ => rfl) a name

/-- Judging jobs does not show. -/
theorem course?_judge (a : Arbiter) (name : String) (job : JobRecord) (s : Snapshot) :
    (a.judge name job s).course? name = a.course? name :=
  course?_of_agree (agree_judge calm_course (fun _ _ _ => rfl)
    (agree_follow (fun _ _ _ => rfl) a job.core) s)

theorem course?_conclude (a : Arbiter) (name : String) (job : JobRecord) :
    (a.conclude name job).course? name =
      (a.course? name).map fun c => (c.observe job).handle job := by
  have hdecide : (a.arbitrate name).course? name = a.course? name :=
    course?_of_agree (agree_arbitrate calm_course.allowed a name)
  have hhandle : ∀ r : Record, (if r.newest.id = job.id then
      { r with newest := { r.newest with handled := true } } else r).course =
        r.course.handle job := by
    intro r
    unfold Course.handle Record.course
    dsimp only
    split <;> rfl
  rw [conclude, course?_modify (·.handle job) hhandle,
    course?_observe, hdecide, Option.map_map]
  rfl

/-- An examination of a task takes its course on, unless it ends its supervision. -/
theorem course?_conclusions (h : a.course? name = some c) (r : Record) (s : Snapshot)
    (f : Finding) :
    (a.conclusions name r s f).course? name =
      if f.ends.isSome then none else some (c.next f) := by
  have hremove : ∀ (lastJob : Nat) (cause : EndCause),
      (a.remove name lastJob cause).course? name = none := by
    intro lastJob cause
    rw [course?, get?_remove, Option.map_none]
  cases f with
  | unseen => exact h
  | missing => exact h
  | outdated => exact h
  | vanished => exact h
  | finished => exact hremove _ _
  | killed => exact hremove _ _
  | denied =>
    rw [conclusions, course?_of_agree (agree_charge calm_course _ name),
      course?_modify (fun c => { c with arrival := Clock.after c.arrival c.interArrival })
        (fun _ => rfl), h]
    rfl
  | terminatedLate =>
    have hmiss := fun a => course?_of_agree
      (agree_miss (n := name) calm_course a name r.newest.arrival s)
    have hfollow : (a.modify name (·.follow r.newest.core a.cores)).course? name = a.course? name :=
      course?_of_agree (agree_follow (fun _ _ _ => rfl) a r.newest.core)
    simp only [conclusions]
    rw [course?_modify (fun c => { c with newest := { c.newest with handled := true } })
        (fun _ => rfl), hmiss, hfollow, h]
    rfl
  | running job =>
    rw [conclusions, course?_setArrival, course?_observe, h]
    rfl
  | due job =>
    rw [conclusions, course?_setNextArrival, course?_conclude, course?_judge, h]
    simp [Course.next, Finding.ends]
  | overtaken earlier latest =>
    rw [conclusions, course?_setArrival, course?_conclude, course?_judge, course?_observe, h]
    rfl
  | bothDue earlier latest =>
    rw [conclusions, course?_setNextArrival, course?_conclude, course?_judge, course?_judge, h]
    simp [Course.next, Finding.ends]

/-- The course of a task after it has been examined. -/
theorem course?_examine (hr : a.tasks.get? name = some r) (s : Snapshot) :
    (a.examine name s).course? name =
      if (Finding.of name r s).ends.isSome then none else some (r.course.next (.of name r s)) := by
  have hothers : (a.observeOthers name s).course? name = some r.course := by
    rw [course?_of_agree (agree_observeOthers a name s), course?, hr, Option.map_some]
  rw [examine_of_some hr, course?_conclusions hothers]

/-! ### Examinations -/

/-- The numbers of the jobs of a task that some examinations judge, in the order of their
judgement. -/
def judgements (name : String) (es : List Examination) : List Nat :=
  (es.filter (·.task = name)).flatMap fun e => e.finding.judgedIds e.record.newest

theorem judgements_append (name : String) (es es' : List Examination) :
    judgements name (es ++ es') = judgements name es ++ judgements name es' := by
  simp [judgements]

/-- An examination of another task judges no job of this one. -/
theorem judgements_of_ne {e : Examination} (h : e.task ≠ name) : judgements name [e] = [] := by
  simp [judgements, h]

theorem judgements_self (e : Examination) :
    judgements e.task [e] = e.finding.judgedIds e.record.newest := by
  simp [judgements]

/-- Taking note of recorded jobs while another task is examined. -/
theorem Settled.observeOthers {ids : List Nat} (h : a.Settled name ids ss) (hwell : WellFormed ss)
    (hs : s ∈ ss) (n : String) : (a.observeOthers n s).Settled name ids ss := by
  refine List.foldlRecOn (motive := fun b : Arbiter => b.Settled name ids ss) _ _ h ?_
  intro b hb j hj
  split
  · exact hb
  · intro c hc
    by_cases htask : j.task = name
    · rw [observe, htask, course?_observe] at hc
      obtain ⟨c', hc', rfl⟩ := Option.map_eq_some_iff.1 hc
      exact (hb c' hc').observe hwell hs hj
    · have hother : Agree Record.course name b (b.observe j) :=
        agree_modify fun heq => absurd heq.symm htask
      rw [course?_of_agree hother] at hc
      exact hb c hc

/-- No examination judges a job of the task that has been judged before. -/
theorem Settled.examine {es : List Examination} {n : String}
    (h : a.Settled name (judgements name es) (s :: ss)) (hnodup : (judgements name es).Nodup)
    (hwell : WellFormed (s :: ss)) (hr : a.tasks.get? n = some r) :
    (a.examine n s).Settled name (judgements name (es ++ [⟨a, n, r, s⟩])) (s :: ss) ∧
      (judgements name (es ++ [⟨a, n, r, s⟩])).Nodup := by
  rw [judgements_append]
  by_cases hn : n = name
  · subst hn
    have hcourse : a.course? n = some r.course := by rw [course?, hr, Option.map_some]
    have hproceeds := (h r.course hcourse).next hwell (Finding.sees_of n r s)
    have hself := judgements_self ⟨a, n, r, s⟩
    simp only [Examination.finding] at hself
    rw [hself]
    refine ⟨fun c hc => ?_, List.nodup_append.2 ⟨hnodup, hproceeds.nodup, ?_⟩⟩
    · rw [course?_examine hr] at hc
      split at hc
      · cases hc
      · cases hc
        exact hproceeds.settled
    · rintro id hid _ hid' rfl
      exact hproceeds.fresh id hid' hid
  · rw [judgements_of_ne hn, List.append_nil]
    refine ⟨fun c hc => ?_, hnodup⟩
    have hothers := h.observeOthers hwell List.mem_cons_self n
    rw [examine_of_some hr, course?_of_agree (agree_conclusions (Ne.symm hn) calm_course _ r s _)] at hc
    exact hothers c hc

/-! ### Histories -/

/-- The monitoring data that the polls among some requests see. -/
def snapshots (rs : List Request) : List Snapshot :=
  rs.filterMap fun
    | .poll s => some s
    | _ => none

/-- A task is supervised whenever one of some requests is made. -/
def Supervised (name : String) : Arbiter → List Request → Prop
  | _, [] => True
  | a, q :: qs => a.tasks.contains name = true ∧ Supervised name (a.perform q).2 qs

instance Supervised.decidable (name : String) : ∀ (a : Arbiter) (rs : List Request),
    Decidable (Supervised name a rs)
  | _, [] => .isTrue trivial
  | a, q :: qs =>
    @instDecidableAnd _ _ _ (Supervised.decidable name (a.perform q).2 qs)

/-- Requests other than polls do not show in the course of a supervised task. -/
theorem course?_perform {q : Request} (hq : ∀ s, q ≠ .poll s)
    (hin : a.tasks.contains name = true) : (a.perform q).2.course? name = a.course? name :=
  view_perform calm_course (fun _ _ => rfl) (fun _ _ _ => rfl) hq (not_adds_of_contains hin q)

/-- The judgements of a whole history go on without repetition. -/
theorem Settled.history {es : List Examination} {rs : List Request}
    (h : a.Settled name (judgements name es) (snapshots rs))
    (hnodup : (judgements name es).Nodup) (hwell : WellFormed (snapshots rs))
    (hsup : Supervised name a rs) : (judgements name (es ++ a.history rs)).Nodup := by
  induction rs generalizing es a with
  | nil => rwa [Arbiter.history, List.append_nil]
  | cons q rs ih =>
    obtain ⟨hin, hsup⟩ := hsup
    rw [Arbiter.history, ← List.append_assoc]
    cases q with
    | poll s =>
      obtain ⟨hsettled, hnodup⟩ := poll_rec
        (motive := fun es b =>
          b.Settled name (judgements name es) (s :: snapshots rs) ∧ (judgements name es).Nodup)
        (fun hr h => h.1.examine h.2 hwell hr) ⟨h, hnodup⟩
      exact ih (fun c hc => (hsettled c hc).tail) hnodup hwell.tail hsup
    | _ =>
      -- no other request looks at the monitoring data
      show (judgements name (es ++ [] ++ _)).Nodup
      rw [List.append_nil]
      refine ih (fun c hc => h c ?_) hnodup hwell hsup
      rw [← hc]
      exact (course?_perform (by rintro s ⟨⟩) hin).symm

/-- A task is supervised from the moment it is added. -/
theorem course?_add {core : Nat} {t : Task} (hadd : (a.add core t).1 = .ok ()) :
    (a.add core t).2.course? t.name = some (Record.ofTask t core a.cores).course := by
  unfold add at hadd ⊢
  split at hadd
  · cases hadd
  · split at hadd
    · cases hadd
    · rw [if_neg ‹_›, if_neg ‹_›, course?, OrderedMap.get?_insert, if_pos rfl, Option.map_some]

/-- No job of a new task has been judged. -/
theorem settled_add {core : Nat} {t : Task} (hadd : (a.add core t).1 = .ok ())
    (hperiod : t.interArrival ≠ 0) (hwell : WellFormed ss) : (a.add core t).2.Settled t.name [] ss := by
  intro c hc
  rw [course?_add hadd] at hc
  cases hc
  apply Course.Settled.of_unseen hwell
  · exact Nat.pos_of_ne_zero fun h => hperiod (UInt64.toNat_inj.1 h)
  · rfl

/-- As long as a task with a period is supervised, and the monitoring data are well formed, no job
of the task is judged twice, whenever the polls are made. -/
theorem judged_once {a : Arbiter} {core : Nat} {t : Task} (hadd : (a.add core t).1 = .ok ())
    (hperiod : t.interArrival ≠ 0) {rs : List Request} (hwell : WellFormed (snapshots rs))
    (hsup : Supervised t.name (a.add core t).2 rs) :
    (judgements t.name ((a.add core t).2.history rs)).Nodup := by
  have hstart : (a.add core t).2.Settled t.name (judgements t.name []) (snapshots rs) :=
    settled_add hadd hperiod hwell
  exact hstart.history List.nodup_nil hwell hsup

/-! A task of which one job is terminated too late and another one keeps its deadline. -/

/-- The task. -/
def watched : Task := { name := "t", deadline := 10000, interArrival := 10000 }

/-- The job that keeps its deadline, while it is running. -/
def punctualJob : JobRecord :=
  { id := 2, task := "t", core := 0, arrival := 12000, exit := 0, execution := 0 }

/-- Each of the two jobs is seen running, and later on judged. -/
def watching : List Request :=
  [.setGoal { goal := .fairness },
    .poll { now := 2000, jobs := [{ punctualJob with id := 1, arrival := 1000 }], terminated := [] },
    .poll { now := 12000, jobs := [], terminated := [⟨1, 11500⟩] },
    .poll { now := 13000, jobs := [punctualJob], terminated := [⟨1, 11500⟩] },
    .poll { now := 23000, jobs := [{ punctualJob with exit := 15000 }], terminated := [⟨1, 11500⟩] }]

private theorem wellFormed_watching : WellFormed (snapshots watching) where
  now_le := by decide
  id_ne_zero := by decide
  nodup_ids := by decide
  id_eq_iff := by decide
  buries_self := by unfold Snapshot.Buries; decide
  buries_later := by unfold Snapshot.Buries; decide

/-- Both jobs are judged, each of them once. -/
theorem judged_once_watched :
    WellFormed (snapshots watching) ∧ Supervised "t" (add { cores := 1 } 0 watched).2 watching ∧
      judgements "t" ((add { cores := 1 } 0 watched).2.history watching) = [1, 2] ∧
      (judgements "t" ((add { cores := 1 } 0 watched).2.history watching)).Nodup :=
  ⟨wellFormed_watching, by decide +kernel, by decide +kernel,
    judged_once (t := watched) rfl (by decide) wellFormed_watching (by decide +kernel)⟩

end Arbiter

end RealTime
