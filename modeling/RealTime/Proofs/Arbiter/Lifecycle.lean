import Mathlib.Data.List.Induction
import RealTime.Proofs.Arbiter.Consistency
import RealTime.Proofs.Arbiter.Examinations

/-! # How the supervision of a task ends

The supervision of a task ends when the task is examined, and in no other way.  It ends if the task
waits for a job, and either its newest job has been judged and the dispatcher has started the last
one, or the newest job was terminated before its deadline.  From then on it is remembered with the
cause and the newest job, until a task of that name is added again.

* `lastJobStarted_iff`  a record tells whether the last job has been announced
* `ends_iff`            what has been seen when the supervision of a task ends
* `Gone.run`            how a task has ended is remembered
* `lifecycle_poll`      all examinations of a poll -/

namespace RealTime

namespace Examination

/-- The task waits for a job, and none will come: it has announced its last job, and the newest job
has been judged; or the newest job was terminated before its deadline. -/
structure Ends (e : Examination) (announced : Prop) (cause : EndCause) : Prop where
  awaits : Finding.Awaits e.task e.record e.snapshot
  because : match cause with
    | .finished => e.record.newest.handled = true ∧ announced
    | .killed => e.record.newest.handled = false ∧ e.record.arrival ≤ e.record.newest.arrival ∧
        ∃ t, e.snapshot.terminated.find? (·.id == e.record.newest.id) = some t ∧
          t.exit < Clock.after e.record.newest.arrival e.record.deadline

/-- The supervision of a task ends exactly upon a finding that no job will come. -/
theorem ends_iff {e : Examination} {announced : Prop} {cause : EndCause}
    (hlast : e.record.lastJobStarted = true ↔ announced) :
    e.finding.ends = some cause ↔ e.Ends announced cause := by
  constructor
  · intro hends
    obtain ⟨f, hf⟩ : ∃ f, e.finding = f := ⟨_, rfl⟩
    have hsees : f.Sees e.task e.record e.snapshot := hf ▸ Finding.sees_of ..
    rw [hf] at hends
    cases hsees with
    | finished hawaits hhandled hstarted =>
      cases hends
      exact ⟨hawaits, hhandled, hlast.1 hstarted⟩
    | killed hawaits hhandled hle hfind hexit =>
      cases hends
      exact ⟨hawaits, hhandled, hle, _, hfind, hexit⟩
    | _ => cases hends
  · rintro ⟨hawaits, hbecause⟩
    have hof : e.finding = Finding.ofAbsence e.record e.snapshot := by
      simp only [finding, Finding.of, hawaits.newJobs_eq, List.mergeSort_nil]
    rw [hof, Finding.ofAbsence, if_neg hawaits.arrival_ne, hawaits.allowed, Bool.not_true,
      if_neg Bool.false_ne_true]
    cases cause with
    | finished =>
      obtain ⟨hhandled, hannounced⟩ := hbecause
      rw [if_pos hhandled, if_pos (hlast.2 hannounced)]
      rfl
    | killed =>
      obtain ⟨hhandled, hle, t, hfind, hexit⟩ := hbecause
      rw [hhandled, if_neg Bool.false_ne_true, if_neg (Nat.not_lt.2 hle), hfind]
      simp only [if_neg (Nat.not_le.2 hexit), Finding.ends]

end Examination

namespace Arbiter

variable {a : Arbiter} {name : String} {r : Record} {s : Snapshot} {β : Type} {f : Record → β}

/-! ### What a task keeps as long as it is supervised -/

/-- An examination that does not end the supervision of the task. -/
theorem Steady.agree_examine (h : Steady f) (hr : a.tasks.get? name = some r)
    (hends : (Finding.of name r s).ends = none) : Agree f name a (a.examine name s) := by
  rw [examine_of_some hr]
  exact (agree_observeOthers a name s).trans (h.agree_conclusions hends _ r s)

/-- An examination that ends the supervision of the task. -/
theorem get?_examine_of_ends (hr : a.tasks.get? name = some r) {cause : EndCause}
    (hends : (Finding.of name r s).ends = some cause) :
    (a.examine name s).tasks.get? name = none := by
  rw [examine_of_some hr, conclusions_of_ends _ name r s hends, get?_remove]

/-- A record that is there after an examination was there before. -/
theorem Steady.examine (h : Steady f) {n : String} {r' : Record}
    (hr' : (a.examine n s).tasks.get? name = some r') :
    ∃ r, a.tasks.get? name = some r ∧ f r' = f r := by
  by_cases hne : name = n
  · subst hne
    cases hr : a.tasks.get? name with
    | none =>
      rw [examine_of_none hr, hr] at hr'
      cases hr'
    | some r =>
      rw [← hr]
      cases hends : (Finding.of name r s).ends with
      | none => exact (h.agree_examine hr hends).get? hr'
      | some cause =>
        rw [get?_examine_of_ends hr hends] at hr'
        cases hr'
  · exact (Arbiter.agree_examine hne h.toCalm h.newest a s).get? hr'

/-- A record that is there after a request was there before, or the request has added the task. -/
theorem Steady.perform (h : Steady f) {q : Request} {r' : Record}
    (hlast : q = .lastJobStarted name →
      ∀ (r : Record) (lastJobStarted : Bool), f { r with lastJobStarted } = f r)
    (hadds : ¬ a.Adds name q) (hr' : (a.perform q).2.tasks.get? name = some r') :
    ∃ r, a.tasks.get? name = some r ∧ f r' = f r := by
  by_cases hq : ∃ s, q = .poll s
  · obtain ⟨s, rfl⟩ := hq
    -- what is there after some examinations goes back to a record from before the poll
    refine poll_keeps (P := fun b => ∀ r', b.tasks.get? name = some r' →
      ∃ r, a.tasks.get? name = some r ∧ f r' = f r) ?_ (fun r hr => ⟨r, hr, rfl⟩) r' hr'
    intro b n hb r'' hr''
    obtain ⟨r', hr', heq⟩ := h.examine hr''
    obtain ⟨r, hr, heq'⟩ := hb r' hr'
    exact ⟨r, hr, heq.trans heq'⟩
  · have hview := view_perform h.toCalm h.core hlast (fun s heq => hq ⟨s, heq⟩) hadds
    rw [hr', Option.map_some] at hview
    obtain ⟨r, hr, heq⟩ := Option.map_eq_some_iff.1 hview.symm
    exact ⟨r, hr, heq.symm⟩

private theorem steady_lastJobStarted : Steady Record.lastJobStarted :=
  ⟨⟨fun _ _ => rfl, fun _ _ => rfl, fun _ _ => rfl, fun _ _ => rfl⟩, fun _ _ => rfl, fun _ _ => rfl,
    fun _ _ => rfl, fun _ _ => rfl⟩

/-! ### Announcements -/

/-- None of some requests adds a task of the name. -/
def NotAdded (name : String) : Arbiter → List Request → Prop
  | _, [] => True
  | a, q :: qs => ¬ a.Adds name q ∧ NotAdded name (a.perform q).2 qs

instance NotAdded.decidable (name : String) : ∀ (a : Arbiter) (rs : List Request),
    Decidable (NotAdded name a rs)
  | _, [] => .isTrue trivial
  | a, q :: qs =>
    @instDecidableAnd _ _ _ (NotAdded.decidable name (a.perform q).2 qs)

/-- The last job of a task has been announced, and no task of its name has been added since then. -/
def Announced (name : String) (a : Arbiter) (rs : List Request) : Prop :=
  ∃ before after, rs = before ++ .lastJobStarted name :: after ∧
    NotAdded name (a.run (before ++ [.lastJobStarted name])) after

theorem run_append (a : Arbiter) (rs qs : List Request) : a.run (rs ++ qs) = (a.run rs).run qs :=
  List.foldl_append

theorem notAdded_concat {rs : List Request} {q : Request} :
    NotAdded name a (rs ++ [q]) ↔ NotAdded name a rs ∧ ¬ (a.run rs).Adds name q := by
  induction rs generalizing a with
  | nil => exact and_comm
  | cons p rs ih =>
    rw [List.cons_append, NotAdded, NotAdded, ih, and_assoc]
    rfl

/-- An announcement counts until the task is added again. -/
theorem announced_concat {rs : List Request} {q : Request} :
    Announced name a (rs ++ [q]) ↔
      q = .lastJobStarted name ∨ Announced name a rs ∧ ¬ (a.run rs).Adds name q := by
  constructor
  · rintro ⟨before, after, heq, hnot⟩
    rcases List.eq_nil_or_concat after with rfl | ⟨after, q', rfl⟩
    · obtain ⟨-, hq⟩ := List.append_inj' heq rfl
      exact .inl (List.singleton_inj.1 hq)
    · rw [List.concat_eq_append] at heq hnot
      obtain ⟨hrs, hq⟩ := List.append_inj' (heq.trans (List.append_assoc before (_ :: after) _).symm) rfl
      obtain rfl := List.singleton_inj.1 hq
      obtain ⟨hnot, hadds⟩ := notAdded_concat.1 hnot
      refine .inr ⟨⟨before, after, hrs, hnot⟩, ?_⟩
      rwa [hrs, List.append_cons, run_append]
  · rintro (rfl | ⟨⟨before, after, rfl, hnot⟩, hadds⟩)
    · exact ⟨rs, [], rfl, trivial⟩
    · refine ⟨before, after ++ [q], by simp, notAdded_concat.2 ⟨hnot, ?_⟩⟩
      rwa [List.append_cons, run_append] at hadds

theorem lastJobStarted_of_announced
    (hr : (a.perform (.lastJobStarted name)).2.tasks.get? name = some r) :
    r.lastJobStarted = true := by
  change (a.lastJobStarted name).2.tasks.get? name = some r at hr
  unfold lastJobStarted at hr
  split at hr
  · rw [get?_modify, if_pos rfl] at hr
    obtain ⟨r, -, rfl⟩ := Option.map_eq_some_iff.1 hr
    rfl
  · rename_i hout
    exact absurd (OrderedMap.contains_iff.2 ⟨r, hr⟩) hout

theorem lastJobStarted_of_adds {q : Request} (hadds : a.Adds name q)
    (hr : (a.perform q).2.tasks.get? name = some r) : r.lastJobStarted = false := by
  cases q with
  | add core t =>
    obtain ⟨rfl, hcore, hnew⟩ := hadds
    change (a.add core t).2.tasks.get? t.name = some r at hr
    rw [add_of_new hcore hnew, OrderedMap.get?_insert, if_pos rfl] at hr
    cases hr
    rfl
  | _ => cases hadds

/-- A record tells whether the last job of the task has been announced. -/
theorem lastJobStarted_iff {cores : Nat} {rs : List Request}
    (hr : (run { cores } rs).tasks.get? name = some r) :
    r.lastJobStarted = true ↔ Announced name { cores } rs := by
  induction rs using List.reverseRecOn generalizing r with
  | nil => cases hr
  | append_singleton rs q ih =>
    rw [run_append] at hr
    rw [announced_concat]
    by_cases hq : q = .lastJobStarted name
    · subst hq
      exact iff_of_true (lastJobStarted_of_announced hr) (.inl rfl)
    · by_cases hadds : (run { cores } rs).Adds name q
      · rw [lastJobStarted_of_adds hadds hr]
        exact iff_of_false Bool.false_ne_true fun h => h.elim hq (·.2 hadds)
      · obtain ⟨r', hr', heq⟩ := steady_lastJobStarted.perform (fun h => absurd h hq) hadds hr
        rw [heq, ih hr']
        exact ⟨fun h => .inr ⟨h, hadds⟩, fun h => (h.resolve_left hq).1⟩

/-! ### What is remembered -/

/-- A task is not supervised any more, and it is remembered how it has ended. -/
structure Gone (name : String) (how : Ended) (a : Arbiter) : Prop where
  get?_eq_none : a.tasks.get? name = none
  ended : a.ended.get? name = some how

/-- As long as the task does not end again, it is supervised, or it is remembered how it has
ended. -/
theorem stable_remembered (name : String) (how : Ended) : Stable fun a =>
    a.tasks.contains name = true ∨ a.ended.get? name = some how where
  kept := fun hk h => by rwa [hk.contains, hk.ended]
  add := fun {a core t} hcore hnew h => by
    simp only [add_of_new hcore hnew, OrderedMap.contains, OrderedMap.get?_insert,
      OrderedMap.get?_erase]
    split
    · exact .inl rfl
    · exact h
  blame := fun {a n cause} _ _ _ h => by
    rwa [(agree_blame steady_supervised.toCalm a n cause).contains, ended_blame]

/-- What is remembered of a task right after the end of its supervision. -/
theorem ended_remove (hr : a.tasks.get? name = some r) (lastJob : Nat) (cause : EndCause) :
    (a.remove name lastJob cause).ended = (a.forget name ⟨lastJob, cause⟩).ended :=
  (kept_remove hr lastJob cause).ended.trans (ended_leaveGroup _ name r)

namespace Gone

variable {how : Ended}

private theorem of_stable (h : Gone name how a) {b : Arbiter}
    (hnone : ∀ r, b.tasks.get? name = some r → ∃ r, a.tasks.get? name = some r)
    (hb : b.tasks.contains name = true ∨ b.ended.get? name = some how) : Gone name how b := by
  have hget : b.tasks.get? name = none := by
    refine Option.eq_none_iff_forall_ne_some.2 fun r hr => ?_
    obtain ⟨r, hr⟩ := hnone r hr
    rw [h.get?_eq_none] at hr
    cases hr
  refine ⟨hget, hb.resolve_left fun hin => ?_⟩
  rw [OrderedMap.contains_eq_false_iff.2 hget] at hin
  cases hin

/-- The end of another task is remembered besides. -/
theorem examine (h : Gone name how a) (n : String) (s : Snapshot) :
    Gone name how (a.examine n s) := by
  refine h.of_stable (fun r hr => ?_) ?_
  · obtain ⟨r, hr, -⟩ := steady_supervised.examine hr
    exact ⟨r, hr⟩
  · cases hr : a.tasks.get? n with
    | none =>
      rw [examine_of_none hr]
      exact .inr h.ended
    | some r =>
      have hne : name ≠ n := by
        rintro rfl
        rw [h.get?_eq_none] at hr
        cases hr
      have hk := kept_observeOthers a n s
      rw [examine_of_some hr]
      cases hends : (Finding.of n r s).ends with
      | none =>
        exact (stable_remembered name how).conclusions (.inr (hk.ended ▸ h.ended)) n r s hends
      | some cause =>
        obtain ⟨r', hr', -⟩ := hk.get?_of_get? hr
        right
        rw [conclusions_of_ends _ n r s hends, ended_remove hr', get?_ended_forget, if_neg hne,
          hk.ended]
        exact h.ended

/-- Nothing but a request that adds a task of the name makes the arbiter forget. -/
theorem perform (h : Gone name how a) {q : Request} (hadds : ¬ a.Adds name q) :
    Gone name how (a.perform q).2 := by
  by_cases hq : ∃ s, q = .poll s
  · obtain ⟨s, rfl⟩ := hq
    exact poll_keeps (fun n hb => hb.examine n s) h
  · refine h.of_stable (fun r hr => ?_)
      ((stable_remembered name how).perform (.inr h.ended) fun s heq => hq ⟨s, heq⟩)
    obtain ⟨r, hr, -⟩ := steady_supervised.perform (fun _ _ _ => rfl) hadds hr
    exact ⟨r, hr⟩

/-- How a task has ended is remembered until a task of its name is added. -/
theorem run (h : Gone name how a) {rs : List Request} (hnot : NotAdded name a rs) :
    Gone name how (a.run rs) := by
  induction rs generalizing a with
  | nil => exact h
  | cons q rs ih => exact ih (h.perform hnot.1) hnot.2

/-- Whoever asks for the permission of the task is told how it has ended. -/
theorem isAllowed_eq (h : Gone name how a) :
    a.isAllowed name = .error (.notTracked name (some how.cause)) := by
  rw [isAllowed, h.get?_eq_none, notTracked, h.ended]
  rfl

end Gone

/-- An examination that ends the supervision of the task. -/
theorem gone_examine (h : a.Consistent) (hr : a.tasks.get? name = some r) {cause : EndCause}
    (hends : (Finding.of name r s).ends = some cause) :
    Gone name ⟨r.newest.id, cause⟩ (a.examine name s) := by
  refine ⟨get?_examine_of_ends hr hends, ?_⟩
  have hk := kept_observeOthers a name s
  obtain ⟨r', hr', -⟩ := hk.get?_of_get? hr
  have hout := h.not_ended (OrderedMap.contains_iff.2 ⟨r, hr⟩)
  rw [examine_of_some hr, conclusions_of_ends _ name r s hends, ended_remove hr', get?_ended_forget,
    if_pos rfl, hk.ended, OrderedMap.contains_eq_false_iff.1 hout]
  rfl

/-! ### All polls -/

/-- The examinations of a poll are those of the tasks that are due. -/
theorem map_task_examinationsOf (hactive : a.config.goal.isActive = true) :
    (a.examinationsOf (.poll s)).map (·.task) = a.dueTasks s.now := by
  rw [examinationsOf, if_pos hactive]
  refine map_task_examinations (OrderedMap.nodup_keys _) fun n hn => ?_
  obtain ⟨⟨n, r⟩, he, rfl⟩ := List.mem_map.1 hn
  exact OrderedMap.contains_of_mem_entries (List.mem_filter.1 he).1

/-- A poll answers how many tasks were due when it started. -/
theorem perform_poll_fst (hactive : a.config.goal.isActive = true) :
    (a.perform (.poll s)).1 = .ok (a.dueTasks s.now).length := by
  rw [← map_task_examinationsOf hactive, List.length_map, examinationsOf, if_pos hactive]
  simp only [perform, poll_eq, if_pos hactive]

/-- When the turn of a task comes, its record still tells whether its last job has been announced. -/
theorem lastJobStarted_iff_of_mem {cores : Nat} {rs : List Request} {e : Examination}
    (he : e ∈ (run { cores } rs).examinationsOf (.poll s)) :
    e.record.lastJobStarted = true ↔ Announced e.task { cores } rs := by
  rw [examinationsOf] at he
  split at he
  · obtain ⟨-, -, r, hr, heq⟩ := record_of_mem_examinations steady_lastJobStarted.toCalm
      (fun _ _ => rfl) (OrderedMap.nodup_keys _) he
    rw [heq, lastJobStarted_iff hr]
  · cases he

/-- What is remembered of a task is still known when the poll is over. -/
theorem Gone.poll {how : Ended} {e : Examination} (he : e ∈ a.examinationsOf (.poll s))
    (h : Gone name how e.after) : Gone name how (a.perform (.poll s)).2 := by
  have hpoll : ∀ e ∈ [] ++ a.examinationsOf (.poll s), Gone name how e.after →
      Gone name how (a.perform (.poll s)).2 :=
    poll_rec (motive := fun es b => ∀ e ∈ es, Gone name how e.after → Gone name how b)
      (fun _ hes e he h => by
        rcases List.mem_append.1 he with he | he
        · exact (hes e he h).examine _ s
        · rw [List.mem_singleton.1 he] at h
          exact h)
      fun _ h => nomatch h
  exact hpoll e he h

/-- A poll examines the tasks that are due when it starts, and answers how many these are.  No
examination ends the supervision of another task; that of the task itself ends exactly if the task
waits for a job that will not come.  It is remembered why, until a task of the name is added. -/
theorem lifecycle_poll (cores : Nat) (rs : List Request) (s : Snapshot)
    (hactive : (run { cores } rs).config.goal.isActive = true) :
    let a := run { cores } rs
    (a.perform (.poll s)).1 = .ok (a.dueTasks s.now).length ∧
    (a.examinationsOf (.poll s)).map (·.task) = a.dueTasks s.now ∧
    ∀ e ∈ a.examinationsOf (.poll s),
      (∀ n, n ≠ e.task → e.after.tasks.contains n = e.arbiter.tasks.contains n) ∧
      (e.after.tasks.contains e.task = false ↔
        ∃ cause, e.Ends (Announced e.task { cores } rs) cause) ∧
      ∀ cause, e.Ends (Announced e.task { cores } rs) cause →
        Gone e.task ⟨e.record.newest.id, cause⟩ e.after ∧
        ∀ later, NotAdded e.task (a.perform (.poll s)).2 later →
          Gone e.task ⟨e.record.newest.id, cause⟩ ((a.perform (.poll s)).2.run later) ∧
          ((a.perform (.poll s)).2.run later).isAllowed e.task =
            .error (.notTracked e.task (some cause)) := by
  intro a
  refine ⟨perform_poll_fst hactive, map_task_examinationsOf hactive, fun e he =>
    ⟨fun n hn => ?others, ?ends, fun cause hends => ?remembered⟩⟩
  case others => exact (agree_examine hn calm_supervised (fun _ _ => rfl) _ _).contains
  all_goals
    have hlast := lastJobStarted_iff_of_mem he
    have hhistory : e ∈ a.history [.poll s] := List.mem_append_left _ he
    have hr := get?_of_mem_history hhistory
    have hcons := invariant_consistent.of_mem_history (run_consistent cores rs) hhistory
  case ends =>
    constructor
    · intro hout
      cases hends : e.finding.ends with
      | none =>
        rw [Examination.after, (steady_supervised.agree_examine hr hends).contains,
          OrderedMap.contains_iff.2 ⟨_, hr⟩] at hout
        cases hout
      | some cause => exact ⟨cause, (Examination.ends_iff hlast).1 hends⟩
    · rintro ⟨cause, hends⟩
      exact OrderedMap.contains_eq_false_iff.2
        (get?_examine_of_ends hr ((Examination.ends_iff hlast).2 hends))
  case remembered =>
    have hgone := gone_examine (s := e.snapshot) hcons hr ((Examination.ends_iff hlast).2 hends)
    refine ⟨hgone, fun later hnot => ?_⟩
    have hlater := (hgone.poll he).run hnot
    exact ⟨hlater, hlater.isAllowed_eq⟩

/-! Of three tasks one announces its last job, one is terminated, and one only pauses. -/

/-- A job of `f`, which is the last one, and a job of `w`. -/
def lastSeen : List JobRecord :=
  [{ id := 1, task := "f", core := 0, arrival := 1000, exit := 3000, execution := 1000 },
    { id := 3, task := "w", core := 0, arrival := 1000, exit := 5000, execution := 1000 }]

/-- The jobs of `f` and `w` keep their deadlines, and a job of `k` is seen while it is running. -/
def farewell : List Request :=
  [.setGoal { goal := .fairness },
    .add 0 { name := "f", deadline := 10000, interArrival := 10000 },
    .add 0 { name := "k", deadline := 30000, interArrival := 30000 },
    .add 0 { name := "w", deadline := 10000, interArrival := 10000 },
    .poll { now := 6000, terminated := []
            jobs := lastSeen ++
              [{ id := 2, task := "k", core := 0, arrival := 1000, exit := 0, execution := 0 }] },
    .lastJobStarted "f",
    .poll { now := 12000, jobs := lastSeen, terminated := [] }]

/-- The job of `k` has been terminated, and there are no others. -/
def silence : Snapshot := { now := 31000, jobs := lastSeen, terminated := [⟨2, 20000⟩] }

/-- The examinations of the poll after that. -/
def farewells : List Examination := (run { cores := 1 } farewell).examinationsOf (.poll silence)

private theorem announced_farewell : Announced "f" { cores := 1 } farewell :=
  ⟨farewell.take 5, farewell.drop 6, rfl, by decide +kernel⟩

/-- The poll examines all three.  Whatever is asked later, `f` has finished, `k` has been killed, and
`w` is still supervised. -/
theorem lifecycle_farewell :
    let a := run { cores := 1 } farewell
    let b := (a.perform (.poll silence)).2
    a.config.goal.isActive = true ∧ (a.perform (.poll silence)).1 = .ok 3 ∧
      (∀ later, NotAdded "f" b later →
        (b.run later).isAllowed "f" = .error (.notTracked "f" (some .finished))) ∧
      (∀ later, NotAdded "k" b later →
        (b.run later).isAllowed "k" = .error (.notTracked "k" (some .killed))) ∧
      b.isAllowed "w" = .ok true := by
  intro a b
  have hactive : a.config.goal.isActive = true := by decide +kernel
  obtain ⟨hcount, -, hall⟩ := lifecycle_poll 1 farewell silence hactive
  have hf := hall (farewells.get ⟨0, by decide +kernel⟩) (List.get_mem _ _)
  have hk := hall (farewells.get ⟨1, by decide +kernel⟩) (List.get_mem _ _)
  rw [show (farewells.get ⟨0, by decide +kernel⟩).task = "f" by decide +kernel] at hf
  rw [show (farewells.get ⟨1, by decide +kernel⟩).task = "k" by decide +kernel] at hk
  have hfinished := hf.2.2 .finished
    { awaits := ⟨by decide +kernel, by decide +kernel, by decide +kernel⟩
      because := ⟨by decide +kernel, announced_farewell⟩ }
  have hkilled := hk.2.2 .killed
    { awaits := ⟨by decide +kernel, by decide +kernel, by decide +kernel⟩
      because := ⟨by decide +kernel, by decide +kernel, ⟨2, 20000⟩, by decide +kernel,
        by decide +kernel⟩ }
  exact ⟨hactive, hcount.trans (by decide +kernel), fun later hnot => (hfinished.2 later hnot).2,
    fun later hnot => (hkilled.2 later hnot).2, by decide +kernel⟩

end Arbiter

end RealTime
