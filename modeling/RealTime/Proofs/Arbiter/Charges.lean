import RealTime.Proofs.Arbiter.JudgedOnce
import RealTime.Proofs.Arbiter.Verdicts

/-! # What a task is charged for

A task is charged for a missed deadline and for a job that was denied.  Nothing in the records says
which releases have been charged: an examination that charges moves the release of the task on, so
that the next one looks at later jobs only.

There are two exceptions.  When a job was terminated too late, the release stays, and the task may
be denied and charged for the same release again.  And two jobs that arrived at time 0 leave the
release at 0, which stands for a task that has not been seen.

* `rises_examine`        the debts of a task rise by no more than it is charged
* `isDue_of_mem_history` only tasks that are due are examined
* `moves_or_stays`       an examination that charges moves the release
* `charged_once`         all charges after a history of requests -/

namespace RealTime

/-- Changing a debt by at most `n`. -/
theorem Record.debtOn_modifyDebt_le (r : Record) (core : Nat) {f : Nat → Nat} {n : Nat}
    (hf : ∀ d, f d ≤ d + n) (other : Nat) :
    (r.modifyDebt core f).debtOn other ≤ r.debtOn other + n := by
  simp only [modifyDebt, debtOn, List.getElem?_modify]
  cases r.debts[other]? with
  | none => exact Nat.zero_le _
  | some d =>
    by_cases heq : core = other
    · simpa [heq] using hf d
    · simp [heq]

namespace Finding.Sees

variable {name : String} {r : Record} {s : Snapshot} {f : Finding}

/-- An examination never moves the release of the task back. -/
theorem arrival_le (h : f.Sees name r s) : r.arrival ≤ (r.course.next f).arrival := by
  cases h with
  | denied => exact Clock.le_after _ _
  | running hnew => exact (mem_newJobs.1 (hnew ▸ List.mem_cons_self)).2.2.1
  | due hnew =>
    exact Nat.le_trans (mem_newJobs.1 (hnew ▸ List.mem_cons_self)).2.2.1 (Clock.le_after _ _)
  | overtaken hnew => exact (mem_newJobs.1 hnew.mem_latest).2.2.1
  | bothDue hnew => exact Nat.le_trans (mem_newJobs.1 hnew.mem_latest).2.2.1 (Clock.le_after _ _)
  | _ => exact Nat.le_refl _

end Finding.Sees

namespace Examination

/-- How often the task is charged. -/
def charges (e : Examination) : Nat :=
  match e.finding with
  | .denied | .terminatedLate => 1
  | _ => e.late.length

/-- The period is positive and the clock has not come to its limit. -/
structure Timely (e : Examination) : Prop where
  period : 0 < e.record.interArrival
  arrival_lt : e.record.arrival < Clock.limit
  now_le : e.snapshot.now ≤ Clock.limit

/-- The release of the task moves on. -/
def Moves (e : Examination) : Prop :=
  ∃ r, e.after.tasks.get? e.task = some r ∧ e.record.arrival < r.arrival

/-- The newest job was terminated too late, or two jobs arrived at time 0 and the deadline of neither
has passed. -/
def Stays (e : Examination) : Prop :=
  e.finding = .terminatedLate ∨
    ∃ earlier latest, e.finding = .overtaken earlier latest ∧ latest.arrival = 0

end Examination

namespace Arbiter

variable {a b c : Arbiter} {name : String} {r : Record} {s : Snapshot} {e : Examination} {n m : Nat}

/-! ### Debts -/

/-- On no core does the debt of a task rise by more than `n`. -/
def Rises (n : Nat) (name : String) (a b : Arbiter) : Prop :=
  ∀ r', b.tasks.get? name = some r' →
    ∃ r, a.tasks.get? name = some r ∧ ∀ core, r'.debtOn core ≤ r.debtOn core + n

theorem Rises.trans (h : Rises n name a b) (h' : Rises m name b c) : Rises (n + m) name a c := by
  intro r'' hr''
  obtain ⟨r', hr', hle'⟩ := h' r'' hr''
  obtain ⟨r, hr, hle⟩ := h r' hr'
  refine ⟨r, hr, fun core => ?_⟩
  have := hle core
  have := hle' core
  omega

/-- Before a charge nothing may have risen. -/
theorem Rises.trans_right (h : Rises 0 name a b) (h' : Rises n name b c) : Rises n name a c := by
  rw [← Nat.zero_add n]
  exact h.trans h'

theorem rises_of_agree (h : Agree Record.debts name a b) : Rises 0 name a b := by
  intro r' hr'
  obtain ⟨r, hr, heq⟩ := h.get? hr'
  exact ⟨r, hr, fun core => by rw [Record.debtOn, heq]; exact Nat.le_refl _⟩

theorem rises_modify {f : Record → Record} (hf : ∀ r core, (f r).debtOn core ≤ r.debtOn core + n)
    (a : Arbiter) (other : String) : Rises n name a (a.modify other f) := by
  intro r' hr'
  rw [get?_modify] at hr'
  split at hr'
  · obtain ⟨r, hr, rfl⟩ := Option.map_eq_some_iff.1 hr'
    exact ⟨r, hr, hf r⟩
  · exact ⟨r', hr', fun core => Nat.le_add_right _ _⟩

/-- Settling takes debts away. -/
theorem rises_settle (a : Arbiter) (other : String) : Rises 0 name a (a.settle other) := by
  have hself : Rises 0 name a a := rises_of_agree (.refl a)
  simp only [settle]
  split
  · exact hself
  · split
    · exact hself
    · split
      · exact hself
      · refine List.foldlRecOn (motive := fun b => Rises 0 name a b) _ _ hself ?_
        intro b hb member _
        exact hb.trans_right (rises_modify
          (fun r => r.debtOn_modifyDebt_le _ fun d => Nat.sub_le d _) b member)

/-- A charge is one more debt. -/
theorem rises_charge (a : Arbiter) (other : String) : Rises 1 name a (a.charge other) := by
  have hraise : Rises 1 name a (a.modify other fun r => r.modifyDebt r.core Debt.raise) := by
    refine rises_modify (fun r => r.debtOn_modifyDebt_le _ fun d => ?_) a other
    unfold Debt.raise
    split <;> omega
  have hdecide := fun b : Arbiter =>
    rises_of_agree (agree_arbitrate (n := name) (f := Record.debts) (fun _ _ => rfl) b other)
  simp only [charge]
  split
  · exact hraise.trans (hdecide _)
  · exact (hraise.trans (rises_settle _ other)).trans (hdecide _)

theorem rises_miss (a : Arbiter) (other : String) (released : Nat) (s : Snapshot) :
    Rises 1 name a (a.miss other released s) := by
  simp only [miss]
  split
  · split
    · exact rises_charge a other
    · rename_i cause _
      -- blaming writes competitors, then groups
      have hnamed : Agree Record.debts name a (a.modify other fun r =>
          { r with competitors := r.competitors.insert cause }) := agree_modify fun _ _ _ => rfl
      have hblame := hnamed.trans (agree_blame_of_named (fun _ _ => rfl) a other cause)
      exact (rises_of_agree hblame).trans_right (rises_charge _ other)
  · exact fun r hr => ⟨r, hr, fun _ => Nat.le_succ _⟩

/-! ### Judgements -/

/-- A kept deadline takes debts away. -/
theorem debtOn_reward_le (r : Record) (job : JobRecord) (core : Nat) :
    (reward r job).debtOn core ≤ r.debtOn core := by
  have hless : (r.modifyDebt r.core (· - 1)).debtOn core ≤ r.debtOn core + 0 :=
    r.debtOn_modifyDebt_le _ (fun d => Nat.sub_le d 1) core
  simp only [reward]
  split
  · exact hless
  · exact hless

private theorem rises_follow (a : Arbiter) (name : String) (core : Nat) :
    Rises 0 name a (a.modify name (·.follow core a.cores)) :=
  rises_of_agree (agree_follow (fun _ _ _ => rfl) a core)

/-- Judging a job charges for it if it is missed. -/
theorem rises_judge (a : Arbiter) (name : String) (job : JobRecord) (s : Snapshot) :
    Rises (a.missed name s [job]).length name a (a.judge name job s) := by
  have hfollow := rises_follow a name job.core
  simp only [missed, judge]
  cases (a.modify name (·.follow job.core a.cores)).tasks.get? name with
  | none => exact hfollow
  | some r =>
    dsimp only
    split
    · have hreward : ∀ (r : Record) (core : Nat), (reward r job).debtOn core ≤ r.debtOn core + 0 :=
        fun r => debtOn_reward_le r job
      exact hfollow.trans_right (rises_modify hreward _ name)
    · exact hfollow.trans_right (rises_miss _ name job.arrival s)

theorem length_missed_cons (a : Arbiter) (name : String) (s : Snapshot) (job : JobRecord)
    (jobs : List JobRecord) :
    (a.missed name s (job :: jobs)).length =
      (a.missed name s [job]).length + ((a.judge name job s).missed name s jobs).length := by
  simp only [missed]
  split
  · rw [List.length_nil, Nat.zero_add]
  · split
    · rw [List.length_nil, Nat.zero_add]
    · rw [List.length_cons, List.length_singleton, Nat.add_comm]

/-- Judging jobs, one after the other, charges for those that are missed. -/
theorem rises_judgeAll (a : Arbiter) (name : String) (s : Snapshot) (jobs : List JobRecord) :
    Rises (a.missed name s jobs).length name a
      (jobs.foldl (fun a job => a.judge name job s) a) := by
  induction jobs generalizing a with
  | nil => exact rises_of_agree (.refl a)
  | cons job jobs ih =>
    rw [length_missed_cons]
    exact (rises_judge a name job s).trans (ih (a.judge name job s))

/-! ### Examinations -/

private theorem debts_observe (r : Record) (job : JobRecord) : (r.observe job).debts = r.debts :=
  apply_observe (fun _ _ => rfl) r job

/-- Concluding a judgement charges for nothing. -/
private theorem rises_conclude (a : Arbiter) (name : String) (job : JobRecord) :
    Rises 0 name a (a.conclude name job) := by
  refine rises_of_agree (((agree_arbitrate (fun _ _ => rfl) a name).trans
    (agree_modify fun _ r _ => debts_observe r job)).trans (agree_modify fun _ r _ => ?_))
  split <;> rfl

/-- The debts of a task rise by no more than it is charged. -/
theorem rises_examine (he : e.arbiter.tasks.get? e.task = some e.record) :
    Rises e.charges e.task e.arbiter e.after := by
  obtain ⟨a, name, r, s⟩ := e
  have hothers : Rises 0 name a (a.observeOthers name s) :=
    rises_of_agree (agree_observeOthers a name s)
  have hquiet : ∀ {n : Nat} {b c : Arbiter} {f : Record → Record}, (∀ r, (f r).debts = r.debts) →
      Rises n name b c → Rises n name b (c.modify name f) :=
    fun hf h => h.trans (rises_of_agree (agree_modify fun _ r _ => hf r))
  have hjudged : ∀ {b : Arbiter}, Rises 0 name a b → ∀ (jobs : List JobRecord) (job : JobRecord),
      Rises (b.missed name s jobs).length name a
        ((jobs.foldl (fun a job => a.judge name job s) b).conclude name job) :=
    fun hb jobs job => (hb.trans_right (rises_judgeAll _ name s jobs)).trans (rises_conclude _ name job)
  rw [Examination.after, examine_of_some he]
  simp only [Examination.charges, Examination.finding, Examination.late, Examination.start]
  cases Finding.of name r s with
  | unseen => exact hothers
  | missing => exact hothers
  | outdated => exact hothers
  | vanished => exact hothers
  | finished =>
    intro r' hr'
    rw [conclusions, get?_remove] at hr'
    cases hr'
  | killed =>
    intro r' hr'
    rw [conclusions, get?_remove] at hr'
    cases hr'
  | denied =>
    have hmove : Rises 0 name a ((a.observeOthers name s).modify name fun r =>
        { r with arrival := Clock.after r.arrival r.interArrival }) := hquiet (fun _ => rfl) hothers
    exact hmove.trans_right (rises_charge _ name)
  | terminatedLate =>
    have hfollow := hothers.trans (rises_follow _ name r.newest.core)
    exact hquiet (fun _ => rfl) (hfollow.trans_right (rises_miss _ name r.newest.arrival s))
  | running job => exact hquiet (fun _ => rfl) (hquiet (debts_observe · job) hothers)
  | due job => exact hquiet (fun _ => rfl) (hjudged hothers [job] job)
  | overtaken earlier latest =>
    have hobserve := hquiet (debts_observe · latest) hothers
    exact hquiet (fun _ => rfl) (hjudged hobserve [earlier] earlier)
  | bothDue earlier latest =>
    exact hquiet (fun _ => rfl) (hjudged hothers [earlier, latest] latest)

/-! ### Tasks that are due -/

/-- When a task is to be examined is told by its release and its deadline. -/
private def window (r : Record) : Nat × Nat := (r.arrival, r.deadline)

private theorem isDue_congr {r r' : Record} (h : window r' = window r) (now : Nat) :
    isDue now r' = isDue now r := by
  obtain ⟨harrival, hdeadline⟩ := Prod.mk.inj h
  rw [isDue, isDue, Record.absoluteDeadline, Record.absoluteDeadline, harrival, hdeadline]

private theorem calm_window : Calm window :=
  ⟨fun _ _ => rfl, fun _ _ => rfl, fun _ _ => rfl, fun _ _ => rfl⟩

/-- Tasks that are due stay due until their turn comes. -/
theorem isDue_of_mem_examinations {names : List String} (hnodup : names.Nodup)
    (hdue : ∀ n ∈ names, ∀ r, a.tasks.get? n = some r → isDue s.now r = true)
    (he : e ∈ a.examinations s names) : isDue e.snapshot.now e.record = true := by
  obtain ⟨hs, hmem, r, hr, heq⟩ :=
    record_of_mem_examinations calm_window (fun _ _ => rfl) hnodup he
  rw [hs, isDue_congr heq]
  exact hdue e.task hmem r hr

/-- Only tasks that are due are examined. -/
theorem isDue_of_mem_history {rs : List Request} (he : e ∈ a.history rs) :
    isDue e.snapshot.now e.record = true := by
  induction rs generalizing a with
  | nil => cases he
  | cons q rs ih =>
    rw [history] at he
    rcases List.mem_append.1 he with he | he
    · cases q with
      | poll s =>
        simp only [examinationsOf] at he
        split at he
        · exact isDue_of_mem_examinations (OrderedMap.nodup_keys _)
            (fun n hn r hr => OrderedMap.of_mem_keys_filter (p := fun _ r => isDue s.now r) hn hr) he
        · cases he
      | _ => cases he
    · exact ih he

/-! ### Releases -/

/-- An examination that ends no supervision takes the course of the task on. -/
theorem exists_after {rs : List Request} (he : e ∈ a.history rs) (hends : e.finding.ends = none) :
    ∃ r, e.after.tasks.get? e.task = some r ∧ r.course = e.record.course.next e.finding := by
  have hcourse := course?_examine (get?_of_mem_history he) e.snapshot
  rw [← Examination.finding, hends, Option.isSome_none, if_neg Bool.false_ne_true] at hcourse
  exact Option.map_eq_some_iff.1 hcourse

/-- An examination that charges moves the release of the task on, with two exceptions. -/
theorem moves_or_stays {rs : List Request} (he : e ∈ a.history rs) (htimely : e.Timely)
    (hcharged : 0 < e.charges) : e.Moves ∨ e.Stays := by
  obtain ⟨f, hf⟩ : ∃ f, e.finding = f := ⟨_, rfl⟩
  have hsees : f.Sees e.task e.record e.snapshot := hf ▸ Finding.sees_of ..
  have hmoves (hends : f.ends = none) (hlt : e.record.arrival < (e.record.course.next f).arrival) :
      e.Moves := by
    obtain ⟨r, hr, hcourse⟩ := exists_after he (hf ▸ hends)
    rw [hf] at hcourse
    rw [← hcourse] at hlt
    exact ⟨r, hr, hlt⟩
  -- a new job has arrived by now, so one period later is later still
  have hafter {j : JobRecord} (hj : j ∈ Finding.newJobs e.task e.record e.snapshot) :
      e.record.arrival < Clock.after j.arrival e.record.interArrival := by
    obtain ⟨-, -, hle, hlt⟩ := Finding.mem_newJobs.1 hj
    have hlimit := Nat.lt_of_lt_of_le hlt htimely.now_le
    exact Nat.lt_of_le_of_lt hle (Clock.lt_after hlimit htimely.period)
  cases hsees with
  | denied => exact .inl (hmoves rfl (Clock.lt_after htimely.arrival_lt htimely.period))
  | terminatedLate => exact .inr (.inl hf)
  | due hnew => exact .inl (hmoves rfl (hafter (hnew ▸ List.mem_cons_self)))
  | bothDue hnew => exact .inl (hmoves rfl (hafter hnew.mem_latest))
  | @overtaken earlier latest hnew hahead =>
    have hle := (Finding.mem_newJobs.1 hnew.mem_latest).2.2.1
    rcases Nat.lt_or_eq_of_le hle with hlt | heq
    · exact .inl (hmoves rfl hlt)
    · -- the deadline is ahead, so the task is examined because it has not been seen
      right
      right
      have hdue := isDue_of_mem_history he
      rw [isDue, Record.absoluteDeadline, heq, Bool.or_eq_true, decide_eq_true_eq,
        decide_eq_true_eq] at hdue
      exact ⟨earlier, latest, hf, hdue.resolve_right (Nat.not_le.2 hahead)⟩
  | _ =>
    -- nothing else is charged for
    simp only [Examination.charges, Examination.late, hf, Finding.judged, missed, List.length_nil,
      Nat.lt_irrefl] at hcharged

/-- The releases of a task that some examinations have looked at, one after the other, and the one
that it has now. -/
structure Ascending (name : String) (es : List Examination) (a : Arbiter) : Prop where
  pairwise : (es.filter (·.task = name)).Pairwise fun e e' =>
    ∀ r, e.after.tasks.get? name = some r → r.arrival ≤ e'.record.arrival
  now : ∀ e ∈ es, e.task = name → ∀ r r', e.after.tasks.get? name = some r →
    a.tasks.get? name = some r' → r.arrival ≤ r'.arrival

/-- The release of a task does not change. -/
theorem Ascending.congr {es : List Examination} (h : Ascending name es a)
    (hsame : ∀ r', b.tasks.get? name = some r' →
      ∃ r, a.tasks.get? name = some r ∧ r'.arrival = r.arrival) : Ascending name es b where
  pairwise := h.pairwise
  now := fun e he htask r r'' hr hr'' => by
    obtain ⟨r', hr', heq⟩ := hsame r'' hr''
    rw [heq]
    exact h.now e he htask r r' hr hr'

private theorem calm_arrival : Calm Record.arrival :=
  ⟨fun _ _ => rfl, fun _ _ => rfl, fun _ _ => rfl, fun _ _ => rfl⟩

/-- An examination looks at the release that the task has, and leaves it or a later one. -/
theorem Ascending.examine {es : List Examination} {n : String} (h : Ascending name es a)
    (hr : a.tasks.get? n = some r) (s : Snapshot) :
    Ascending name (es ++ [⟨a, n, r, s⟩]) (a.examine n s) := by
  by_cases hn : n = name
  · subst hn
    have hle : ∀ {r'}, (a.examine n s).tasks.get? n = some r' → r.arrival ≤ r'.arrival := by
      intro r' hr'
      have hcourse := course?_examine hr s
      rw [course?, hr', Option.map_some] at hcourse
      split at hcourse
      · cases hcourse
      · have harrival := congrArg Course.arrival (Option.some.inj hcourse)
        rw [Record.course_arrival] at harrival
        rw [harrival]
        exact (Finding.sees_of n r s).arrival_le
    refine ⟨?_, fun e he htask r₁ r₂ hr₁ hr₂ => ?_⟩
    · rw [List.filter_append, List.filter_cons_of_pos (by simp), List.filter_nil,
        List.pairwise_append]
      refine ⟨h.pairwise, List.pairwise_singleton _ _, fun e he e' he' r₁ hr₁ => ?_⟩
      obtain rfl := List.mem_singleton.1 he'
      obtain ⟨he, htask⟩ := List.mem_filter.1 he
      exact h.now e he (of_decide_eq_true htask) r₁ r hr₁ hr
    · rcases List.mem_append.1 he with he | he
      · exact Nat.le_trans (h.now e he htask r₁ r hr₁ hr) (hle hr₂)
      · obtain rfl := List.mem_singleton.1 he
        obtain rfl := Option.some.inj (hr₁.symm.trans hr₂)
        exact Nat.le_refl _
  · have hagree := agree_examine (Ne.symm hn) calm_arrival (fun _ _ => rfl) a s
    refine ⟨?_, fun e he htask => ?_⟩
    · rw [List.filter_append, List.filter_cons_of_neg (by simpa using hn), List.filter_nil,
        List.append_nil]
      exact h.pairwise
    · rcases List.mem_append.1 he with he | he
      · exact (h.congr fun _ hr' => hagree.get? hr').now e he htask
      · obtain rfl := List.mem_singleton.1 he
        exact absurd htask hn

/-- The releases that a whole history looks at. -/
theorem Ascending.history {es : List Examination} {rs : List Request} (h : Ascending name es a)
    (hsup : Supervised name a rs) :
    Ascending name (es ++ a.history rs) (a.run rs) := by
  induction rs generalizing es a with
  | nil =>
    rw [Arbiter.history, List.append_nil]
    exact h
  | cons q rs ih =>
    obtain ⟨hin, hsup⟩ := hsup
    rw [Arbiter.history, ← List.append_assoc]
    refine ih ?_ hsup
    -- no other request examines a task or moves its release
    have hother (hq : ∀ s, q ≠ .poll s) : Ascending name es (a.perform q).2 := by
      refine h.congr fun r' hr' => ?_
      have hcourse := course?_perform hq hin
      rw [course?, hr', Option.map_some] at hcourse
      obtain ⟨r, hr, heq⟩ := Option.map_eq_some_iff.1 hcourse.symm
      exact ⟨r, hr, congrArg Course.arrival heq.symm⟩
    cases q with
    | poll s => exact poll_rec (motive := Ascending name) (fun hr h => h.examine hr s) h
    | _ =>
      show Ascending name (es ++ []) _
      rw [List.append_nil]
      exact hother (by rintro s ⟨⟩)

/-- As long as a task is supervised, each examination looks at the release that the one before has
left, or at a later one. -/
theorem releases_ascend {rs : List Request} (hsup : Supervised name a rs) :
    ((a.history rs).filter (·.task = name)).Pairwise fun e e' =>
      ∀ r, e.after.tasks.get? name = some r → r.arrival ≤ e'.record.arrival := by
  have hstart : Ascending name [] a := ⟨.nil, nofun⟩
  exact (hstart.history hsup).pairwise

/-- Whenever the debt of a task rises in an examination, the task is charged.  An examination that
charges moves the release of the task on, unless a job was terminated too late or two jobs arrived
at time 0; and as long as the task is supervised, all later examinations look at a later release. -/
theorem charged_once (a : Arbiter) (rs : List Request) :
    (∀ e ∈ a.history rs, ∀ r core, e.after.tasks.get? e.task = some r →
      e.record.debtOn core < r.debtOn core → 0 < e.charges) ∧
    (∀ e ∈ a.history rs, e.Timely → 0 < e.charges → e.Moves ∨ e.Stays) ∧
    ∀ name, Supervised name a rs → ((a.history rs).filter (·.task = name)).Pairwise fun e e' =>
      e.Timely → 0 < e.charges → e.record.arrival < e'.record.arrival ∨ e.Stays := by
  refine ⟨fun e he r core hr hlt => ?_, fun e he => moves_or_stays he, fun name hsup => ?_⟩
  · have hrecord := get?_of_mem_history he
    obtain ⟨r', hr', hle⟩ := rises_examine hrecord r hr
    obtain rfl := Option.some.inj (hrecord.symm.trans hr')
    have := hle core
    omega
  · refine (releases_ascend hsup).imp_of_mem fun {e e'} he _ hascends htimely hcharged => ?_
    obtain ⟨hmem, htask⟩ := List.mem_filter.1 he
    refine (moves_or_stays hmem htimely hcharged).imp_left ?_
    rintro ⟨r, hr, hlt⟩
    rw [of_decide_eq_true htask] at hr
    exact Nat.lt_of_lt_of_le hlt (hascends r hr)

/-! A task whose job is terminated too late, and that competes with a task of a larger utilization. -/

/-- A job of `t` that is terminated after its deadline, while it is recorded. -/
def stoppedJob : JobRecord :=
  { id := 1, task := "t", core := 0, arrival := 1000, exit := 0, execution := 0 }

/-- The job of `c` that makes it late, while it is running. -/
def longJob : JobRecord :=
  { id := 2, task := "c", core := 0, arrival := 500, exit := 0, execution := 0 }

/-- The job of `t` is late at the second poll, where `t` is denied.  The third poll comes before the
next release of either task. -/
def overcharging : List Request :=
  [.setGoal { goal := .utilization },
    .add 0 { name := "c", deadline := 10000, interArrival := 10000 },
    .add 0 { name := "t", deadline := 10000, interArrival := 10000 },
    .poll { now := 2000, jobs := [stoppedJob, longJob], terminated := [] },
    .poll { now := 12000, jobs := [{ longJob with exit := 8000, execution := 7500 }]
            terminated := [⟨1, 11500⟩] },
    .poll { now := 13000, jobs := [{ longJob with exit := 8000, execution := 7500 }]
            terminated := [⟨1, 11500⟩] }]

/-- The release at 1000 is charged for the late job, and again because `t` was denied. -/
example : ((history { cores := 1 } overcharging).filter (·.task = "t")).map
    (fun e => (e.record.arrival, e.charges)) = [(0, 0), (1000, 1), (1000, 1)] := by
  decide +kernel

/-- The examination that charges for the denied job. -/
def deniedCharge : Examination := (history { cores := 1 } overcharging).get ⟨4, by decide +kernel⟩

/-- The charge for the denied job moves the release of `t` on, so no later examination looks at the
same one. -/
theorem charged_once_denied :
    let a := run { cores := 1 } (overcharging.take 3)
    let rs := overcharging.drop 3
    deniedCharge.Timely ∧ deniedCharge.charges = 1 ∧ deniedCharge.Moves ∧ Supervised "t" a rs ∧
      ((a.history rs).filter (·.task = "t")).Pairwise fun e e' =>
        e.Timely → 0 < e.charges → e.record.arrival < e'.record.arrival ∨ e.Stays := by
  intro a rs
  have htimely : deniedCharge.Timely := ⟨by decide +kernel, by decide +kernel, by decide +kernel⟩
  have hcharges : deniedCharge.charges = 1 := by decide +kernel
  have hfinding : (deniedCharge.finding matches .denied) = true := by decide +kernel
  obtain ⟨-, hmoves, -⟩ := charged_once { cores := 1 } overcharging
  have hmoved : deniedCharge.Moves := by
    have hpos : 0 < deniedCharge.charges := by rw [hcharges]; exact Nat.one_pos
    refine (hmoves deniedCharge (List.get_mem _ _) htimely hpos).resolve_right ?_
    rintro (hlate | ⟨_, _, hovertaken, -⟩)
    · rw [hlate] at hfinding
      cases hfinding
    · rw [hovertaken] at hfinding
      cases hfinding
  have hsupervised : Supervised "t" a rs := by decide +kernel
  obtain ⟨-, -, hascends⟩ := charged_once a rs
  exact ⟨htimely, hcharges, hmoved, hsupervised, hascends "t" hsupervised⟩

/-- The examination that charges for the late job. -/
def lateCharge : Examination := (history { cores := 1 } overcharging).get ⟨3, by decide +kernel⟩

/-- A debt may rise although the release stays. -/
theorem debt_without_move :
    ¬ ∀ (cores : Nat) (rs : List Request), ∀ e ∈ history { cores } rs, e.Timely →
      ∀ r core, e.after.tasks.get? e.task = some r → e.record.debtOn core < r.debtOn core →
        e.record.arrival < r.arrival := by
  intro h
  have htimely : lateCharge.Timely := ⟨by decide +kernel, by decide +kernel, by decide +kernel⟩
  have hr : lateCharge.after.tasks.get? lateCharge.task =
      some ((lateCharge.after.tasks.get? lateCharge.task).get (by decide +kernel)) :=
    (Option.some_get _).symm
  have hmoves := h 1 overcharging lateCharge (List.get_mem _ _) htimely _ 0 hr (by decide +kernel)
  revert hmoves
  decide +kernel

end Arbiter

end RealTime
