import RealTime.Proofs.Arbiter.Consistency
import RealTime.Proofs.Arbiter.Decisions
import RealTime.Proofs.Arbiter.Examinations

/-! # Why a task is denied

A decision denies a task only on account of another task on its core that it is linked with.  A
denial stays justified as long as there is such a task.  Whenever a link is lost, because a task
is removed or moved, the tasks concerned are decided about again.  There is one exception: a task
that is found to have run on another core follows its job there, and only the task itself is
decided about.  Whoever has competed with it may stay denied on the core that it has left.

`Justified P` allows for the tasks that satisfy `P` to be denied without a link.

* `Justified.arbitrate`     a decision about a task removes it from the exceptions
* `Justified.relocate`      a task that changes its core adds itself and its competitors
* `Justified.examine`       only a task that strays adds exceptions
* `linked_or_strayed`       all denials after a history of requests -/

namespace RealTime

/-- What decisions are about: permission, core and competitors. -/
def Record.standing (r : Record) : Bool × Nat × OrderedSet String :=
  (r.allowed, r.core, r.competitors)

/-- Following a job that ran on the task's own core, or on none. -/
theorem Record.follow_eq_self {r : Record} {core cores : Nat} (h : core < cores → core = r.core) :
    r.follow core cores = r := by
  unfold follow
  split
  · rename_i hlt
    rw [h hlt]
  · rfl

theorem Record.standing_observe (r : Record) (job : JobRecord) :
    (r.observe job).standing = r.standing := by
  unfold observe
  split <;> rfl

namespace Arbiter

variable {a b : Arbiter} {name cause x y : String} {r : Record} {P Q : String → Prop}

/-- Every denied task is linked with another one, unless it is one of some exceptions. -/
structure Justified (a : Arbiter) (P : String → Prop) : Prop where
  active : a.config.goal.isActive = true
  not_self : ∀ {name r}, a.tasks.get? name = some r → name ∉ r.competitors
  linked : ∀ {x r}, a.tasks.get? x = some r → r.allowed = false → (∃ y, a.Linked x y) ∨ P x

theorem grows_compete (a : Arbiter) (name cause : String) : a.Grows (a.compete name cause) := by
  intro n r hr
  refine ⟨_, by rw [get?_compete, hr, Option.map_some], fun c hc => ?_⟩
  split
  · exact OrderedSet.mem_insert.2 (.inr hc)
  · exact hc

/-- Tasks whose records name the same group. -/
theorem Grouped.mem_relatives (h : a.Grouped) {o : Record} (ho : a.tasks.get? x = some o)
    (hr : a.tasks.get? name = some r) (hgroup : o.group = r.group) (h0 : r.group ≠ 0)
    (hne : x ≠ name) : x ∈ a.relatives name := by
  obtain ⟨g, hg, hmem⟩ := h.mem ho (hgroup ▸ h0)
  rw [relatives, groupOf_eq hr, ← hgroup, hg]
  exact OrderedSet.mem_erase.2 ⟨hmem, hne⟩

/-- Tasks that compete with each other are in one group. -/
theorem mem_relatives (h : a.Consistent) (hx : a.Competes x name) : x ∈ a.relatives name := by
  obtain ⟨hne, o, r, ho, hr, hcomp⟩ := hx
  have hgroup : o.group = r.group ∧ r.group ≠ 0 := by
    rcases hcomp with hcomp | hcomp
    · obtain ⟨-, p, hp, hpg, h0⟩ := h.competitor ho hcomp
      obtain rfl := Option.some.inj (hr.symm.trans hp)
      exact ⟨hpg.symm, hpg ▸ h0⟩
    · obtain ⟨-, p, hp, hpg, h0⟩ := h.competitor hr hcomp
      obtain rfl := Option.some.inj (ho.symm.trans hp)
      exact ⟨hpg, h0⟩
  exact h.toGrouped.mem_relatives ho hr hgroup.1 hgroup.2 hne

namespace Justified

theorem mono (h : a.Justified P) (hPQ : ∀ x, P x → Q x) : a.Justified Q where
  active := h.active
  not_self := h.not_self
  linked := fun hx hdenied => (h.linked hx hdenied).imp_right (hPQ _)

/-- Exceptions that are not supervised do not count. -/
theorem of_untracked (h : a.Justified fun x => x = name ∨ P x)
    (hname : a.tasks.get? name = none) : a.Justified P where
  active := h.active
  not_self := h.not_self
  linked := by
    intro x r hx hdenied
    rcases h.linked hx hdenied with hlinked | rfl | hP
    · exact .inl hlinked
    · rw [hname] at hx
      cases hx
    · exact .inr hP

/-- Only permissions, cores and competitors matter. -/
theorem congr (h : a.Justified P) (hagree : ∀ n, Agree Record.standing n a b) : b.Justified P where
  active := by rw [(hagree "").config]; exact h.active
  not_self := by
    intro n r' hr'
    obtain ⟨r, hr, heq⟩ := (hagree n).get? hr'
    simp only [Record.standing, Prod.mk.injEq] at heq
    rw [heq.2.2]
    exact h.not_self hr
  linked := by
    intro x r' hr' hdenied
    obtain ⟨r, hr, heq⟩ := (hagree x).get? hr'
    simp only [Record.standing, Prod.mk.injEq] at heq
    refine (h.linked hr (heq.1 ▸ hdenied)).imp_left ?_
    rintro ⟨y, hy⟩
    exact ⟨y, hy.congr fun n => (hagree n).comp Prod.snd⟩

/-- After a decision about a task it is no exception any more. -/
theorem arbitrate (h : a.Justified fun x => x = name ∨ P x) : (a.arbitrate name).Justified P := by
  have hstance : ∀ n, Agree Record.stance n a (a.arbitrate name) :=
    fun n => agree_arbitrate (fun _ _ => rfl) a name
  refine ⟨?active, ?not_self, ?linked⟩
  case active =>
    rw [(hstance "").config]
    exact h.active
  case not_self =>
    intro n r' hr'
    obtain ⟨r, hr, heq⟩ := (hstance n).get? hr'
    simp only [Record.stance, Prod.mk.injEq] at heq
    rw [heq.2]
    exact h.not_self hr
  case linked =>
    intro x r' hr' hdenied
    have hlinked : (∃ y, a.Linked x y) → ∃ y, (a.arbitrate name).Linked x y :=
      fun ⟨y, hy⟩ => ⟨y, hy.congr hstance⟩
    rcases linked_or_denied_of_arbitrate h.active h.not_self hr' hdenied with hy | ⟨hne, hx⟩
    · exact .inl (hlinked hy)
    · rcases h.linked hx hdenied with hy | heq | hP
      · exact .inl (hlinked hy)
      · exact absurd heq hne
      · exact .inr hP

theorem arbitrateAll {names : List String} (h : a.Justified fun x => x ∈ names ∨ P x) :
    (a.arbitrateAll names).Justified P := by
  induction names generalizing a with
  | nil => exact h.mono fun x hx => hx.resolve_left (by simp)
  | cons name names ih =>
    refine ih (Justified.arbitrate (h.mono fun x hx => ?_))
    simpa only [List.mem_cons, or_assoc] using hx

/-! ### Missed deadlines -/

theorem charge (h : a.Justified fun x => x = name ∨ P x) : (a.charge name).Justified P := by
  rw [charge_eq]
  exact (h.congr fun n => agree_indebt (fun _ _ => rfl) a name).arbitrate

/-- A new competitor takes no link away. -/
theorem blame (h : a.Justified P) (hne : cause ≠ name) : (a.blame name cause).Justified P := by
  have hnamed : (a.compete name cause).Justified P := by
    refine ⟨h.active, fun {n o'} ho' hself => ?_, fun {x o'} ho' hdenied => ?_⟩
    · rw [get?_compete] at ho'
      obtain ⟨o, ho, rfl⟩ := Option.map_eq_some_iff.1 ho'
      split at hself
      · rename_i hn
        subst hn
        exact (OrderedSet.mem_insert.1 hself).elim hne.symm (h.not_self ho)
      · exact h.not_self ho hself
    · rw [get?_compete] at ho'
      obtain ⟨o, ho, rfl⟩ := Option.map_eq_some_iff.1 ho'
      have hdenied' : o.allowed = false := by split at hdenied <;> exact hdenied
      refine (h.linked ho hdenied').imp_left ?_
      rintro ⟨y, hy⟩
      exact ⟨y, hy.mono (fun n => agree_modify fun _ _ _ => rfl) (grows_compete a name cause)⟩
  exact hnamed.congr fun n => agree_blame_of_named (fun _ _ => rfl) a name cause

theorem miss (h : a.Justified fun x => x = name ∨ P x) (released : Nat) (s : Snapshot) :
    (a.miss name released s).Justified P := by
  unfold Arbiter.miss
  split
  · cases hc : a.cause? name released s with
    | none => exact h.charge
    | some cause => exact (h.blame (cause?_ne hc)).charge
  · rename_i hout
    exact h.of_untracked (OrderedMap.contains_eq_false_iff.1 (Bool.eq_false_iff.2 hout))

/-! ### Tasks that change their core -/

/-- A task that may be on another core, and those it has competed with, may have lost their
links. -/
theorem relocate (h : a.Justified P) {f : Record → Record}
    (hf : ∀ r : Record, (f r).allowed = r.allowed ∧ (f r).competitors = r.competitors) :
    (a.modify name f).Justified fun x => x = name ∨ a.Competes x name ∨ P x := by
  have hget : ∀ {n r'}, (a.modify name f).tasks.get? n = some r' →
      ∃ r, a.tasks.get? n = some r ∧ r'.allowed = r.allowed ∧ r'.competitors = r.competitors := by
    intro n r' hr'
    rw [get?_modify] at hr'
    split at hr'
    · obtain ⟨r, hr, rfl⟩ := Option.map_eq_some_iff.1 hr'
      exact ⟨r, hr, hf r⟩
    · exact ⟨r', hr', rfl, rfl⟩
  refine ⟨h.active, fun hr' => ?_, fun {x r'} hr' hdenied => ?_⟩
  · obtain ⟨r, hr, -, hcomp⟩ := hget hr'
    rw [hcomp]
    exact h.not_self hr
  · obtain ⟨r, hr, hallowed, -⟩ := hget hr'
    by_cases hx : x = name
    · exact .inr (.inl hx)
    · rcases h.linked hr (hallowed ▸ hdenied) with ⟨y, hy⟩ | hP
      · by_cases hyn : y = name
        · exact .inr (.inr (.inl (hyn ▸ hy.competes)))
        · -- neither of the two has been touched
          obtain ⟨hne, r, o, hr, ho, hcore, hcomp⟩ := hy
          exact .inl ⟨y, hne, r, o, by rwa [get?_modify, if_neg hx],
            by rwa [get?_modify, if_neg hyn], hcore, hcomp⟩
      · exact .inr (.inr (.inr hP))

/-- A task that follows a job stays where it is, or those it has competed with may have lost their
links. -/
theorem follow (h : a.Justified fun x => x = name ∨ P x) {core : Nat}
    (hmoved : ∀ r, a.tasks.get? name = some r → core < a.cores → core ≠ r.core →
      ∀ x, a.Competes x name → P x) :
    (a.modify name (·.follow core a.cores)).Justified fun x => x = name ∨ P x := by
  by_cases hmove : ∃ r, a.tasks.get? name = some r ∧ core < a.cores ∧ core ≠ r.core
  · obtain ⟨r, hr, hlt, hne⟩ := hmove
    refine (h.relocate fun r => ?_).mono ?_
    · unfold Record.follow
      split <;> exact ⟨rfl, rfl⟩
    · rintro x (hx | hx | hx)
      · exact .inl hx
      · exact .inr (hmoved r hr hlt hne x hx)
      · exact hx
  · refine h.congr fun n => agree_modify fun hn r hr => ?_
    rw [Record.follow_eq_self fun hlt => Decidable.byContradiction fun hne =>
      hmove ⟨r, hn ▸ hr, hlt, hne⟩]

theorem judge (h : a.Justified fun x => x = name ∨ P x) {job : JobRecord}
    (hmoved : ∀ r, a.tasks.get? name = some r → job.core < a.cores → job.core ≠ r.core →
      ∀ x, a.Competes x name → P x) (s : Snapshot) :
    (a.judge name job s).Justified fun x => x = name ∨ P x := by
  have hfollow := h.follow hmoved
  simp only [Arbiter.judge]
  split
  · exact hfollow
  · split
    · refine hfollow.congr fun n => agree_modify fun _ r _ => ?_
      simp only [reward]
      split <;> rfl
    · exact (hfollow.miss job.arrival s).mono fun _ => .inr

theorem conclude (h : a.Justified fun x => x = name ∨ P x) (job : JobRecord) :
    (a.conclude name job).Justified P := by
  have hobserve : ∀ n, Agree Record.standing n (a.arbitrate name)
      ((a.arbitrate name).modify name (·.observe job)) :=
    fun n => agree_modify fun _ r _ => r.standing_observe job
  refine (h.arbitrate.congr hobserve).congr fun n => agree_modify fun _ r _ => ?_
  split <;> rfl

/-! ### Tasks that leave -/

/-- A task that is forgotten leaves two kinds of tasks without a link: those that have named it,
and those that it has named. -/
theorem forget (h : a.Justified P) (hr : a.tasks.get? name = some r) (e : Ended) :
    (a.forget name e).Justified fun x => x ∈ a.claimants name ∨ x ∈ r.competitors ∨ P x := by
  have hget : ∀ {n o'}, (a.forget name e).tasks.get? n = some o' → n ≠ name ∧
      ∃ o, a.tasks.get? n = some o ∧ o' = { o with competitors := o.competitors.erase name } := by
    intro n o' ho'
    rw [get?_forget] at ho'
    split at ho'
    · cases ho'
    · obtain ⟨o, ho, rfl⟩ := Option.map_eq_some_iff.1 ho'
      exact ⟨‹_›, o, ho, rfl⟩
  refine ⟨h.active, fun ho' hself => ?_, fun {x o'} ho' hdenied => ?_⟩
  · obtain ⟨-, o, ho, rfl⟩ := hget ho'
    exact h.not_self ho (OrderedSet.mem_erase.1 hself).1
  · obtain ⟨hx, o, ho, rfl⟩ := hget ho'
    rcases h.linked ho hdenied with ⟨y, hxy, o₁, p, ho₁, hp, hcore, hcomp⟩ | hP
    · obtain rfl := Option.some.inj (ho.symm.trans ho₁)
      by_cases hy : y = name
      · -- the link was one with the task that leaves
        subst hy
        obtain rfl := Option.some.inj (hr.symm.trans hp)
        rcases hcomp with hcomp | hcomp
        · exact .inr (.inl (mem_claimants.2 ⟨hx, o, ho, hcomp⟩))
        · exact .inr (.inr (.inl hcomp))
      · refine .inl ⟨y, hxy, _, { p with competitors := p.competitors.erase name }, ho',
          by rw [get?_forget, if_neg hy, hp, Option.map_some], hcore, ?_⟩
        exact hcomp.imp (fun hc => OrderedSet.mem_erase.2 ⟨hc, hy⟩)
          fun hc => OrderedSet.mem_erase.2 ⟨hc, hx⟩
    · exact .inr (.inr (.inr hP))

/-- A task that is removed leaves its links behind, and all who have lost one are decided about. -/
theorem remove (h : a.Justified P) (hcons : a.Consistent) (name : String) (lastJob : Nat)
    (cause : EndCause) : (a.remove name lastJob cause).Justified P := by
  cases hr : a.tasks.get? name with
  | none => simpa only [Arbiter.remove, hr] using h
  | some r =>
    rw [remove_eq hr]
    have hclaimants := (h.forget hr ⟨lastJob, cause⟩).arbitrateAll
    have hleave := hclaimants.congr (b := Arbiter.leaveGroup _ name r)
      fun n => agree_leaveGroup (fun _ _ => rfl) _ name r
    refine Justified.arbitrateAll (hleave.mono fun x hx => hx.imp_left fun hcomp => ?_)
    -- whom the task has named is in its group
    obtain ⟨hne, o, ho, hgroup, h0⟩ := hcons.competitor hr hcomp
    obtain ⟨g, hg, hmem⟩ := hcons.mem ho (hgroup ▸ h0)
    have hgroups : ((a.forget name ⟨lastJob, cause⟩).arbitrateAll (a.claimants name)).groups =
        a.groups := (kept_arbitrateAll _ _).groups
    rw [mem_staying, hgroups, ← hgroup]
    exact ⟨hne, g, hg, hmem⟩

end Justified

/-! ### Growth -/

private theorem grows_charge (a : Arbiter) (name : String) : a.Grows (a.charge name) := by
  rw [charge_eq]
  exact grows_of_agree fun n =>
    (agree_indebt (fun _ _ => rfl) a name).trans (agree_arbitrate (fun _ _ => rfl) _ name)

theorem grows_miss (a : Arbiter) (name : String) (released : Nat) (s : Snapshot) :
    a.Grows (a.miss name released s) := by
  unfold miss
  split
  · cases a.cause? name released s with
    | none => exact grows_charge a name
    | some cause =>
      have hblame : a.Grows (a.blame name cause) :=
        (grows_compete a name cause).trans
          (grows_of_agree fun n => agree_blame_of_named (fun _ _ => rfl) a name cause)
      exact hblame.trans (grows_charge _ name)
  · exact grows_of_agree fun n => .refl a

theorem grows_follow (a : Arbiter) (name : String) (core : Nat) :
    a.Grows (a.modify name (·.follow core a.cores)) :=
  grows_of_agree fun _ => agree_follow (fun _ _ _ => rfl) a core

theorem grows_judge (a : Arbiter) (name : String) (job : JobRecord) (s : Snapshot) :
    a.Grows (a.judge name job s) := by
  have hfollow := grows_follow a name job.core
  simp only [judge]
  split
  · exact hfollow
  · split
    · refine hfollow.trans (grows_of_agree fun n => agree_modify fun _ r _ => ?_)
      simp only [reward]
      split <;> rfl
    · exact hfollow.trans (grows_miss _ name job.arrival s)

theorem grows_conclude (a : Arbiter) (name : String) (job : JobRecord) :
    a.Grows (a.conclude name job) := by
  refine grows_of_agree fun n => ((agree_arbitrate (fun _ _ => rfl) a name).trans
    (agree_modify fun _ r _ => ?_)).trans (agree_modify fun _ r _ => ?_)
  · exact congrArg (·.2.2) (r.standing_observe job)
  · split <;> rfl

end Arbiter

/-! ### Tasks that stray -/

/-- The cores that a task is found to have run on, as far as it follows its jobs. -/
def Finding.followed (r : Record) : Finding → List Nat
  | terminatedLate => [r.newest.core]
  | f => f.judged.map (·.core)

/-- One of the jobs that are judged ran on another core of the platform than the one its task
belonged to. -/
def Finding.Strays (f : Finding) (r : Record) (cores : Nat) : Prop :=
  ∃ core ∈ f.followed r, core < cores ∧ core ≠ r.core

namespace Examination

/-- The examined task is found on another core and follows its job there. -/
def Strays (e : Examination) : Prop := e.finding.Strays e.record e.arbiter.cores

end Examination

namespace Arbiter

variable {a b : Arbiter} {name cause x y : String} {r : Record} {P Q : String → Prop}

private theorem calm_core : Calm Record.core :=
  ⟨fun _ _ => rfl, fun _ _ => rfl, fun _ _ => rfl, fun _ _ => rfl⟩

/-- As long as a task is on its old core, it strays when it leaves that core. -/
private theorem strays_of_moved (f : Finding) {c : Arbiter} {core : Nat}
    (hcore : Agree Record.core name a b) (hr : a.tasks.get? name = some r)
    (hmem : core ∈ f.followed r) (hgrows : b.Grows c) :
    ∀ r', b.tasks.get? name = some r' → core < b.cores → core ≠ r'.core →
      ∀ x, b.Competes x name → P x ∨ f.Strays r a.cores ∧ c.Competes x name := by
  intro r' hr' hlt hne x hx
  obtain ⟨r₁, hr₁, heq⟩ := hcore.get? hr'
  obtain rfl := Option.some.inj (hr.symm.trans hr₁)
  exact .inr ⟨⟨core, hmem, hcore.cores ▸ hlt, heq ▸ hne⟩, hx.mono hgrows⟩

namespace Justified

/-- The newest job has been terminated too late. -/
theorem terminatedLate (h : a.Justified P) (hr : a.tasks.get? name = some r) (s : Snapshot) :
    (a.conclusions name r s .terminatedLate).Justified fun x =>
      P x ∨ Finding.terminatedLate.Strays r a.cores ∧
        (a.conclusions name r s .terminatedLate).Competes x name := by
  have hgrows : a.Grows (a.conclusions name r s .terminatedLate) :=
    ((grows_follow a name r.newest.core).trans (grows_miss _ name r.newest.arrival s)).trans
      (grows_of_agree fun n => agree_modify fun _ _ _ => rfl)
  have hfollow := (h.mono fun x hP => Or.inr (Or.inl hP)).follow
    (strays_of_moved .terminatedLate (.refl a) hr List.mem_cons_self hgrows)
  exact (hfollow.miss r.newest.arrival s).congr fun n => agree_modify fun _ _ _ => rfl

/-- The deadline of the only new job has passed. -/
theorem due (h : a.Justified P) (hr : a.tasks.get? name = some r) (s : Snapshot) (job : JobRecord) :
    (a.conclusions name r s (.due job)).Justified fun x =>
      P x ∨ (Finding.due job).Strays r a.cores ∧
        (a.conclusions name r s (.due job)).Competes x name := by
  have hgrows : a.Grows (a.conclusions name r s (.due job)) :=
    ((grows_judge a name job s).trans (grows_conclude _ name job)).trans
      (grows_of_agree fun n => agree_modify fun _ _ _ => rfl)
  have hjudge := (h.mono fun x hP => Or.inr (Or.inl hP)).judge
    (strays_of_moved (.due job) (.refl a) hr List.mem_cons_self hgrows) s
  exact (hjudge.conclude job).congr fun n => agree_modify fun _ _ _ => rfl

/-- Another new job has overtaken the one that is judged. -/
theorem overtaken (h : a.Justified P) (hr : a.tasks.get? name = some r) (s : Snapshot)
    (earlier latest : JobRecord) :
    (a.conclusions name r s (.overtaken earlier latest)).Justified fun x =>
      P x ∨ (Finding.overtaken earlier latest).Strays r a.cores ∧
        (a.conclusions name r s (.overtaken earlier latest)).Competes x name := by
  have hobserve : ∀ n, Agree Record.standing n a (a.modify name (·.observe latest)) :=
    fun n => agree_modify fun _ r _ => r.standing_observe latest
  have hgrows : (a.modify name (·.observe latest)).Grows
      (a.conclusions name r s (.overtaken earlier latest)) :=
    ((grows_judge _ name earlier s).trans (grows_conclude _ name earlier)).trans
      (grows_of_agree fun n => agree_modify fun _ _ _ => rfl)
  have hjudge := ((h.congr hobserve).mono fun x hP => Or.inr (Or.inl hP)).judge
    (strays_of_moved (.overtaken earlier latest) ((hobserve name).comp (·.2.1)) hr
      List.mem_cons_self hgrows) s
  exact (hjudge.conclude earlier).congr fun n => agree_modify fun _ _ _ => rfl

/-- The deadlines of two new jobs have passed. -/
theorem bothDue (h : a.Justified P) (hr : a.tasks.get? name = some r) (s : Snapshot)
    (earlier latest : JobRecord) :
    (a.conclusions name r s (.bothDue earlier latest)).Justified fun x =>
      P x ∨ (Finding.bothDue earlier latest).Strays r a.cores ∧
        (a.conclusions name r s (.bothDue earlier latest)).Competes x name := by
  have hlatest : (a.judge name earlier s).Grows
      (a.conclusions name r s (.bothDue earlier latest)) :=
    ((grows_judge _ name latest s).trans (grows_conclude _ name latest)).trans
      (grows_of_agree fun n => agree_modify fun _ _ _ => rfl)
  have hjudge := (h.mono fun x hP => Or.inr (Or.inl hP)).judge
    (strays_of_moved (.bothDue earlier latest) (.refl a) hr List.mem_cons_self
      ((grows_judge a name earlier s).trans hlatest)) s
  refine ((hjudge.judge ?_ s).conclude latest).congr fun n => agree_modify fun _ _ _ => rfl
  by_cases hstrays : (Finding.bothDue earlier latest).Strays r a.cores
  · exact fun _ _ _ _ x hx => .inr ⟨hstrays, hx.mono hlatest⟩
  · -- the task is still where it was when the second job is judged
    have hcore : Agree Record.core name a (a.judge name earlier s) := by
      refine agree_judge calm_core (fun _ _ _ => rfl) (agree_modify fun _ r' hr' => ?_) s
      obtain rfl := Option.some.inj (hr.symm.trans hr')
      rw [Record.follow_eq_self fun hlt => Decidable.byContradiction fun hne =>
        hstrays ⟨earlier.core, List.mem_cons_self, hlt, hne⟩]
    exact strays_of_moved (.bothDue earlier latest) hcore hr
      (List.mem_cons_of_mem _ List.mem_cons_self) hlatest

/-- Only a task that strays leaves others denied without a link. -/
theorem conclusions (h : a.Justified P) (hcons : a.Consistent)
    (hr : a.tasks.get? name = some r) (s : Snapshot) (f : Finding) :
    (a.conclusions name r s f).Justified fun x =>
      P x ∨ f.Strays r a.cores ∧ (a.conclusions name r s f).Competes x name := by
  cases f with
  | unseen => exact h.mono fun _ => .inl
  | missing => exact h.mono fun _ => .inl
  | outdated => exact h.mono fun _ => .inl
  | vanished => exact h.mono fun _ => .inl
  | denied =>
    have harrival := h.congr (b := a.modify name fun r =>
      { r with arrival := Clock.after r.arrival r.interArrival })
      fun n => agree_modify fun _ _ _ => rfl
    exact (harrival.mono fun _ => .inr).charge.mono fun _ => .inl
  | finished => exact (h.remove hcons name _ _).mono fun _ => .inl
  | killed => exact (h.remove hcons name _ _).mono fun _ => .inl
  | running job =>
    have hobserve := h.congr (b := a.modify name (·.observe job))
      fun n => agree_modify fun _ r _ => r.standing_observe job
    have harrival := hobserve.congr (b := Arbiter.setArrival _ name job)
      fun n => agree_modify fun _ _ _ => rfl
    exact harrival.mono fun _ => .inl
  | terminatedLate => exact h.terminatedLate hr s
  | due job => exact h.due hr s job
  | overtaken earlier latest => exact h.overtaken hr s earlier latest
  | bothDue earlier latest => exact h.bothDue hr s earlier latest

/-- The examination of a task. -/
theorem examine (h : a.Justified P) (hcons : a.Consistent) (hr : a.tasks.get? name = some r)
    (s : Snapshot) :
    (a.examine name s).Justified fun x =>
      P x ∨ Examination.Strays ⟨a, name, r, s⟩ ∧ (a.examine name s).Competes x name := by
  have hothers : ∀ n, Agree Record.standing n a (a.observeOthers name s) :=
    fun n => agree_foldl (fun a j => by
      split
      · exact .refl a
      · exact agree_modify fun _ r _ => r.standing_observe j) a s.jobs
  have hr' := (get?_observeOthers a name s).trans hr
  rw [examine_of_some hr]
  have hcons' := hcons.kept (kept_observeOthers a name s)
  have hafter := (h.congr hothers).conclusions hcons' hr' s (.of name r s)
  rw [(hothers name).cores] at hafter
  exact hafter

/-! ### Requests -/

/-- A task that is moved takes its whole group to a new decision. -/
theorem move (h : a.Justified P) (hcons : a.Consistent) (name : String) (core : Nat) :
    (a.move name core).2.Justified P := by
  unfold Arbiter.move
  split
  · exact h
  · rename_i hcore
    split
    · have hkept : a.Kept (a.modify name fun r => { r with core }) :=
        kept_modify fun _ => ⟨rfl, rfl, rfl, rfl, rfl, fun _ => Nat.lt_of_not_le hcore⟩
      have hgrows : a.Grows (a.modify name fun r => { r with core }) :=
        grows_of_agree fun n => agree_modify fun _ _ _ => rfl
      have hmoved : (a.modify name fun r => { r with core }).Justified
          fun x => x = name ∨ a.Competes x name ∨ P x := h.relocate fun _ => ⟨rfl, rfl⟩
      refine Justified.arbitrateAll (hmoved.mono ?_)
      rintro x (rfl | hx | hP)
      · exact .inl List.mem_cons_self
      · have hmem := mem_relatives (hcons.kept hkept) (hx.mono hgrows)
        exact .inl (List.mem_cons_of_mem name hmem)
      · exact .inr hP
    · exact h

/-- A task that is added is permitted, and takes no link away. -/
theorem add (h : a.Justified P) (core : Nat) (t : Task) : (a.add core t).2.Justified P := by
  unfold Arbiter.add
  split
  · exact h
  · split
    · exact h
    · rename_i hin
      have hnone : a.tasks.get? t.name = none :=
        OrderedMap.contains_eq_false_iff.1 (Bool.eq_false_iff.2 hin)
      have hold : ∀ {n r}, a.tasks.get? n = some r →
          (a.tasks.insert t.name (.ofTask t core a.cores)).get? n = some r := by
        intro n r hr
        rw [OrderedMap.get?_insert, if_neg, hr]
        rintro rfl
        rw [hnone] at hr
        cases hr
      refine ⟨h.active, fun {n r} hr => ?_, fun {x r} hr hdenied => ?_⟩
      · rw [OrderedMap.get?_insert] at hr
        split at hr
        · cases hr
          exact OrderedSet.not_mem_empty n
        · exact h.not_self hr
      · rw [OrderedMap.get?_insert] at hr
        split at hr
        · cases hr
          cases hdenied
        · refine (h.linked hr hdenied).imp_left ?_
          rintro ⟨y, hne, p, o, hp, ho, hlink⟩
          exact ⟨y, hne, p, o, hold hp, hold ho, hlink⟩

/-- No request other than a poll leaves a task denied without a link. -/
theorem perform (h : a.Justified P) (hcons : a.Consistent) {q : Request} (hq : ∀ s, q ≠ .poll s)
    (hgoal : ∀ config, q = .setGoal config → config.goal.isActive = true) :
    (a.perform q).2.Justified P := by
  cases q with
  | setGoal config => exact ⟨hgoal config rfl, h.not_self, h.linked⟩
  | add core task => exact h.add core task
  | lastJobStarted name =>
    show (a.lastJobStarted name).2.Justified P
    unfold Arbiter.lastJobStarted
    split
    · exact h.congr fun n => agree_modify fun _ _ _ => rfl
    · exact h
  | move name core => exact h.move hcons name core
  | poll s => exact absurd rfl (hq s)

end Justified

/-! ### Histories -/

/-- After every history of requests under a goal, each denied task is linked with another task on
its core, unless a task that it competes with has been found on another core and was followed
there. -/
theorem linked_or_strayed {cores : Nat} {config : GoalConfig} {rs : List Request}
    (hactive : config.goal.isActive = true)
    (hgoals : ∀ config, .setGoal config ∈ rs → config.goal.isActive = true)
    (hx : (run { cores, config } rs).tasks.get? x = some r) (hdenied : r.allowed = false) :
    (∃ y, (run { cores, config } rs).Linked x y) ∨
      ∃ e ∈ history { cores, config } rs, e.Strays ∧ e.after.Competes x e.task := by
  have hstart : Consistent { cores, config } ∧ Justified { cores, config } fun x =>
      ∃ e ∈ ([] : List Examination), e.Strays ∧ e.after.Competes x e.task := by
    refine ⟨(consistent_empty cores).kept ⟨rfl, rfl, rfl, (Kept.refl _).records⟩, hactive, ?_, ?_⟩
    · intro n r hr
      cases hr
    · intro n r hr
      cases hr
  have hall := history_rec rs (motive := fun es b => b.Consistent ∧ b.Justified fun x =>
    ∃ e ∈ es, e.Strays ∧ e.after.Competes x e.task) ?other ?examine hstart
  · exact hall.2.linked hx hdenied
  case other =>
    intro q hq hpoll es b ⟨hcons, hb⟩
    exact ⟨invariant_consistent.perform hcons q,
      hb.perform hcons hpoll fun config hconfig => hgoals config (hconfig ▸ hq)⟩
  case examine =>
    intro es b name o s ho ⟨hcons, hb⟩
    refine ⟨invariant_consistent.examine hcons name s, (hb.examine hcons ho s).mono ?_⟩
    rintro x (⟨e, he, hstrays⟩ | ⟨hstrays, hcomp⟩)
    · exact ⟨e, List.mem_append_left _ he, hstrays⟩
    · exact ⟨_, List.mem_append_right _ List.mem_cons_self, hstrays, hcomp⟩

/-! A task that misses a deadline because of another one on its core, and then leaves that core. -/

/-- A job of each task on core 0, the first one late because of the second, and the next job of the
first task on core 1. -/
def leaving : List Request :=
  [.add 0 { name := "a", deadline := 10000, interArrival := 10000 },
    .add 0 { name := "b", deadline := 50000, interArrival := 50000 },
    .poll { now := 12000, terminated := [], jobs := [
      { id := 1, task := "a", core := 0, arrival := 1000, exit := 0, execution := 0 },
      { id := 2, task := "b", core := 0, arrival := 500, exit := 5000, execution := 0 }] },
    .poll { now := 25000, terminated := [], jobs := [
      { id := 1, task := "a", core := 0, arrival := 1000, exit := 0, execution := 0 },
      { id := 2, task := "b", core := 0, arrival := 500, exit := 5000, execution := 0 },
      { id := 3, task := "a", core := 1, arrival := 11000, exit := 14000, execution := 0 }] }]

/-- The arbiter after these requests. -/
def left : Arbiter := run { cores := 2, config := { goal := .fairness } } leaving

/-- The task that has been left behind. -/
def leftBehind : Record := (left.tasks.get? "b").get (by decide +kernel)

theorem get?_leftBehind : left.tasks.get? "b" = some leftBehind := (Option.some_get _).symm

/-- Task `b` is denied, and the theorem tells why. -/
theorem strayed_leaving :
    left.tasks.get? "b" = some leftBehind ∧ leftBehind.allowed = false ∧
      ((∃ y, left.Linked "b" y) ∨
        ∃ e ∈ history { cores := 2, config := { goal := .fairness } } leaving,
          e.Strays ∧ e.after.Competes "b" e.task) :=
  ⟨get?_leftBehind, by decide +kernel,
    linked_or_strayed (by decide) (by intro config hmem; simp [leaving] at hmem)
      get?_leftBehind (by decide +kernel)⟩

/-- Without that exception the statement is false: nobody on its core competes with task `b`. -/
theorem denied_without_link :
    ¬ ∀ (cores : Nat) (config : GoalConfig) (rs : List Request) (x : String) (r : Record),
      config.goal.isActive = true →
      (∀ config, .setGoal config ∈ rs → config.goal.isActive = true) →
      (run { cores, config } rs).tasks.get? x = some r → r.allowed = false →
      ∃ y, (run { cores, config } rs).Linked x y := by
  intro h
  obtain ⟨y, hy⟩ := h 2 { goal := .fairness } leaving "b" leftBehind (by decide)
    (by intro config hmem; simp [leaving] at hmem) get?_leftBehind (by decide +kernel)
  rcases rival_or_claimed_of_linked get?_leftBehind hy with hrival | hclaimed
  · revert hrival
    decide +kernel
  · revert hclaimed
    decide +kernel

end Arbiter

end RealTime
