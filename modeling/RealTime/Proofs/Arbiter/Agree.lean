import RealTime.Proofs.Arbiter.Invariant

/-! # One aspect of a record

`Agree f name a b` says that `f` shows the same of the task `name` in `a` and in `b`, where `f`
is any aspect of a record: its core, its permission, its jobs.  Goal and number of cores are the
same as well.  An operation agrees in every aspect that it does not write, so one lemma for each
operation serves all of them, with a hypothesis for every field that the operation writes.

* `agree_modify`      a change that the aspect does not show
* `agree_arbitrate`   decisions write permissions
* `agree_miss`        a missed deadline writes permissions, debts, groups and competitors
* `agree_judge`       a judgement may also write the core and the utilization
* `agree_remove`      a task that leaves writes those of the others, and nothing else of them
* `agree_conclusions` nothing else is written when another task is examined, and what is `Steady`
  is not written at all -/

namespace RealTime.Arbiter

/-- `f` shows the same of a task before and after, and goal and cores are the same. -/
structure Agree {β : Type} (f : Record → β) (name : String) (a b : Arbiter) : Prop where
  config : b.config = a.config
  cores : b.cores = a.cores
  view : (b.tasks.get? name).map f = (a.tasks.get? name).map f

/-- An aspect in which neither decisions nor missed deadlines nor departures can be seen. -/
structure Calm {β : Type} (f : Record → β) : Prop where
  allowed : ∀ (r : Record) (allowed : Bool), f { r with allowed } = f r
  debts : ∀ (r : Record) (debts : List Nat), f { r with debts } = f r
  group : ∀ (r : Record) (group : Nat), f { r with group } = f r
  competitors : ∀ (r : Record) (competitors : OrderedSet String), f { r with competitors } = f r

/-- The aspect that shows nothing still tells who is supervised. -/
theorem calm_supervised : Calm fun _ : Record => () :=
  ⟨fun _ _ => rfl, fun _ _ => rfl, fun _ _ => rfl, fun _ _ => rfl⟩

variable {β : Type} {f : Record → β} {a b c : Arbiter} {n name : String}

theorem Agree.refl (a : Arbiter) : Agree f n a a := ⟨rfl, rfl, rfl⟩

theorem Agree.trans (h : Agree f n a b) (h' : Agree f n b c) : Agree f n a c :=
  ⟨h'.config.trans h.config, h'.cores.trans h.cores, h'.view.trans h.view⟩

/-- What can be told from an aspect is the same too. -/
theorem Agree.comp {γ : Type} (h : Agree f n a b) (g : β → γ) : Agree (g ∘ f) n a b where
  config := h.config
  cores := h.cores
  view := by rw [← Option.map_map, h.view, Option.map_map]

/-- A record that is there afterwards was there before. -/
theorem Agree.get? (h : Agree f n a b) {r' : Record} (hr' : b.tasks.get? n = some r') :
    ∃ r, a.tasks.get? n = some r ∧ f r' = f r := by
  have hview := h.view
  rw [hr', Option.map_some] at hview
  obtain ⟨r, hr, heq⟩ := Option.map_eq_some_iff.1 hview.symm
  exact ⟨r, hr, heq.symm⟩

/-- A record that was there before is there afterwards. -/
theorem Agree.get?_of_get? (h : Agree f n a b) {r : Record} (hr : a.tasks.get? n = some r) :
    ∃ r', b.tasks.get? n = some r' ∧ f r' = f r := by
  have hview := h.view
  rw [hr, Option.map_some] at hview
  exact Option.map_eq_some_iff.1 hview

/-- The same tasks are supervised. -/
theorem Agree.contains (h : Agree f n a b) : b.tasks.contains n = a.tasks.contains n := by
  rw [OrderedMap.contains, OrderedMap.contains, ← Option.isSome_map (f := f), h.view,
    Option.isSome_map]

theorem get?_modify (a : Arbiter) (name : String) (g : Record → Record) (n : String) :
    (a.modify name g).tasks.get? n =
      if n = name then (a.tasks.get? n).map g else a.tasks.get? n :=
  OrderedMap.get?_modify a.tasks name n g

/-- Two changes of one record, one after the other. -/
theorem modify_modify (a : Arbiter) (name : String) (f g : Record → Record) :
    (a.modify name f).modify name g = a.modify name (g ∘ f) := by
  simp only [modify, OrderedMap.modify, OrderedMap.mapValues, List.map_map, mk.injEq, and_true,
    true_and, OrderedMap.mk.injEq]
  refine List.map_congr_left fun e _ => ?_
  simp only [Function.comp_apply]
  split <;> rfl

/-- A change of one record that the aspect does not show. -/
theorem agree_modify {g : Record → Record}
    (h : n = name → ∀ r, a.tasks.get? n = some r → f (g r) = f r) :
    Agree f n a (a.modify name g) where
  config := rfl
  cores := rfl
  view := by
    rw [get?_modify]
    split
    · rename_i hn
      cases hr : a.tasks.get? n with
      | none => rfl
      | some r => simp only [Option.map_some, h hn r hr]
    · rfl

/-- Steps that agree, one after the other, agree. -/
theorem agree_foldl {α : Type} {step : Arbiter → α → Arbiter}
    (h : ∀ (a : Arbiter) (x : α), Agree f n a (step a x)) (a : Arbiter) (l : List α) :
    Agree f n a (l.foldl step a) := by
  induction l generalizing a with
  | nil => exact .refl a
  | cons x l ih => exact (h a x).trans (ih (step a x))

/-- The jobs of others tell nothing about a task. -/
theorem agree_observeOthers (a : Arbiter) (name : String) (s : Snapshot) :
    Agree f name a (a.observeOthers name s) :=
  agree_foldl (fun a j => by
    split
    · exact .refl a
    · exact agree_modify fun heq => absurd heq.symm ‹_›) a s.jobs

theorem get?_observeOthers (a : Arbiter) (name : String) (s : Snapshot) :
    (a.observeOthers name s).tasks.get? name = a.tasks.get? name := by
  have hview := (agree_observeOthers (f := id) a name s).view
  simpa using hview

/-- Taking note of a job writes the newest job only. -/
theorem apply_observe (hnewest : ∀ (r : Record) (newest : NewestJob), f { r with newest } = f r)
    (r : Record) (job : JobRecord) : f (r.observe job) = f r := by
  unfold Record.observe
  split
  · exact hnewest r _
  · rfl

/-! ### Decisions and debts -/

section Decisions

variable (hallowed : ∀ (r : Record) (allowed : Bool), f { r with allowed } = f r)

include hallowed

theorem agree_permit (a : Arbiter) (name : String) (allowed : Bool) :
    Agree f n a (a.permit name allowed) :=
  agree_modify fun _ r _ => hallowed r allowed

theorem agree_arbitrate (a : Arbiter) (name : String) : Agree f n a (a.arbitrate name) := by
  unfold arbitrate
  split
  · exact .refl a
  · split
    · exact .refl a
    · split
      · split
        · exact .refl a
        · exact agree_permit hallowed a name true
      · split
        · exact (agree_permit hallowed a name true).trans
            (agree_foldl (fun a (e : String × Record) => agree_permit hallowed a e.1 false) _ _)
        · exact (agree_permit hallowed a name false).trans (agree_permit hallowed _ _ true)

theorem agree_arbitrateAll (a : Arbiter) (names : List String) :
    Agree f n a (a.arbitrateAll names) :=
  agree_foldl (agree_arbitrate hallowed) a names

end Decisions

theorem agree_settle (hdebts : ∀ (r : Record) (debts : List Nat), f { r with debts } = f r)
    (a : Arbiter) (name : String) : Agree f n a (a.settle name) := by
  simp only [settle]
  split
  · exact .refl a
  · split
    · exact .refl a
    · split
      · exact .refl a
      · exact agree_foldl (fun a _ => agree_modify fun _ r _ => hdebts r _) _ _

/-- What precedes the decision in a charge: one more debt, and the settlement of the group. -/
def indebt (a : Arbiter) (name : String) : Arbiter :=
  let a := a.modify name fun r => r.modifyDebt r.core Debt.raise
  if a.groupOf name = 0 then a else a.settle name

theorem charge_eq (a : Arbiter) (name : String) : a.charge name = (a.indebt name).arbitrate name :=
  rfl

theorem agree_indebt (hdebts : ∀ (r : Record) (debts : List Nat), f { r with debts } = f r)
    (a : Arbiter) (name : String) : Agree f n a (a.indebt name) := by
  have hraise : Agree f n a (a.modify name fun r => r.modifyDebt r.core Debt.raise) :=
    agree_modify fun _ r _ => hdebts r _
  simp only [indebt]
  split
  · exact hraise
  · exact hraise.trans (agree_settle hdebts _ name)

/-! ### Groups -/

section Groups

variable (hgroup : ∀ (r : Record) (group : Nat), f { r with group } = f r)

include hgroup

theorem agree_setGroup (a : Arbiter) (name : String) (group : Nat) :
    Agree f n a (a.setGroup name group) :=
  agree_modify fun _ r _ => hgroup r group

theorem agree_relate (a : Arbiter) (name cause : String) :
    Agree f n a (a.relate name cause) := by
  -- the groups themselves are no part of any record
  have hwith : ∀ gs : Groups, Agree f n a { a with groups := gs } := fun _ => ⟨rfl, rfl, rfl⟩
  simp only [relate]
  split
  · exact ((hwith _).trans (agree_setGroup hgroup _ name _)).trans
      (agree_setGroup hgroup _ cause _)
  · split
    · exact (hwith _).trans (agree_setGroup hgroup _ name _)
    · split
      · exact (hwith _).trans (agree_setGroup hgroup _ cause _)
      · split
        · exact .refl a
        · exact (hwith _).trans
            (agree_foldl (fun a member => agree_setGroup hgroup a member _) _ _)

theorem agree_leaveGroup (a : Arbiter) (name : String) (r : Record) :
    Agree f n a (a.leaveGroup name r) := by
  have hwith : ∀ gs : Groups, Agree f n a { a with groups := gs } := fun _ => ⟨rfl, rfl, rfl⟩
  simp only [leaveGroup]
  split
  · exact .refl a
  · split
    · split
      · exact (hwith _).trans (agree_setGroup hgroup _ _ 0)
      · exact hwith _
    · exact hwith _

end Groups

/-! ### Missed deadlines and departures -/

theorem agree_charge (h : Calm f) (a : Arbiter) (name : String) : Agree f n a (a.charge name) := by
  rw [charge_eq]
  exact (agree_indebt h.debts a name).trans (agree_arbitrate h.allowed _ name)

/-- Once a cause is named as a competitor, what is left of the blame are groups. -/
theorem agree_blame_of_named (hgroup : ∀ (r : Record) (group : Nat), f { r with group } = f r)
    (a : Arbiter) (name cause : String) :
    Agree f n (a.modify name fun r => { r with competitors := r.competitors.insert cause })
      (a.blame name cause) := by
  have hrelate := agree_relate (n := n) hgroup
    (a.modify name fun r => { r with competitors := r.competitors.insert cause }) name cause
  exact ⟨hrelate.config, hrelate.cores, hrelate.view⟩

theorem agree_blame (h : Calm f) (a : Arbiter) (name cause : String) :
    Agree f n a (a.blame name cause) :=
  (agree_modify fun _ r _ => h.competitors r _).trans (agree_blame_of_named h.group a name cause)

theorem agree_miss (h : Calm f) (a : Arbiter) (name : String) (released : Nat) (s : Snapshot) :
    Agree f n a (a.miss name released s) := by
  simp only [miss]
  split
  · split
    · exact agree_charge h a name
    · exact (agree_blame h a name _).trans (agree_charge h _ name)
  · exact .refl a

theorem agree_follow (hcore : n = name → ∀ (r : Record) (core : Nat), f { r with core } = f r)
    (a : Arbiter) (core : Nat) :
    Agree f n a (a.modify name (·.follow core a.cores)) := by
  refine agree_modify fun hn r _ => ?_
  unfold Record.follow
  split
  · exact hcore hn r core
  · rfl

/-- Judging a job shows in the core and in the utilization of the task itself, besides what a miss
changes. -/
theorem agree_judge (h : Calm f)
    (hload : n = name → ∀ (r : Record) (utilization : Float), f { r with utilization } = f r)
    {job : JobRecord} (hfollow : Agree f n a (a.modify name (·.follow job.core a.cores)))
    (s : Snapshot) : Agree f n a (a.judge name job s) := by
  simp only [judge]
  split
  · exact hfollow
  · split
    · refine hfollow.trans (agree_modify fun hn r _ => ?_)
      simp only [reward]
      split
      · exact h.debts r _
      · exact (hload hn _ _).trans (h.debts r _)
    · exact hfollow.trans (agree_miss h _ name job.arrival s)

/-- The other tasks lose a competitor when a task is forgotten. -/
theorem agree_forget (hn : n ≠ name) (hcompetitors : ∀ (r : Record)
    (competitors : OrderedSet String), f { r with competitors } = f r) (a : Arbiter) (e : Ended) :
    Agree f n a (a.forget name e) where
  config := rfl
  cores := rfl
  view := by
    simp only [forget, OrderedMap.get?_mapValues, OrderedMap.get?_erase, if_neg hn,
      Option.map_map]
    cases a.tasks.get? n with
    | none => rfl
    | some r => simp only [Option.map_some, Function.comp_apply, hcompetitors]

/-- The tasks that name another one as a competitor. -/
def claimants (a : Arbiter) (name : String) : List String :=
  ((a.tasks.erase name).filter fun _ o => name ∈ o.competitors).keys

/-- Those who stay in the group of a task when it leaves. -/
def staying (a : Arbiter) (name : String) (r : Record) : List String :=
  match a.groups.get? r.group with
  | some g => (g.members.erase name).elems
  | none => []

theorem mem_staying {r : Record} {m : String} :
    m ∈ a.staying name r ↔
      m ≠ name ∧ ∃ g, a.groups.get? r.group = some g ∧ m ∈ g.members := by
  rw [staying]
  cases hg : a.groups.get? r.group with
  | none => simp
  | some g =>
    simp only [Option.some.injEq, exists_eq_left']
    exact OrderedSet.mem_erase.trans and_comm

/-- A removal takes the task out, decides about those that named it, lets it leave its group, and
decides about those who stay there. -/
theorem remove_eq {r : Record} (hr : a.tasks.get? name = some r) (lastJob : Nat)
    (cause : EndCause) :
    a.remove name lastJob cause =
      let b := (a.forget name ⟨lastJob, cause⟩).arbitrateAll (a.claimants name)
      (b.leaveGroup name r).arbitrateAll (b.staying name r) := by
  simp only [remove, hr]
  rfl

/-- What follows when a task has been forgotten are decisions and groups only. -/
theorem agree_remove_of_forget {r : Record} (hr : a.tasks.get? name = some r) (h : Calm f)
    (lastJob : Nat) (cause : EndCause) :
    Agree f n (a.forget name ⟨lastJob, cause⟩) (a.remove name lastJob cause) := by
  rw [remove_eq hr]
  have hclaimants : Agree f n (a.forget name ⟨lastJob, cause⟩)
      ((a.forget name ⟨lastJob, cause⟩).arbitrateAll (a.claimants name)) :=
    agree_arbitrateAll h.allowed _ _
  have hleave := hclaimants.trans (agree_leaveGroup h.group _ name r)
  exact hleave.trans (agree_arbitrateAll h.allowed _ _)

theorem agree_remove (hn : n ≠ name) (h : Calm f) (a : Arbiter) (lastJob : Nat)
    (cause : EndCause) : Agree f n a (a.remove name lastJob cause) := by
  cases hr : a.tasks.get? name with
  | none =>
    rw [remove, hr]
    exact .refl a
  | some r =>
    have hforget := agree_forget hn h.competitors a ⟨lastJob, cause⟩
    exact hforget.trans (agree_remove_of_forget hr h lastJob cause)

/-- A task that has been removed is no longer supervised. -/
theorem get?_remove (a : Arbiter) (name : String) (lastJob : Nat) (cause : EndCause) :
    (a.remove name lastJob cause).tasks.get? name = none := by
  cases hr : a.tasks.get? name with
  | none => rw [remove, hr, hr]
  | some r =>
    have hgone : (a.forget name ⟨lastJob, cause⟩).tasks.get? name = none := by
      rw [forget, OrderedMap.get?_mapValues, OrderedMap.get?_erase, if_pos rfl, Option.map_none]
    have hview := (agree_remove_of_forget (n := name) hr calm_supervised lastJob cause).view
    rw [hgone] at hview
    exact Option.map_eq_none_iff.1 hview

/-! ### Examinations -/

/-- An aspect in which nothing can be seen that an examination writes to the record of the task. -/
structure Steady {β : Type} (f : Record → β) : Prop extends Calm f where
  core : ∀ (r : Record) (core : Nat), f { r with core } = f r
  newest : ∀ (r : Record) (newest : NewestJob), f { r with newest } = f r
  arrival : ∀ (r : Record) (arrival : Nat), f { r with arrival } = f r
  utilization : ∀ (r : Record) (utilization : Float), f { r with utilization } = f r

theorem steady_supervised : Steady fun _ : Record => () :=
  ⟨calm_supervised, fun _ _ => rfl, fun _ _ => rfl, fun _ _ => rfl, fun _ _ => rfl⟩

/-- What follows from a finding shows neither in what a task keeps as long as it is supervised, nor
in what the examination of another task leaves alone. -/
private theorem agree_conclusions_of (h : Calm f) {finding : Finding}
    (hown : n = name → Steady f ∧ finding.ends = none) (a : Arbiter) (r : Record) (s : Snapshot) :
    Agree f n a (a.conclusions name r s finding) := by
  have hremove : ∀ (cause : EndCause), finding.ends = some cause →
      ∀ lastJob, Agree f n a (a.remove name lastJob cause) := by
    intro cause hends lastJob
    refine agree_remove (fun hn => ?_) h a lastJob cause
    rw [(hown hn).2] at hends
    cases hends
  have hobserve : ∀ (a : Arbiter) (job : JobRecord), Agree f n a (a.modify name (·.observe job)) :=
    fun a job => agree_modify fun hn r _ => apply_observe (hown hn).1.newest r job
  have hfollow : ∀ (a : Arbiter) (core : Nat), Agree f n a (a.modify name (·.follow core a.cores)) :=
    fun a core => agree_follow (fun hn => (hown hn).1.core) a core
  have harrival : ∀ (a : Arbiter) (g : Record → Nat),
      Agree f n a (a.modify name fun r => { r with arrival := g r }) :=
    fun a g => agree_modify fun hn r _ => (hown hn).1.arrival r (g r)
  have hjudge : ∀ (a : Arbiter) (job : JobRecord), Agree f n a (a.judge name job s) :=
    fun a job => agree_judge h (fun hn => (hown hn).1.utilization) (hfollow a job.core) s
  have hconclude : ∀ (a : Arbiter) (job : JobRecord), Agree f n a (a.conclude name job) := by
    intro a job
    refine ((agree_arbitrate h.allowed a name).trans (hobserve _ job)).trans
      (agree_modify fun hn r _ => ?_)
    split
    · exact (hown hn).1.newest r _
    · rfl
  cases finding with
  | unseen => exact .refl a
  | missing => exact .refl a
  | outdated => exact .refl a
  | vanished => exact .refl a
  | denied => exact (harrival a _).trans (agree_charge h _ name)
  | finished => exact hremove _ rfl _
  | killed => exact hremove _ rfl _
  | terminatedLate =>
    exact ((hfollow a _).trans (agree_miss h _ name _ s)).trans
      (agree_modify fun hn r _ => (hown hn).1.newest r _)
  | running job => exact (hobserve a job).trans (harrival _ _)
  | due job => exact ((hjudge a job).trans (hconclude _ job)).trans (harrival _ _)
  | overtaken earlier latest =>
    exact (((hobserve a latest).trans (hjudge _ earlier)).trans (hconclude _ earlier)).trans
      (harrival _ _)
  | bothDue earlier latest =>
    have hearlier := hjudge a earlier
    exact ((hearlier.trans (hjudge _ latest)).trans (hconclude _ latest)).trans (harrival _ _)

/-- What follows from a finding about another task. -/
theorem agree_conclusions (hn : n ≠ name) (h : Calm f) (a : Arbiter) (r : Record) (s : Snapshot)
    (finding : Finding) : Agree f n a (a.conclusions name r s finding) :=
  agree_conclusions_of h (fun heq => absurd heq hn) a r s

/-- What a task keeps as long as it is supervised. -/
theorem Steady.agree_conclusions (h : Steady f) {finding : Finding} (hends : finding.ends = none)
    (a : Arbiter) (r : Record) (s : Snapshot) : Agree f n a (a.conclusions name r s finding) :=
  agree_conclusions_of h.toCalm (fun _ => ⟨h, hends⟩) a r s

end RealTime.Arbiter
