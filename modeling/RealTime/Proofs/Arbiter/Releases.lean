import RealTime.Proofs.Arbiter.Components
import RealTime.Proofs.Arbiter.Lifecycle
import RealTime.Proofs.Arbiter.Rulings

/-! # Tasks that are released

When a task is moved to another core, and when it is removed, other tasks may lose the only one that
was denying them.  All members of its group are decided about again then.  A member that nobody on
its core competes with any more is permitted afterwards, whatever the decisions about the others
have denied in the meantime: a decision denies a task only on account of another one on its core
that it is linked with, and no decision takes a link away.

* `Justified.decided`   only tasks that have not been decided about may be denied without a link
* `released_move`       a task that is moved
* `released_remove`     a task that is removed
* `released_history`    all removals of a history, and every move after it -/

namespace RealTime.Arbiter

variable {a : Arbiter} {name x y : String} {r : Record} {core : Nat} {P : String → Prop}
  {names : List String} {rs : List Request} {e : Examination}

/-- A task is permitted if it faces nobody and nobody faces it. -/
def Released (a : Arbiter) (y : String) : Prop :=
  ∀ r, a.tasks.get? y = some r → (∀ z, ¬ a.Faces y z) → (∀ z, ¬ a.Faces z y) → r.allowed = true

theorem Linked.faces (h : a.Linked x y) : a.Faces x y ∨ a.Faces y x := by
  obtain ⟨_, r, o, hr, ho, hcore, hcomp⟩ := h
  cases hcomp with
  | inl hcomp => exact .inl ⟨r, o, hr, ho, hcore, hcomp⟩
  | inr hcomp => exact .inr ⟨o, r, ho, hr, hcore.symm, hcomp⟩

/-! ### Several decisions -/

/-- A task that is no exception is released. -/
theorem Justified.released (h : a.Justified P) (hy : ¬ P y) : a.Released y := by
  intro r hr hfaces hfaced
  cases hallowed : r.allowed with
  | true => rfl
  | false =>
    cases h.linked hr hallowed with
    | inl hlinked =>
      obtain ⟨z, hz⟩ := hlinked
      cases hz.faces with
      | inl hyz => exact absurd hyz (hfaces z)
      | inr hzy => exact absurd hzy (hfaced z)
    | inr hP => exact absurd hP hy

/-- Whatever was denied before, afterwards only those that have not been decided about may be denied
without a link. -/
theorem Justified.decided (h : a.Justified P) (names : List String) :
    (a.arbitrateAll names).Justified (· ∉ names) := by
  refine Justified.arbitrateAll ⟨h.active, h.not_self, ?_⟩
  intro x _ _ _
  exact .inr (Decidable.em (x ∈ names))

/-- Nothing is asked of exceptions, so all tasks may be exceptions at first. -/
theorem Consistent.justified (h : a.Consistent) (hactive : a.config.goal.isActive = true) :
    a.Justified fun _ => True where
  active := hactive
  not_self := fun hr hself => (h.competitor hr hself).1 rfl
  linked := fun _ _ => .inr trivial

/-! ### A task that is moved -/

/-- A move succeeds if there are such a core and such a task. -/
theorem move_ok_iff :
    (a.move name core).1 = .ok () ↔ core < a.cores ∧ a.tasks.contains name = true := by
  unfold move
  split
  · rename_i hcore
    exact iff_of_false (by simp) fun h => absurd h.1 (Nat.not_lt.2 hcore)
  · rename_i hcore
    split
    · exact iff_of_true rfl ⟨Nat.lt_of_not_le hcore, ‹_›⟩
    · exact iff_of_false (by simp) fun h => absurd h.2 ‹_›

/-- Everyone in the group of the task is decided about after a move. -/
theorem released_move (hcons : a.Consistent) (hactive : a.config.goal.isActive = true)
    (hmove : (a.move name core).1 = .ok ()) (hy : y = name ∨ a.Together name y) :
    (a.move name core).2.Released y := by
  obtain ⟨hcore, hin⟩ := move_ok_iff.1 hmove
  have hkept : a.Kept (a.modify name fun r => { r with core }) :=
    kept_modify fun _ => ⟨rfl, rfl, rfl, rfl, rfl, fun _ => hcore⟩
  have hcons' := hcons.kept hkept
  have hmem : y ∈ name :: (a.modify name fun r => { r with core }).relatives name := by
    by_cases hne : y = name
    · exact hne ▸ List.mem_cons_self
    · have htogether := hkept.together_iff.2 (hy.resolve_left hne)
      obtain ⟨r, o, hr, ho, hgroup, h0⟩ := hcons'.toGrouped.together_iff.1 htogether
      exact List.mem_cons_of_mem name (hcons'.toGrouped.mem_relatives ho hr hgroup h0 hne)
  unfold move
  rw [if_neg (Nat.not_le.2 hcore), if_pos hin]
  exact ((hcons'.justified hactive).decided _).released fun hout => hout hmem

/-! ### A task that is removed -/

/-- Everyone else in the group of the task is decided about after its removal. -/
theorem released_remove (hcons : a.Consistent) (hactive : a.config.goal.isActive = true)
    (hr : a.tasks.get? name = some r) (hy : a.Together name y) (hne : y ≠ name) (lastJob : Nat)
    (cause : EndCause) : (a.remove name lastJob cause).Released y := by
  have hforget := (hcons.justified hactive).forget hr ⟨lastJob, cause⟩
  have hclaimants := hforget.decided (a.claimants name)
  have hleave := hclaimants.congr (b := leaveGroup _ name r)
    fun n => agree_leaveGroup (fun _ _ => rfl) _ name r
  have hgroups : ((a.forget name ⟨lastJob, cause⟩).arbitrateAll (a.claimants name)).groups =
      a.groups := (kept_arbitrateAll _ _).groups
  rw [remove_eq hr]
  refine (hleave.decided _).released fun hout => hout ?_
  -- the members are looked up before the task leaves the group
  obtain ⟨id, g, hg, hname, hyg⟩ := hy
  rw [mem_staying, hgroups, (hcons.mem_iff hg hr).1 hname]
  exact ⟨hne, g, hg, hyg⟩

/-! ### Examinations -/

/-- Tasks are examined under an active goal only. -/
theorem isActive_of_mem_examinations {s : Snapshot} (hcons : a.Consistent)
    (hactive : a.config.goal.isActive = true) (he : e ∈ a.examinations s names) :
    e.arbiter.config.goal.isActive = true := by
  induction names generalizing a with
  | nil => cases he
  | cons name names ih =>
    rw [examinations] at he
    split at he
    · exact ih hcons hactive he
    · rename_i r hr
      cases List.mem_cons.1 he with
      | inl heq => rw [heq]; exact hactive
      | inr hlater =>
        have hnext := ((hcons.justified hactive).examine hcons hr s).active
        exact ih (invariant_consistent.examine hcons name s) hnext hlater

theorem isActive_of_mem_history (hcons : a.Consistent) (he : e ∈ a.history rs) :
    e.arbiter.config.goal.isActive = true := by
  induction rs generalizing a with
  | nil => cases he
  | cons q rs ih =>
    rw [history] at he
    cases List.mem_append.1 he with
    | inl hfirst =>
      cases q with
      | poll s =>
        simp only [examinationsOf] at hfirst
        split at hfirst
        · exact isActive_of_mem_examinations hcons ‹_› hfirst
        · cases hfirst
      | _ => cases hfirst
    | inr hlater => exact ih (invariant_consistent.perform hcons q) hlater

/-- A task that is no longer supervised after its examination has been removed. -/
theorem after_eq_remove (hr : e.arbiter.tasks.get? e.task = some e.record)
    (hgone : e.after.tasks.get? e.task = none) :
    ∃ cause, e.after =
      (e.arbiter.observeOthers e.task e.snapshot).remove e.task e.record.newest.id cause := by
  cases hends : e.finding.ends with
  | none =>
    have hstays : e.after.tasks.contains e.task = e.arbiter.tasks.contains e.task :=
      (steady_supervised.agree_examine hr hends).contains
    rw [OrderedMap.contains_eq_false_iff.2 hgone, OrderedMap.contains_iff.2 ⟨_, hr⟩] at hstays
    cases hstays
  | some cause =>
    refine ⟨cause, ?_⟩
    rw [Examination.after, examine_of_some hr]
    exact conclusions_of_ends _ _ _ _ hends

/-- After every history of requests, a task that is moved leaves nobody of its group denied who
faces nobody and whom nobody faces, and neither is it denied itself in that case.  The same holds
after each examination that has removed a task, and that task is named by no competitor and listed
by no group any more. -/
theorem released_history (cores : Nat) (rs : List Request) :
    ((run { cores } rs).config.goal.isActive = true →
      ∀ x core, ((run { cores } rs).move x core).1 = .ok () →
        ∀ y, y = x ∨ (run { cores } rs).Together x y → ((run { cores } rs).move x core).2.Released y) ∧
    ∀ e ∈ history { cores } rs, e.after.tasks.get? e.task = none →
      (∀ y, e.arbiter.Together e.task y → e.after.Released y) ∧
      (∀ n r, e.after.tasks.get? n = some r → e.task ∉ r.competitors) ∧
      ∀ id g, e.after.groups.get? id = some g → e.task ∉ g.members := by
  have hempty := consistent_empty cores
  constructor
  · intro hactive x core hmove y hy
    exact released_move (run_consistent cores rs) hactive hmove hy
  · intro e he hgone
    have hcons : e.arbiter.Consistent := invariant_consistent.of_mem_history hempty he
    have hafter : e.after.Consistent := invariant_consistent.examine hcons _ _
    refine ⟨fun y hy => ?released, fun n r hr hcomp => ?competitors, fun id g hg hmem => ?groups⟩
    case released =>
      by_cases hne : y = e.task
      · intro r hr
        rw [hne, hgone] at hr
        cases hr
      · have hr := get?_of_mem_history he
        have hkept := kept_observeOthers e.arbiter e.task e.snapshot
        have hr' := (get?_observeOthers e.arbiter e.task e.snapshot).trans hr
        obtain ⟨cause, hremove⟩ := after_eq_remove hr hgone
        have hactive : (e.arbiter.observeOthers e.task e.snapshot).config.goal.isActive = true := by
          rw [(agree_observeOthers (f := id) e.arbiter e.task e.snapshot).config]
          exact isActive_of_mem_history hempty he
        rw [hremove]
        exact released_remove (hcons.kept hkept) hactive hr' (hkept.together_iff.2 hy) hne _ cause
    case competitors =>
      obtain ⟨_, o, ho, _⟩ := hafter.competitor hr hcomp
      rw [hgone] at ho
      cases ho
    case groups =>
      obtain ⟨o, ho, _⟩ := hafter.group_eq hg hmem
      rw [hgone] at ho
      cases ho

/-! The task that keeps two others denied is moved to another core, or it finishes. -/

/-- The last job of `a` is announced, and no further one is seen. -/
def finale : List Request :=
  contest .fairness ++ [.lastJobStarted "a", .poll { now := 32000, jobs := [], terminated := [] }]

/-- The examination in which `a` is removed. -/
def parting : Examination := (history { cores := 1 } finale).get ⟨6, by decide +kernel⟩

/-- Either way `b`, which was denied before, is released. -/
theorem released_contested :
    ((run { cores := 2 } (contest .fairness)).isAllowed "b" = .ok false ∧
      ((run { cores := 2 } (contest .fairness)).move "a" 1).1 = .ok () ∧
      ((run { cores := 2 } (contest .fairness)).move "a" 1).2.Released "b") ∧
    parting.task = "a" ∧ parting.arbiter.isAllowed "b" = .ok false ∧ parting.after.Released "b" ∧
      parting.after.isAllowed "b" = .ok true := by
  have hmove : ((run { cores := 2 } (contest .fairness)).move "a" 1).1 = .ok () :=
    move_ok_iff.2 (by decide +kernel)
  have htogether : (run { cores := 2 } (contest .fairness)).Together "a" "b" :=
    ⟨1, ((run { cores := 2 } (contest .fairness)).groups.get? 1).get (by decide +kernel),
      (Option.some_get _).symm, by decide +kernel, by decide +kernel⟩
  have htask : parting.task = "a" := by decide +kernel
  have htogether' : parting.arbiter.Together parting.task "b" :=
    ⟨1, (parting.arbiter.groups.get? 1).get (by decide +kernel), (Option.some_get _).symm,
      by decide +kernel, by decide +kernel⟩
  have hgone : parting.after.tasks.get? parting.task = none := by
    rw [← Option.isNone_iff_eq_none]
    decide +kernel
  exact ⟨⟨by decide +kernel, hmove,
      (released_history 2 (contest .fairness)).1 (by decide +kernel) "a" 1 hmove "b" (.inr htogether)⟩,
    htask, by decide +kernel,
    ((released_history 1 finale).2 parting (List.get_mem _ _) hgone).1 "b" htogether',
    by decide +kernel⟩

end RealTime.Arbiter
