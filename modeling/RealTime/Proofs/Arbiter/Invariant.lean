import RealTime.Proofs.Arbiter.Kept

/-! # Invariants of the arbiter

A property that does not look at permissions, debts, jobs and cores can be broken in three
places only: when a task is added, when the cause of a missed deadline becomes a competitor
(`blame`), and when a task leaves (`forget`, then `leaveGroup`).  `Invariant P` collects what
has to be shown there; `Invariant.perform` and `Invariant.run` give the property after every
request and every history of requests.  What holds only until a task leaves is `Stable`.

* `cause?_ne`, `contains_cause?`   a cause is another supervised task
* `kept_remove`                    the decisions made upon a removal keep what it leaves
* `Stable.conclusions`             what examinations keep that end no supervision
* `Invariant.run`                  an invariant holds after every history -/

namespace RealTime

/-- Why a finding ends the supervision of the task, if it does. -/
def Finding.ends : Finding → Option EndCause
  | finished => some .finished
  | killed => some .killed
  | _ => none

namespace Arbiter

/-- Carry out requests, one after the other. -/
def run (a : Arbiter) (rs : List Request) : Arbiter := rs.foldl (fun a r => (a.perform r).2) a

/-- Take a task out of the records and out of all sets of competitors, and remember how it
ended. -/
def forget (a : Arbiter) (name : String) (e : Ended) : Arbiter :=
  { a with
    tasks := (a.tasks.erase name).mapValues fun _ o =>
      { o with competitors := o.competitors.erase name }
    ended := if a.ended.contains name then a.ended else a.ended.insert name e }

/-! ### Causes -/

/-- The owner of a newest job is another supervised task. -/
private theorem ownerOf?_spec {a : Arbiter} {name owner : String} {job : Nat}
    (h : a.ownerOf? name job = some owner) :
    owner ≠ name ∧ a.tasks.contains owner = true := by
  obtain ⟨e, he, rfl⟩ := Option.map_eq_some_iff.1 h
  have htest := List.find?_some he
  simp only [Bool.and_eq_true, bne_iff_ne] at htest
  exact ⟨htest.1, OrderedMap.contains_of_mem_entries (List.mem_of_find?_eq_some he)⟩

/-- The best candidate so far, if there is one, is another supervised task. -/
private def Plausible (a : Arbiter) (name : String) (best : Option (Nat × String)) : Prop :=
  ∀ c, best = some c → c.2 ≠ name ∧ a.tasks.contains c.2 = true

private theorem plausible_laterExit {a : Arbiter} {name : String} {best : Option (Nat × String)}
    (h : a.Plausible name best) (exit : Nat) {owner : String} (hne : owner ≠ name)
    (hin : a.tasks.contains owner = true) : a.Plausible name (laterExit best exit owner) := by
  unfold laterExit
  split
  · rintro c ⟨⟩
    exact ⟨hne, hin⟩
  · split
    · rintro c ⟨⟩
      exact ⟨hne, hin⟩
    · exact h

/-- Both walks over the monitoring data keep the best candidate plausible. -/
private theorem cause?_spec {a : Arbiter} {name cause : String} {released : Nat} {s : Snapshot}
    (h : a.cause? name released s = some cause) :
    cause ≠ name ∧ a.tasks.contains cause = true := by
  simp only [cause?] at h
  split at h
  · cases h
  · obtain ⟨c, hc, rfl⟩ := Option.map_eq_some_iff.1 h
    refine List.foldlRecOn (motive := a.Plausible name) _ _ (List.foldlRecOn _ _ ?_ ?_) ?_ c hc
    · -- the first walk starts without a candidate
      intro c hc
      cases hc
    · intro best hbest j _
      split
      · rename_i htest
        simp only [Bool.and_eq_true, bne_iff_ne] at htest
        exact plausible_laterExit hbest _ htest.1.1 htest.2
      · exact hbest
    · -- the second walk goes on with what the first one has found
      intro best hbest t _
      split
      · split
        · rename_i owner howner
          obtain ⟨hne, hin⟩ := ownerOf?_spec howner
          exact plausible_laterExit hbest _ hne hin
        · exact hbest
      · exact hbest

/-- A task is not the cause of its own missed deadline. -/
theorem cause?_ne {a : Arbiter} {name cause : String} {released : Nat} {s : Snapshot}
    (h : a.cause? name released s = some cause) : cause ≠ name :=
  (cause?_spec h).1

/-- The cause of a missed deadline is supervised. -/
theorem contains_cause? {a : Arbiter} {name cause : String} {released : Nat} {s : Snapshot}
    (h : a.cause? name released s = some cause) : a.tasks.contains cause = true :=
  (cause?_spec h).2

/-! ### Removals -/

variable {a b : Arbiter} {name : String}

/-- A change of one record carries over to what has been kept, if it carries over to records. -/
theorem Kept.modify (h : a.Kept b) (name : String) {f : Record → Record}
    (hf : ∀ r r' : Record, r.Kept a.cores r' → (f r).Kept a.cores (f r')) :
    (a.modify name f).Kept (b.modify name f) where
  cores := h.cores
  groups := h.groups
  ended := h.ended
  records := fun other => by
    have hrel := h.records other
    simp only [Arbiter.modify, OrderedMap.get?_modify]
    split
    · generalize a.tasks.get? other = x at hrel
      generalize b.tasks.get? other = y at hrel
      cases hrel with
      | none => exact .none
      | some hr => exact .some (hf _ _ hr)
    · exact hrel

/-- Putting a task into a group carries over to what has been kept. -/
theorem Kept.setGroup (h : a.Kept b) (name : String) (group : Nat) :
    (a.setGroup name group).Kept (b.setGroup name group) :=
  h.modify name fun _ _ hr => ⟨hr.deadline, hr.interArrival, rfl, hr.competitors, hr.debts, hr.core⟩

/-- Leaving a group carries over to what has been kept: it depends on groups and competitors
only. -/
theorem Kept.leaveGroup (h : a.Kept b) (name : String) (r : Record) :
    (a.leaveGroup name r).Kept (b.leaveGroup name r) := by
  -- the numbers of competitors make the threshold of what is left of the group
  have hsize : ∀ m, (b.tasks.get? m).map (·.competitors.size) =
      (a.tasks.get? m).map (·.competitors.size) := by
    intro m
    have hrel := h.records m
    generalize a.tasks.get? m = x at hrel
    generalize b.tasks.get? m = y at hrel
    cases hrel with
    | none => rfl
    | some hr => simp only [Option.map_some, hr.competitors]
  have hwith : ∀ gs, ({ a with groups := gs } : Arbiter).Kept { b with groups := gs } :=
    fun gs => ⟨h.cores, rfl, h.ended, h.records⟩
  simp only [Arbiter.leaveGroup, h.groups, hsize]
  split
  · exact h
  · split
    · split
      · exact (hwith _).setGroup _ 0
      · exact hwith _
    · exact hwith _

/-- A removal takes the task out and then only decides. -/
theorem kept_remove {r : Record} (hr : a.tasks.get? name = some r) (lastJob : Nat)
    (cause : EndCause) :
    ((a.forget name ⟨lastJob, cause⟩).leaveGroup name r).Kept (a.remove name lastJob cause) := by
  simp only [remove, hr]
  -- decisions are made before the group is left, and again afterwards
  exact ((kept_arbitrateAll _ _).leaveGroup name r).trans (kept_arbitrateAll _ _)

/-- What follows from a finding that ends the supervision of the task. -/
theorem conclusions_of_ends (a : Arbiter) (name : String) (r : Record) (s : Snapshot) {f : Finding}
    {cause : EndCause} (hf : f.ends = some cause) :
    a.conclusions name r s f = a.remove name r.newest.id cause := by
  cases f with
  | finished =>
    cases hf
    rfl
  | killed =>
    cases hf
    rfl
  | _ => cases hf

/-! ### Invariants -/

/-- What has to be shown of a property so that nothing but the end of a task can break it. -/
structure Stable (P : Arbiter → Prop) : Prop where
  /-- It does not depend on permissions, debts, jobs and cores. -/
  kept : ∀ {a b : Arbiter}, a.Kept b → P a → P b
  add : ∀ {a : Arbiter} {core : Nat} {t : Task}, core < a.cores →
    a.tasks.contains t.name = false → P a → P (a.add core t).2
  blame : ∀ {a : Arbiter} {name cause : String}, a.tasks.contains name = true →
    a.tasks.contains cause = true → cause ≠ name → P a → P (a.blame name cause)

/-- What has to be shown of a property so that no request can break it. -/
structure Invariant (P : Arbiter → Prop) : Prop extends Stable P where
  leave : ∀ {a : Arbiter} {name : String} {r : Record} (e : Ended),
    a.tasks.get? name = some r → P a → P ((a.forget name e).leaveGroup name r)

namespace Stable

variable {P : Arbiter → Prop} (inv : Stable P)

include inv

theorem miss (h : P a) (name : String) (released : Nat) (s : Snapshot) :
    P (a.miss name released s) := by
  rw [Arbiter.miss]
  split
  · rename_i hin
    cases hc : a.cause? name released s with
    | none => exact inv.kept (kept_charge a name) h
    | some cause =>
      have hblame := inv.blame hin (contains_cause? hc) (cause?_ne hc) h
      exact inv.kept (kept_charge _ name) hblame
  · exact h

theorem judge (h : P a) (name : String) (job : JobRecord) (s : Snapshot) :
    P (a.judge name job s) := by
  have hfollow := inv.kept (kept_follow a name job.core) h
  simp only [Arbiter.judge]
  split
  · exact hfollow
  · split
    · exact inv.kept (kept_modify fun r => r.kept_reward job) hfollow
    · exact inv.miss hfollow name job.arrival s

theorem conclude (h : P a) (name : String) (job : JobRecord) : P (a.conclude name job) :=
  inv.kept (kept_conclude a name job) h

/-- What follows from a finding keeps the property as long as the task stays supervised. -/
theorem conclusions (h : P a) (name : String) (r : Record) (s : Snapshot) {f : Finding}
    (hf : f.ends = none) : P (a.conclusions name r s f) := by
  cases f with
  | unseen => exact h
  | missing => exact h
  | outdated => exact h
  | vanished => exact h
  | denied =>
    have hnext : a.Kept (a.modify name fun r =>
        { r with arrival := Clock.after r.arrival r.interArrival }) :=
      kept_modify fun _ => ⟨rfl, rfl, rfl, rfl, rfl, id⟩
    exact inv.kept (hnext.trans (kept_charge _ name)) h
  | finished => cases hf
  | killed => cases hf
  | terminatedLate =>
    have hfollow := inv.kept (kept_follow a name r.newest.core) h
    exact inv.kept (kept_modify fun _ => ⟨rfl, rfl, rfl, rfl, rfl, id⟩)
      (inv.miss hfollow name r.newest.arrival s)
  | running job =>
    have hobserve : a.Kept (a.modify name (·.observe job)) := kept_modify fun r => r.kept_observe job
    exact inv.kept (hobserve.trans (kept_setArrival _ name job)) h
  | due job =>
    exact inv.kept (kept_setNextArrival _ name job)
      (inv.conclude (inv.judge h name job s) name job)
  | overtaken earlier latest =>
    have hobserve : P (a.modify name (·.observe latest)) :=
      inv.kept (kept_modify fun r => r.kept_observe latest) h
    exact inv.kept (kept_setArrival _ name latest)
      (inv.conclude (inv.judge hobserve name earlier s) name earlier)
  | bothDue earlier latest =>
    have hearlier := inv.judge h name earlier s
    exact inv.kept (kept_setNextArrival _ name latest)
      (inv.conclude (inv.judge hearlier name latest s) name latest)

theorem move (h : P a) (name : String) (core : Nat) : P (a.move name core).2 := by
  rw [Arbiter.move]
  split
  · exact h
  · rename_i hcore
    split
    · have hmove : a.Kept (a.modify name fun r => { r with core }) :=
        kept_modify fun _ => ⟨rfl, rfl, rfl, rfl, rfl, fun _ => Nat.lt_of_not_le hcore⟩
      exact inv.kept (hmove.trans (kept_arbitrateAll _ _)) h
    · exact h

/-- Only polls end tasks. -/
theorem perform (h : P a) {q : Request} (hq : ∀ s, q ≠ .poll s) : P (a.perform q).2 := by
  cases q with
  | setGoal config =>
    have hconfig : a.Kept (a.setGoal config) := ⟨rfl, rfl, rfl, (Kept.refl a).records⟩
    exact inv.kept hconfig h
  | add core task =>
    show P (a.add core task).2
    by_cases hcore : core < a.cores
    · cases hin : a.tasks.contains task.name with
      | false => exact inv.add hcore hin h
      | true => simpa only [Arbiter.add, Nat.not_le.2 hcore, ge_iff_le, if_false, hin, if_true] using h
    · simpa only [Arbiter.add, ge_iff_le, Nat.not_lt.1 hcore, if_true] using h
  | lastJobStarted name =>
    show P (a.lastJobStarted name).2
    rw [Arbiter.lastJobStarted]
    split
    · exact inv.kept (kept_modify fun _ => ⟨rfl, rfl, rfl, rfl, rfl, id⟩) h
    · exact h
  | move name core => exact inv.move h name core
  | poll s => exact absurd rfl (hq s)

end Stable

namespace Invariant

variable {P : Arbiter → Prop} (inv : Invariant P)

include inv

theorem remove (h : P a) (name : String) (lastJob : Nat) (cause : EndCause) :
    P (a.remove name lastJob cause) := by
  cases hr : a.tasks.get? name with
  | none => simpa only [Arbiter.remove, hr] using h
  | some r => exact inv.kept (kept_remove hr lastJob cause) (inv.leave _ hr h)

/-- Whatever the examination of a task finds, what follows from it keeps the property. -/
theorem conclusions (h : P a) (name : String) (r : Record) (s : Snapshot) (f : Finding) :
    P (a.conclusions name r s f) := by
  cases hf : f.ends with
  | none => exact inv.toStable.conclusions h name r s hf
  | some cause =>
    rw [conclusions_of_ends a name r s hf]
    exact inv.remove h name _ cause

theorem examine (h : P a) (name : String) (s : Snapshot) : P (a.examine name s) := by
  rw [Arbiter.examine]
  split
  · exact h
  · exact inv.conclusions (inv.kept (kept_observeOthers a name s) h) name _ s _

theorem poll (h : P a) (s : Snapshot) : P (a.poll s).2 := by
  rw [Arbiter.poll]
  split
  · refine List.foldlRecOn (motive := fun na : Nat × Arbiter => P na.2) _ _ h ?_
    rintro ⟨n, a⟩ ha name -
    dsimp only
    split
    · exact inv.examine ha name s
    · exact ha
  · exact h

/-- No request breaks an invariant. -/
theorem perform (h : P a) (r : Request) : P (a.perform r).2 := by
  cases r with
  | poll s => exact inv.poll h s
  | _ => exact inv.toStable.perform h fun s => nofun

/-- An invariant holds after every history of requests. -/
theorem run (h : P a) (rs : List Request) : P (a.run rs) := by
  induction rs generalizing a with
  | nil => exact h
  | cons r rs ih => exact ih (inv.perform h r)

end Invariant

end Arbiter

end RealTime
