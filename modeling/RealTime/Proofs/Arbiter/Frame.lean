import RealTime.Proofs.Arbiter.Components

/-! # What the examination of a task leaves alone

An examination writes to the task, to its competitors and to the members of its group.  Competitors
are in one group, so whoever is in the group of the task neither before nor afterwards is left alone:
of such a task only a newer job may be noted.  This does not follow from the code of one examination,
which collects the names to write to from competitors and groups, but needs that these are
consistent.

* `Spares.trans`, `spares_of_kept`   steps that do not leave the group of the task
* `spares_blame`                     a new competitor
* `apart_remove`                     a task that leaves
* `frame_history`                    all examinations of a history -/

namespace RealTime

/-- A record but for the newest job. -/
def Record.aside (r : Record) : Record := { r with newest := {} }

namespace Arbiter

variable {a b c : Arbiter} {name n : String} {r : Record} {s : Snapshot} {β : Type} {f : Record → β}

/-! ### What decisions, debts and departures write -/

/-- A decision writes to the task and to its competitors. -/
theorem agree_arbitrate_of_ne (hne : n ≠ name)
    (hcomp : ∀ r, a.tasks.get? name = some r → n ∉ r.competitors) :
    Agree f n a (a.arbitrate name) := by
  have hpermit : ∀ (b : Arbiter) {m : String}, n ≠ m → ∀ allowed, Agree f n b (b.permit m allowed) :=
    fun b m hm allowed => agree_modify fun heq => absurd heq hm
  unfold arbitrate
  split
  · exact .refl a
  · rename_i r hr
    have hrival : ∀ e ∈ a.rivals r, n ≠ e.1 := fun e he heq =>
      hcomp r hr (heq ▸ (mem_rivals.1 he).1)
    split
    · exact .refl a
    · split
      · split
        · exact .refl a
        · exact hpermit a hne true
      · split
        · refine (hpermit a hne true).trans ?_
          refine List.foldlRecOn (motive := fun b => Agree f n _ b) _ _ (.refl _) ?_
          exact fun b hb e he => hb.trans (hpermit b (hrival e he) false)
        · rename_i winner _ hwinner
          obtain ⟨o, hmem⟩ := mem_of_leader? hwinner
          exact (hpermit a hne false).trans (hpermit _ (hrival _ hmem) true)

/-- Several decisions write to these tasks and to their competitors, which stay the same. -/
theorem agree_arbitrateAll_of_ne {names : List String} (hne : ∀ m ∈ names, n ≠ m)
    (hcomp : ∀ m ∈ names, ∀ r, a.tasks.get? m = some r → n ∉ r.competitors) :
    Agree f n a (a.arbitrateAll names) := by
  induction names generalizing a with
  | nil => exact .refl a
  | cons m names ih =>
    have hfirst : Agree f n a (a.arbitrate m) :=
      agree_arbitrate_of_ne (hne m List.mem_cons_self) (hcomp m List.mem_cons_self)
    refine hfirst.trans (ih (fun k hk => hne k (List.mem_cons_of_mem m hk)) fun k hk o' ho' => ?_)
    obtain ⟨o, ho, hoo'⟩ := (kept_arbitrate a m).get? ho'
    rw [hoo'.competitors]
    exact hcomp k (List.mem_cons_of_mem m hk) o ho

/-- Settling writes to the members of the group. -/
theorem agree_settle_of_not_mem
    (h : ∀ r g, a.tasks.get? name = some r → a.groups.get? r.group = some g → n ∉ g.members) :
    Agree f n a (a.settle name) := by
  simp only [settle]
  split
  · exact .refl a
  · rename_i r hr
    split
    · exact .refl a
    · rename_i g hg
      split
      · exact .refl a
      · refine List.foldlRecOn (motive := fun b => Agree f n a b) _ _ (.refl a) ?_
        intro b hb m hm
        refine hb.trans (agree_modify fun heq => absurd ?_ (h r g hr hg))
        exact heq ▸ hm

/-- Leaving a group writes to a member that stays behind alone. -/
theorem agree_leaveGroup_of_not_mem (h : ∀ g, a.groups.get? r.group = some g → n ∉ g.members) :
    Agree f n a (a.leaveGroup name r) := by
  have hwith : ∀ gs : Groups, Agree f n a { a with groups := gs } := fun _ => ⟨rfl, rfl, rfl⟩
  simp only [leaveGroup]
  split
  · exact .refl a
  · rename_i g hg
    split
    · split
      · rename_i last hlast
        refine (hwith _).trans (agree_modify fun heq => absurd ?_ (h g hg))
        exact (OrderedSet.mem_erase.1 (heq ▸ List.mem_of_head? hlast)).1
      · exact hwith _
    · exact hwith _

/-- Only the group that is left changes. -/
theorem get?_leaveGroup_groups {id : Nat} (hid : id ≠ r.group) :
    (a.leaveGroup name r).groups.get? id = a.groups.get? id := by
  simp only [leaveGroup]
  split
  · rfl
  · split
    · split
      · show (a.groups.erase r.group).get? id = _
        rw [OrderedMap.get?_erase, if_neg hid]
      · rw [OrderedMap.get?_erase, if_neg hid]
    · rw [OrderedMap.get?_modify, if_neg hid]

/-! ### Steps within a group -/

/-- No task leaves the group of `name`, and nothing changes outside it. -/
structure Outside (name : String) (a b : Arbiter) : Prop where
  grows : ∀ {n}, a.Together name n → b.Together name n
  competitors : ∀ {n}, n ≠ name →
    (b.tasks.get? n).map Record.competitors = (a.tasks.get? n).map Record.competitors
  records : ∀ {n}, n ≠ name → ¬ b.Together name n →
    (b.tasks.get? n).map Record.aside = (a.tasks.get? n).map Record.aside
  groups : ∀ {id g}, (∀ n ∈ g.members, ¬ b.Together name n) →
    (b.groups.get? id = some g ↔ a.groups.get? id = some g)

theorem Outside.trans (h : Outside name a b) (h' : Outside name b c) : Outside name a c where
  grows := fun hn => h'.grows (h.grows hn)
  competitors := fun hn => (h'.competitors hn).trans (h.competitors hn)
  records := fun hn hapart =>
    (h'.records hn hapart).trans (h.records hn fun hb => hapart (h'.grows hb))
  groups := fun hapart =>
    (h'.groups hapart).trans (h.groups fun n hn hb => hapart n hn (h'.grows hb))

/-- As long as all is consistent, a step stays consistent and within the group of `name`. -/
def Spares (name : String) (a b : Arbiter) : Prop := a.Consistent → b.Consistent ∧ Outside name a b

theorem Spares.trans (h : Spares name a b) (h' : Spares name b c) : Spares name a c := by
  intro hcons
  obtain ⟨hb, hab⟩ := h hcons
  obtain ⟨hc, hbc⟩ := h' hb
  exact ⟨hc, hab.trans hbc⟩

/-- Whoever is named as a competitor is in the same group. -/
theorem Consistent.together_of_mem (h : a.Consistent) (hr : a.tasks.get? name = some r)
    (hn : n ∈ r.competitors) : a.Together name n := by
  obtain ⟨hne, o, ho, -⟩ := h.competitor hr hn
  exact h.together_of_competes ⟨hne.symm, r, o, hr, ho, .inl hn⟩

/-- Competitors and groups are kept, so only the records outside the group are left to look at. -/
theorem spares_of_kept (hk : a.Kept b)
    (hrecords : a.Consistent → ∀ {n}, n ≠ name → ¬ a.Together name n → Agree Record.aside n a b) :
    Spares name a b := by
  intro hcons
  refine ⟨hcons.kept hk, hk.together_iff.2, fun {n} hn => ?_, fun {n} hn hapart => ?_, fun _ => ?_⟩
  · have hrel := hk.records n
    generalize a.tasks.get? n = x at hrel
    generalize b.tasks.get? n = y at hrel
    cases hrel with
    | none => rfl
    | some hr => simp only [Option.map_some, hr.competitors]
  · exact (hrecords hcons hn fun ha => hapart (hk.together_iff.2 ha)).view
  · rw [hk.groups]

theorem Spares.refl (name : String) (a : Arbiter) : Spares name a a :=
  spares_of_kept (.refl a) fun _ _ _ _ => .refl a

/-- The record of `name` itself is nobody else's. -/
theorem outside_modify (a : Arbiter) (name : String) (f : Record → Record) :
    Outside name a (a.modify name f) where
  grows := id
  competitors := fun hn => by rw [get?_modify, if_neg hn]
  records := fun hn _ => by rw [get?_modify, if_neg hn]
  groups := fun _ => Iff.rfl

theorem spares_modify {f : Record → Record} (hf : ∀ r : Record, r.Kept a.cores (f r)) :
    Spares name a (a.modify name f) :=
  fun hcons => ⟨hcons.kept (kept_modify hf), outside_modify a name f⟩

theorem spares_arbitrate (a : Arbiter) (name : String) : Spares name a (a.arbitrate name) :=
  spares_of_kept (kept_arbitrate a name) fun hcons _ hn hapart =>
    agree_arbitrate_of_ne hn fun _ hr hc => hapart (hcons.together_of_mem hr hc)

theorem spares_settle (a : Arbiter) (name : String) : Spares name a (a.settle name) :=
  spares_of_kept (kept_settle a name) fun hcons _ _ hapart =>
    agree_settle_of_not_mem fun _ g hr hg hmem =>
      hapart ⟨_, g, hg, (hcons.mem_iff hg hr).2 rfl, hmem⟩

theorem spares_charge (a : Arbiter) (name : String) : Spares name a (a.charge name) := by
  have hraise : Spares name a (a.modify name fun r => r.modifyDebt r.core Debt.raise) :=
    spares_modify fun r => r.kept_modifyDebt ..
  simp only [charge]
  split
  · exact hraise.trans (spares_arbitrate _ name)
  · exact (hraise.trans (spares_settle _ name)).trans (spares_arbitrate _ name)

/-! ### A new competitor -/

/-- Uniting the groups of two tasks concerns those who are joined only, and they are together
afterwards. -/
theorem Relation.outside {cause : String} {k : Nat} (hrel : Relation a b name cause k)
    (hplaced : a.Placed) (hr : a.tasks.get? name = some r) : Outside name a b := by
  obtain ⟨gk, hgk, hmem⟩ := hrel.members
  have hname : name ∈ gk.members := (hmem name).2 ⟨r, hr, .inl rfl⟩
  have hjoined : ∀ {n o}, a.tasks.get? n = some o → a.Joined name cause n o → b.Together name n :=
    fun ho hj => ⟨k, gk, hgk, hname, (hmem _).2 ⟨_, ho, hj⟩⟩
  -- the groups that are united have members, and these are joined
  have hunited : ∀ {id g}, a.groups.get? id = some g →
      id = a.groupOf name ∨ id = a.groupOf cause → ∃ n ∈ g.members, b.Together name n := by
    intro id g hg hid
    obtain ⟨n, hn⟩ := OrderedSet.exists_mem_of_size_pos
      (Nat.lt_of_lt_of_le Nat.zero_lt_two (hplaced.two_le_size hg))
    obtain ⟨o, ho, rfl⟩ := hplaced.group_eq hg hn
    exact ⟨n, hn, hjoined ho (.inr (.inr ⟨hplaced.ne_zero hg, hid⟩))⟩
  refine ⟨fun {n} hn => ?grows, fun {n} hn => ?competitors, fun {n} hn hapart => ?records,
    fun {id g} hapart => ?groups⟩
  case grows =>
    obtain ⟨r', o, hr', ho, hog, h0⟩ := hplaced.together_iff.1 hn
    refine hjoined ho (.inr (.inr ⟨hog ▸ h0, .inl ?_⟩))
    rw [groupOf_eq hr', hog]
  case competitors =>
    rw [hrel.tasks, Option.map_map]
    congr 1
    funext o
    simp only [Function.comp_apply]
    split <;> rfl
  case records =>
    rw [hrel.tasks]
    cases ho : a.tasks.get? n with
    | none => rfl
    | some o => rw [Option.map_some, if_neg fun hj => hapart (hjoined ho hj)]
  case groups =>
    by_cases hid : id = k
    · subst hid
      refine iff_of_false (fun hg => ?_) fun hg => ?_
      · obtain rfl := Option.some.inj (hgk.symm.trans hg)
        exact hapart name hname ⟨id, gk, hgk, hname, hname⟩
      · rcases hrel.origin with hnew | hid
        · rw [hnew] at hg
          cases hg
        · obtain ⟨n, hn, htogether⟩ := hunited hg hid
          exact hapart n hn htogether
    · rw [hrel.others id hid]
      split
      · refine iff_of_false (fun hg => by cases hg) fun hg => ?_
        obtain ⟨n, hn, htogether⟩ := hunited hg ‹_›
        exact hapart n hn htogether
      · exact Iff.rfl

/-- Raising the threshold of the group of `name` concerns this group only. -/
theorem Grouped.outside_raiseThreshold (h : a.Grouped) (hr : a.tasks.get? name = some r)
    (value : Nat) :
    Outside name a { a with groups := a.groups.raiseThreshold (a.groupOf name) value } := by
  have hsame := a.groups.get?_raiseThreshold (a.groupOf name) value
  refine ⟨fun hn => hn.congr hsame, fun _ => rfl, fun _ _ => rfl, fun {id g} hapart => ?_⟩
  by_cases hid : id = a.groupOf name
  · -- `name` itself is a member of this group, before and afterwards
    have hmem : ∀ {g}, a.groups.get? id = some g → name ∈ g.members := fun hg =>
      (h.mem_iff hg hr).2 (hid.trans (groupOf_eq hr)).symm
    refine iff_of_false (fun hg => ?_) fun hg => ?_
    · have hmembers := hsame id
      rw [show (a.groups.raiseThreshold (a.groupOf name) value).get? id = some g from hg]
        at hmembers
      obtain ⟨g', hg', hgg'⟩ := Option.map_eq_some_iff.1 hmembers.symm
      have hname := hgg' ▸ hmem hg'
      exact hapart name hname ⟨id, g, hg, hname, hname⟩
    · have hname := hmem hg
      have htogether : a.Together name name := ⟨id, g, hg, hname, hname⟩
      exact hapart name hname (htogether.congr hsame)
  · show (a.groups.modify _ _).get? id = some g ↔ _
    rw [OrderedMap.get?_modify, if_neg hid]

theorem spares_blame {cause : String} (hname : a.tasks.contains name = true)
    (hcause : a.tasks.contains cause = true) (hne : cause ≠ name) :
    Spares name a (a.blame name cause) := by
  intro hcons
  refine ⟨hcons.blame hname hcause hne, ?_⟩
  rw [← contains_compete a name cause] at hname hcause
  obtain ⟨r, hr⟩ := OrderedMap.contains_iff.1 hname
  obtain ⟨o, ho⟩ := OrderedMap.contains_iff.1 hcause
  have hplaced := hcons.toPlaced.compete name cause
  obtain ⟨k, hrel⟩ := relate_spec hplaced.toGrouped hr ho
  have hcompete : Outside name a (a.compete name cause) := outside_modify a name _
  have hgrouped := (hplaced.relation hrel hname hcause hne).toGrouped
  exact (hcompete.trans (hrel.outside hplaced hr)).trans
    (hgrouped.outside_raiseThreshold (hrel.get?_of_get? hr) _)

/-! ### Examinations that end no supervision -/

theorem spares_miss (a : Arbiter) (name : String) (released : Nat) (s : Snapshot) :
    Spares name a (a.miss name released s) := by
  rw [miss]
  split
  · rename_i hname
    cases hc : a.cause? name released s with
    | none => exact spares_charge a name
    | some cause =>
      have hblame := spares_blame hname (contains_cause? hc) (cause?_ne hc)
      exact hblame.trans (spares_charge _ name)
  · exact .refl name a

theorem spares_judge (a : Arbiter) (name : String) (job : JobRecord) (s : Snapshot) :
    Spares name a (a.judge name job s) := by
  have hfollow : Spares name a (a.modify name (·.follow job.core a.cores)) :=
    spares_modify fun r => r.kept_follow job.core
  simp only [judge]
  split
  · exact hfollow
  · split
    · exact hfollow.trans (spares_modify fun r => r.kept_reward job)
    · exact hfollow.trans (spares_miss _ name job.arrival s)

theorem spares_observe (a : Arbiter) (name : String) (job : JobRecord) :
    Spares name a (a.modify name (·.observe job)) :=
  spares_modify fun r => r.kept_observe job

theorem spares_conclude (a : Arbiter) (name : String) (job : JobRecord) :
    Spares name a (a.conclude name job) := by
  refine ((spares_arbitrate a name).trans (spares_observe _ name job)).trans
    (spares_modify fun r => ?_)
  split
  · exact ⟨rfl, rfl, rfl, rfl, rfl, id⟩
  · exact .refl r

theorem spares_arrival (a : Arbiter) (name : String) (f : Record → Nat) :
    Spares name a (a.modify name fun r => { r with arrival := f r }) :=
  spares_modify fun _ => ⟨rfl, rfl, rfl, rfl, rfl, id⟩

theorem spares_conclusions (a : Arbiter) (name : String) (r : Record) (s : Snapshot)
    {finding : Finding} (hends : finding.ends = none) :
    Spares name a (a.conclusions name r s finding) := by
  have hobserve := fun b => spares_observe b name
  have hjudge := fun b job => spares_judge b name job s
  have hconclude := fun b => spares_conclude b name
  have harrival := fun b => spares_arrival b name
  cases finding with
  | unseen => exact .refl name a
  | missing => exact .refl name a
  | outdated => exact .refl name a
  | vanished => exact .refl name a
  | denied => exact (harrival a _).trans (spares_charge _ name)
  | finished => cases hends
  | killed => cases hends
  | terminatedLate =>
    have hfollow : Spares name a (a.modify name (·.follow r.newest.core a.cores)) :=
      spares_modify fun r' => r'.kept_follow r.newest.core
    exact (hfollow.trans (spares_miss _ name r.newest.arrival s)).trans
      (spares_modify fun _ => ⟨rfl, rfl, rfl, rfl, rfl, id⟩)
  | running job => exact (hobserve a job).trans (harrival _ _)
  | due job => exact ((hjudge a job).trans (hconclude _ job)).trans (harrival _ _)
  | overtaken earlier latest =>
    have hearlier := (hobserve a latest).trans (hjudge _ earlier)
    exact (hearlier.trans (hconclude _ earlier)).trans (harrival _ _)
  | bothDue earlier latest =>
    have hlatest := (hjudge a earlier).trans (hjudge _ latest)
    exact (hlatest.trans (hconclude _ latest)).trans (harrival _ _)

/-! ### A task that leaves -/

/-- What the examination of `name` leaves alone, whether or not the task is still supervised
afterwards. -/
structure Apart (name : String) (a b : Arbiter) : Prop where
  competitors : ∀ {n r}, n ≠ name → a.tasks.get? n = some r →
    ∃ r', b.tasks.get? n = some r' ∧
      (r'.competitors = r.competitors ∨ r'.competitors = r.competitors.erase name)
  records : ∀ {n}, n ≠ name → ¬ a.Together name n → ¬ b.Together name n →
    (b.tasks.get? n).map Record.aside = (a.tasks.get? n).map Record.aside
  groups : ∀ {id g}, (∀ n ∈ g.members, ¬ a.Together name n ∧ ¬ b.Together name n) →
    (b.groups.get? id = some g ↔ a.groups.get? id = some g)

theorem Outside.apart (h : Outside name a b) : Apart name a b where
  competitors := fun {n r} hn hr => by
    have hview := h.competitors hn
    rw [hr] at hview
    obtain ⟨r', hr', heq⟩ := Option.map_eq_some_iff.1 hview
    exact ⟨r', hr', .inl heq⟩
  records := fun hn _ hb => h.records hn hb
  groups := fun hapart => h.groups fun n hn => (hapart n hn).2

/-- Whoever is not in the group of a task that leaves does not name it. -/
theorem agree_forget_of_apart (hcons : a.Consistent) (hn : n ≠ name)
    (hapart : ¬ a.Together name n) (e : Ended) : Agree Record.aside n a (a.forget name e) where
  config := rfl
  cores := rfl
  view := by
    rw [get?_forget, if_neg hn, Option.map_map]
    cases ho : a.tasks.get? n with
    | none => rfl
    | some o =>
      have hnot : name ∉ o.competitors := fun hc => hapart (hcons.together_of_mem ho hc).symm
      simp only [Option.map_some, Function.comp_apply, OrderedSet.erase_of_not_mem hnot]

/-- When a task leaves, decisions are made about members of its group, which compete among
themselves. -/
theorem agree_remove_of_apart (hcons : a.Consistent) (hr : a.tasks.get? name = some r)
    (hn : n ≠ name) (hapart : ¬ a.Together name n) (lastJob : Nat) (cause : EndCause) :
    Agree Record.aside n a (a.remove name lastJob cause) := by
  rw [remove_eq hr]
  let b := a.forget name ⟨lastJob, cause⟩
  let c := b.arbitrateAll (a.claimants name)
  have hforget : Agree Record.aside n a b := agree_forget_of_apart hcons hn hapart _
  have hne : ∀ {m}, a.Together name m → n ≠ m := fun hm heq => hapart (heq ▸ hm)
  have hrival : ∀ {m o}, a.Together name m → b.tasks.get? m = some o → n ∉ o.competitors := by
    intro m o hm ho hc
    rw [get?_forget] at ho
    split at ho
    · cases ho
    · obtain ⟨p, hp, rfl⟩ := Option.map_eq_some_iff.1 ho
      have hmn := hcons.together_of_mem hp (OrderedSet.mem_erase.1 hc).1
      exact hapart (hcons.together_trans hm hmn)
  have hclaim : ∀ m ∈ a.claimants name, a.Together name m := by
    intro m hm
    obtain ⟨-, o, ho, hc⟩ := mem_claimants.1 hm
    exact (hcons.together_of_mem ho hc).symm
  have hdecide : Agree Record.aside n b c :=
    agree_arbitrateAll_of_ne (fun m hm => hne (hclaim m hm)) fun m hm o ho => hrival (hclaim m hm) ho
  have hk : b.Kept c := kept_arbitrateAll b _
  have hmember : ∀ {g m}, c.groups.get? r.group = some g → m ∈ g.members → a.Together name m := by
    intro g m hg hm
    rw [hk.groups] at hg
    exact ⟨_, g, hg, (hcons.mem_iff hg hr).2 rfl, hm⟩
  have hleave : Agree Record.aside n c (c.leaveGroup name r) :=
    agree_leaveGroup_of_not_mem fun g hg hm => hapart (hmember hg hm)
  refine ((hforget.trans hdecide).trans hleave).trans ?_
  -- the decisions after that are about the members that are left, if there has been a group
  have hstays : ∀ m ∈ c.staying name r, a.Together name m := by
    intro m hm
    obtain ⟨-, g, hg, hmem⟩ := mem_staying.1 hm
    exact hmember hg hmem
  refine agree_arbitrateAll_of_ne (fun m hm => hne (hstays m hm)) fun m hm o ho => ?_
  obtain ⟨p, hp, hop⟩ := (agree_leaveGroup (f := Record.competitors) (fun _ _ => rfl) c name r).get? ho
  obtain ⟨q, hq, hqp⟩ := hk.get? hp
  rw [hop, hqp.competitors]
  exact hrival (hstays m hm) hq

/-- A task that leaves changes its own group, and who is in it. -/
theorem apart_remove (hcons : a.Consistent) (hr : a.tasks.get? name = some r) (lastJob : Nat)
    (cause : EndCause) : Apart name a (a.remove name lastJob cause) := by
  have hk := kept_remove hr lastJob cause
  refine ⟨fun {n o} hn ho => ?competitors, fun {n} hn hapart _ => ?records,
    fun {id g} hapart => ?groups⟩
  case competitors =>
    have hforget : (a.forget name ⟨lastJob, cause⟩).tasks.get? n =
        some { o with competitors := o.competitors.erase name } := by
      rw [get?_forget, if_neg hn, ho, Option.map_some]
    have hleave := agree_leaveGroup (n := n) (f := Record.competitors) (fun _ _ => rfl)
      (a.forget name ⟨lastJob, cause⟩) name r
    obtain ⟨p, hp, hpo⟩ := hleave.get?_of_get? hforget
    obtain ⟨o', ho', hpo'⟩ := hk.get?_of_get? hp
    exact ⟨o', ho', .inr (hpo'.competitors.trans hpo)⟩
  case records => exact (agree_remove_of_apart hcons hr hn hapart lastJob cause).view
  case groups =>
    rw [hk.groups]
    by_cases hid : id = r.group
    · subst hid
      refine iff_of_false (fun hg' => ?_) fun hg => ?_
      · obtain ⟨dissolved, hdep⟩ := leaveGroup_spec hcons.toGrouped name r ⟨lastJob, cause⟩
        have hleft := hcons.leave hr ⟨lastJob, cause⟩
        obtain ⟨n, hn⟩ := OrderedSet.exists_mem_of_size_pos
          (Nat.lt_of_lt_of_le Nat.zero_lt_two (hleft.two_le_size hg'))
        obtain ⟨g₀, hg₀, ⟨-, -, hmem⟩ | ⟨hne, -⟩⟩ := hdep.get?_group hg'
        · have hn₀ := (OrderedSet.mem_erase.1 (hmem ▸ hn)).1
          exact (hapart n hn).1 ⟨_, g₀, hg₀, (hcons.mem_iff hg₀ hr).2 rfl, hn₀⟩
        · exact hne rfl
      · have hname := (hcons.mem_iff hg hr).2 rfl
        exact (hapart name hname).1 ⟨_, g, hg, hname, hname⟩
    · rw [get?_leaveGroup_groups hid]
      exact Iff.rfl

/-! ### All examinations -/

/-- Whoever is apart from the task stays apart when jobs have been noted before. -/
theorem Apart.of_observeOthers (h : Apart name (a.observeOthers name s) b) : Apart name a b where
  competitors := fun hn hr => by
    obtain ⟨r', hr', heq⟩ := (kept_observeOthers a name s).get?_of_get? hr
    rw [← heq.competitors]
    exact h.competitors hn hr'
  records := fun {n} hn hapart hapart' => by
    have hothers : Agree Record.aside n a (a.observeOthers name s) :=
      agree_observeOthers_of_newest (fun _ _ => rfl) a name s
    have hk := kept_observeOthers a name s
    exact (h.records hn (fun ha => hapart (hk.together_iff.1 ha)) hapart').trans hothers.view
  groups := fun hapart => by
    have hk := kept_observeOthers a name s
    rw [← hk.groups]
    exact h.groups fun n hn => ⟨fun ha => (hapart n hn).1 (hk.together_iff.1 ha), (hapart n hn).2⟩

/-- Whatever an examination finds. -/
theorem apart_examine (hcons : a.Consistent) (hr : a.tasks.get? name = some r) (s : Snapshot) :
    Apart name a (a.examine name s) := by
  have hk := kept_observeOthers a name s
  rw [examine_of_some hr]
  refine Apart.of_observeOthers (s := s) ?_
  cases hends : (Finding.of name r s).ends with
  | none => exact (spares_conclusions _ name r s hends (hcons.kept hk)).2.apart
  | some cause =>
    rw [conclusions_of_ends _ name r s hends]
    obtain ⟨r', hr', -⟩ := hk.get?_of_get? hr
    exact apart_remove (hcons.kept hk) hr' _ cause

/-- What no examination of another task changes. -/
private def fixture (r : Record) : Nat × Nat × Nat × Nat × Float × Bool :=
  (r.core, r.arrival, r.deadline, r.interArrival, r.utilization, r.lastJobStarted)

private theorem calm_fixture : Calm fixture :=
  ⟨fun _ _ => rfl, fun _ _ => rfl, fun _ _ => rfl, fun _ _ => rfl⟩

/-- Two records that differ in their newest jobs at most. -/
private theorem eq_of_aside_eq {r r' : Record} (h : r'.aside = r.aside) :
    r' = { r with newest := r'.newest } := by
  cases r
  cases r'
  simp only [Record.aside, Record.mk.injEq] at h ⊢
  simp only [h, and_self]

/-- Whatever an examination finds, it leaves all other tasks where they are, with their parameters,
releases and loads, and takes at most the examined task out of their competitors.  Who is in the
group of that task neither before nor afterwards keeps permission, debts and group as well, and a
group none of whose members is in that group does not change. -/
theorem frame_history (cores : Nat) (rs : List Request) : ∀ e ∈ history { cores } rs,
    (∀ n r, n ≠ e.task → e.arbiter.tasks.get? n = some r →
      ∃ r', e.after.tasks.get? n = some r' ∧
        (r'.core = r.core ∧ r'.arrival = r.arrival ∧ r'.deadline = r.deadline ∧
          r'.interArrival = r.interArrival ∧ r'.utilization = r.utilization ∧
          r'.lastJobStarted = r.lastJobStarted) ∧
        (r'.competitors = r.competitors ∨ r'.competitors = r.competitors.erase e.task) ∧
        (¬ e.arbiter.Together e.task n → ¬ e.after.Together e.task n →
          r' = { r with newest := r'.newest })) ∧
    ∀ id g, (∀ n ∈ g.members, ¬ e.arbiter.Together e.task n ∧ ¬ e.after.Together e.task n) →
      (e.after.groups.get? id = some g ↔ e.arbiter.groups.get? id = some g) := by
  intro e he
  have hcons := invariant_consistent.of_mem_history (consistent_empty cores) he
  have hapart : Apart e.task e.arbiter e.after :=
    apart_examine hcons (get?_of_mem_history he) e.snapshot
  refine ⟨fun n r hn hr => ?_, fun id g => hapart.groups⟩
  obtain ⟨r', hr', hcomp⟩ := hapart.competitors hn hr
  refine ⟨r', hr', ?_, hcomp, fun hbefore hafter => ?_⟩
  · have hfixture := agree_examine hn calm_fixture (fun _ _ => rfl) e.arbiter e.snapshot
    obtain ⟨o, ho, heq⟩ := hfixture.get? hr'
    obtain rfl := Option.some.inj (hr.symm.trans ho)
    simpa only [fixture, Prod.mk.injEq] using heq
  · have hview := hapart.records hn hbefore hafter
    rw [hr, hr'] at hview
    exact eq_of_aside_eq (Option.some.inj hview)

/-! Of three tasks on one core one makes another one late, and the third one has just begun. -/

/-- `a` misses its deadline because of `b`.  The job of `z` is seen when that is found out. -/
def crowding : List Request :=
  [.setGoal { goal := .fairness },
    .add 0 { name := "a", deadline := 10000, interArrival := 10000 },
    .add 0 { name := "b", deadline := 50000, interArrival := 50000 },
    .add 0 { name := "z", deadline := 50000, interArrival := 50000 },
    .poll { now := 2000, terminated := []
            jobs := [{ id := 1, task := "a", core := 0, arrival := 1000, exit := 0, execution := 0 },
              { id := 2, task := "b", core := 0, arrival := 500, exit := 0, execution := 0 }] },
    .poll { now := 12000, terminated := []
            jobs := [{ id := 1, task := "a", core := 0, arrival := 1000, exit := 0, execution := 0 },
              { id := 2, task := "b", core := 0, arrival := 500, exit := 5000, execution := 4000 },
              { id := 3, task := "z", core := 0, arrival := 600, exit := 0, execution := 0 }] }]

/-- The examination that finds it out. -/
def discovery : Examination := (history { cores := 1 } crowding).get ⟨3, by decide +kernel⟩

private theorem not_together_of_forall {u v : String} (h : ∀ e ∈ a.groups.entries, v ∉ e.2.members) :
    ¬ a.Together u v := by
  rintro ⟨id, g, hg, -, hv⟩
  exact h _ (OrderedMap.mem_entries_of_get? hg) hv

/-- Afterwards `a` is in a group with `b`, and only the newest job of `z` is another one. -/
theorem frame_discovery :
    discovery.task = "a" ∧ discovery.after.Together "a" "b" ∧
      ∃ r r', discovery.arbiter.tasks.get? "z" = some r ∧ discovery.after.tasks.get? "z" = some r' ∧
        r.newest.id = 0 ∧ r'.newest.id = 3 ∧ r' = { r with newest := r'.newest } := by
  have htask : discovery.task = "a" := by decide +kernel
  have htogether : discovery.after.Together "a" "b" :=
    ⟨1, (discovery.after.groups.get? 1).get (by decide +kernel), (Option.some_get _).symm,
      by decide +kernel, by decide +kernel⟩
  have hz : discovery.arbiter.tasks.get? "z" =
      some ((discovery.arbiter.tasks.get? "z").get (by decide +kernel)) := (Option.some_get _).symm
  obtain ⟨r', hr', -, -, hsame⟩ := (frame_history 1 crowding discovery (List.get_mem _ _)).1 "z" _
    (by rw [htask]; decide) hz
  have hnewest : (discovery.after.tasks.get? "z").map (·.newest.id) = some 3 := by decide +kernel
  rw [hr'] at hnewest
  exact ⟨htask, htogether, _, r', hz, hr', by decide +kernel, Option.some.inj hnewest,
    hsame (not_together_of_forall (by decide +kernel)) (not_together_of_forall (by decide +kernel))⟩

end Arbiter

end RealTime
