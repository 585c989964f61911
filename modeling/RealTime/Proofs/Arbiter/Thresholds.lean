import RealTime.Proofs.Arbiter.Rulings

/-! # Thresholds of groups

The debts of a group decay once all its members on a core owe the threshold of the group.  The
threshold is larger than the number of competitors of every member (`Ample`); in particular it is
not zero, which would keep the debts from ever decaying.

A new group has the threshold zero until the missed deadline that it is due to has raised the
threshold.  A union keeps the larger of two thresholds.  When a task leaves a group, the threshold
is derived anew from those who stay, but only if the task had so many competitors that it may have
been the reason for the threshold.

* `comesFromBelow_of_mem_relate`   nobody comes into a group with a smaller threshold
* `threshold_leaveGroup`           what the thresholds are when a task has left
* `Ample.blame`, `Ample.leave`     thresholds and competitors change together
* `threshold_run`                  all groups after every history of requests -/

namespace RealTime.Arbiter

variable {a b : Arbiter} {name cause n : String} {r : Record} {id : Nat} {g : Group}

/-- Every group has a threshold that is larger than the number of competitors of each member. -/
def Ample (a : Arbiter) : Prop :=
  ∀ {n r g}, a.tasks.get? n = some r → a.groups.get? r.group = some g →
    r.competitors.size < g.threshold

/-- Permissions, debts, jobs and cores have no part in thresholds. -/
theorem Ample.kept (h : a.Ample) (hk : a.Kept b) : b.Ample := by
  intro n r' g hr' hg
  obtain ⟨r, hr, hrr'⟩ := hk.get? hr'
  rw [hk.groups, hrr'.group] at hg
  rw [hrr'.competitors]
  exact h hr hg

/-- A task that comes has no group. -/
theorem Ample.add (h : a.Ample) (hcons : a.Consistent) {core : Nat} {t : Task}
    (hcore : core < a.cores) (hin : a.tasks.contains t.name = false) : (a.add core t).2.Ample := by
  intro n r g hr hg
  rw [add_of_new hcore hin] at hr hg
  rw [OrderedMap.get?_insert] at hr
  split at hr
  · obtain rfl := Option.some.inj hr
    exact absurd rfl (hcons.ne_zero hg)
  · exact h hr hg

/-! ### A new competitor -/

/-- A task that is in no group, or in one that does not have a larger threshold. -/
def ComesFromBelow (a : Arbiter) (n : String) (threshold : Nat) : Prop :=
  a.groupOf n = 0 ∨
    ∃ id g, a.groups.get? id = some g ∧ n ∈ g.members ∧ g.threshold ≤ threshold

/-- One task without a group enters the group of another one. -/
private theorem comesFromBelow_of_mem_addMember {j : Nat} {m : String} (hm : a.groupOf m = 0)
    (hg : (a.groups.addMember j m).get? id = some g) (hn : n ∈ g.members) :
    a.ComesFromBelow n g.threshold := by
  rw [Groups.addMember, OrderedMap.get?_modify] at hg
  split at hg
  · obtain ⟨old, hold, rfl⟩ := Option.map_eq_some_iff.1 hg
    cases OrderedSet.mem_insert.1 hn with
    | inl heq => exact .inl (heq ▸ hm)
    | inr hmem => exact .inr ⟨id, old, hold, hmem, Nat.le_refl _⟩
  · exact .inr ⟨id, g, hg, hn, Nat.le_refl _⟩

/-- Of two groups that are united the larger threshold stays. -/
private theorem comesFromBelow_of_mem_merge {i j : Nat} {merge : Groups.Merge} {gs : Groups}
    (hmerge : a.groups.merge i j = some (merge, gs)) (hg : gs.get? id = some g)
    (hn : n ∈ g.members) : a.ComesFromBelow n g.threshold := by
  have hunite : ∀ {survivor absorbed : Nat} {old : Group}, a.groups.get? absorbed = some old →
      ((a.groups.erase absorbed).modify survivor fun g =>
        { threshold := max g.threshold old.threshold,
          members := g.members.union old.members }).get? id = some g →
      a.ComesFromBelow n g.threshold := by
    intro survivor absorbed old hold hget
    rw [OrderedMap.get?_modify, OrderedMap.get?_erase] at hget
    split at hget
    · obtain ⟨gk, hgk, rfl⟩ := Option.map_eq_some_iff.1 hget
      split at hgk
      · cases hgk
      · cases OrderedSet.mem_union.1 hn with
        | inl hmem => exact .inr ⟨id, gk, hgk, hmem, Nat.le_max_left _ _⟩
        | inr hmem => exact .inr ⟨absorbed, old, hold, hmem, Nat.le_max_right _ _⟩
    · split at hget
      · cases hget
      · exact .inr ⟨id, g, hget, hn, Nat.le_refl _⟩
  by_cases hij : i = j
  · simp [Groups.merge, hij] at hmerge
  · cases hgi : a.groups.get? i with
    | none => simp [Groups.merge, hij, hgi] at hmerge
    | some gi =>
      cases hgj : a.groups.get? j with
      | none => simp [Groups.merge, hij, hgi, hgj] at hmerge
      | some gj =>
        -- the group with more members survives
        by_cases hsize : gi.members.size ≥ gj.members.size
        · simp only [Groups.merge, hij, hgi, hgj, hsize, if_true, if_false] at hmerge
          obtain ⟨-, rfl⟩ := Prod.mk.inj (Option.some.inj hmerge)
          exact hunite hgj hg
        · simp only [Groups.merge, hij, hgi, hgj, hsize, if_false] at hmerge
          obtain ⟨-, rfl⟩ := Prod.mk.inj (Option.some.inj hmerge)
          exact hunite hgi hg

/-- Who is in a group after two groups have been united was in none before, or comes from a group
whose threshold was not larger. -/
theorem comesFromBelow_of_mem_relate (hg : (a.relate name cause).groups.get? id = some g)
    (hn : n ∈ g.members) : a.ComesFromBelow n g.threshold := by
  simp only [relate] at hg
  split at hg
  · rename_i h0
    replace hg : (a.groups.create name cause).2.get? id = some g := hg
    rw [Groups.create, OrderedMap.get?_insert] at hg
    split at hg
    · obtain rfl := Option.some.inj hg
      simp only [OrderedSet.mem_insert, OrderedSet.not_mem_empty, or_false] at hn
      cases hn with
      | inl heq => exact .inl (heq ▸ h0.2)
      | inr heq => exact .inl (heq ▸ h0.1)
    · exact .inr ⟨id, g, hg, hn, Nat.le_refl _⟩
  · split at hg
    · exact comesFromBelow_of_mem_addMember ‹_› hg hn
    · split at hg
      · exact comesFromBelow_of_mem_addMember ‹_› hg hn
      · split at hg
        · exact .inr ⟨id, g, hg, hn, Nat.le_refl _⟩
        · rename_i merge gs hmerge
          have hsame := (setGroups_eq { a with groups := gs } merge.moved merge.survivor).1
          rw [setGroups] at hsame
          rw [hsame] at hg
          exact comesFromBelow_of_mem_merge hmerge hg hn

/-- A threshold that is raised to a value is not below it, and no threshold falls. -/
private theorem exists_of_get?_raiseThreshold {gs : Groups} {i value : Nat}
    (hg : (gs.raiseThreshold i value).get? id = some g) :
    ∃ old, gs.get? id = some old ∧ old.threshold ≤ g.threshold ∧
      (id = i → value ≤ g.threshold) := by
  rw [Groups.raiseThreshold, OrderedMap.get?_modify] at hg
  split at hg
  · obtain ⟨old, hold, rfl⟩ := Option.map_eq_some_iff.1 hg
    exact ⟨old, hold, Nat.le_max_left _ _, fun _ => Nat.le_max_right _ _⟩
  · exact ⟨g, hg, Nat.le_refl _, fun heq => absurd heq ‹_›⟩

/-- A task without a group has no competitors. -/
theorem Consistent.size_competitors_eq_zero (h : a.Consistent) (hr : a.tasks.get? n = some r)
    (h0 : r.group = 0) : r.competitors.size = 0 := by
  refine Nat.eq_zero_of_not_pos fun hpos => ?_
  obtain ⟨c, hc⟩ := OrderedSet.exists_mem_of_size_pos hpos
  obtain ⟨-, -, -, -, hne⟩ := h.competitor hr hc
  exact hne h0

/-- Uniting two groups changes nobody's competitors, and moves tasks to one group only. -/
private theorem Relation.get?_before {k : Nat} (hrel : Relation a b name cause k) {o' : Record}
    (ho' : b.tasks.get? n = some o') :
    ∃ o, a.tasks.get? n = some o ∧ o'.competitors = o.competitors ∧
      (o'.group = k ∨ o'.group = o.group) := by
  obtain ⟨o, ho, rfl⟩ := Option.map_eq_some_iff.1 ((hrel.tasks n).symm.trans ho')
  refine ⟨o, ho, ?_⟩
  split
  · exact ⟨rfl, .inl rfl⟩
  · exact ⟨rfl, .inr rfl⟩

/-- A cause that becomes a competitor raises the threshold of the group that it is in then. -/
theorem Ample.blame (h : a.Ample) (hcons : a.Consistent) (hname : a.tasks.contains name = true)
    (hcause : a.tasks.contains cause = true) (hne : cause ≠ name) : (a.blame name cause).Ample := by
  replace hname := (contains_compete a name cause name).trans hname
  replace hcause := (contains_compete a name cause cause).trans hcause
  obtain ⟨r, hr⟩ := OrderedMap.contains_iff.1 hname
  obtain ⟨s, hs⟩ := OrderedMap.contains_iff.1 hcause
  have hplaced := hcons.toPlaced.compete name cause
  obtain ⟨k, hrel⟩ := relate_spec hplaced.toGrouped hr hs
  have hgrouped := (hplaced.relation hrel hname hcause hne).toGrouped
  -- the task that missed its deadline is in the group whose threshold is raised
  have hk : ((a.compete name cause).relate name cause).groupOf name = k := by
    rw [groupOf_eq (hrel.get?_of_get? hr), if_pos (.inl rfl)]
  intro n o' g' ho' hg'
  replace ho' : ((a.compete name cause).relate name cause).tasks.get? n = some o' := ho'
  replace hg' : (((a.compete name cause).relate name cause).groups.raiseThreshold k
      (r.competitors.size + 1)).get? o'.group = some g' := by
    have hcompeting : (a.modify name fun r =>
        { r with competitors := r.competitors.insert cause }).tasks.get? name = some r := hr
    rw [← hg', ← hk]
    simp only [Arbiter.blame, hcompeting]
    rfl
  obtain ⟨g, hg, hle, hraised⟩ := exists_of_get?_raiseThreshold hg'
  have hn := (hgrouped.mem_iff hg ho').2 rfl
  obtain ⟨o, ho, hcompetitors, hgroup⟩ := hrel.get?_before ho'
  rw [hcompetitors]
  by_cases hnn : n = name
  · subst hnn
    obtain rfl := Option.some.inj (hr.symm.trans ho)
    exact hraised ((groupOf_eq ho').symm.trans hk)
  · -- of all others the competitors are the same as before
    have hoa : a.tasks.get? n = some o := by
      have hget := get?_compete a name cause n
      simpa only [if_neg hnn, Option.map_id'] using hget.symm.trans ho
    cases comesFromBelow_of_mem_relate hg hn with
    | inl h0 =>
      rw [groupOf_eq ho] at h0
      rw [hcons.size_competitors_eq_zero hoa h0]
      -- it was in no group, so it has come to the group whose threshold is raised
      have hmoved : o'.group = k :=
        hgroup.resolve_right fun heq => hgrouped.ne_zero hg (heq.trans h0)
      have := hraised hmoved
      omega
    | inr hbelow =>
      obtain ⟨id, old, hold, hmem, hthreshold⟩ := hbelow
      have hog : o.group = id := (hcons.mem_iff hold hoa).1 hmem
      have := h hoa (hog ▸ hold)
      omega

/-! ### A task that leaves -/

private theorem le_foldl_max {l : List Nat} {x : Nat} (hx : x ∈ l) : x ≤ l.foldl max 0 := by
  rw [List.foldl_max]
  exact Nat.le_trans (List.le_max?_getD_of_mem hx) (Nat.le_max_right _ _)

/-- When a task leaves its group, the threshold of what is left of the group is as before, or
derived anew from those who stay.  No other threshold changes. -/
theorem threshold_leaveGroup (hg : (a.leaveGroup name r).groups.get? id = some g) :
    ∃ old, a.groups.get? id = some old ∧
      (g.threshold = old.threshold ∨
        ∀ m ∈ g.members, ∀ o, a.tasks.get? m = some o → o.competitors.size < g.threshold) := by
  simp only [leaveGroup] at hg
  split at hg
  · exact ⟨g, hg, .inl rfl⟩
  · rename_i left hleft
    split at hg
    · -- the group is dissolved, and the last member is put into no group
      replace hg : (a.groups.erase r.group).get? id = some g := by
        split at hg <;> exact hg
      rw [OrderedMap.get?_erase] at hg
      split at hg
      · cases hg
      · exact ⟨g, hg, .inl rfl⟩
    · replace hg := (OrderedMap.get?_modify _ _ _ _).symm.trans hg
      split at hg
      · rename_i hid
        obtain ⟨old, hold, rfl⟩ := Option.map_eq_some_iff.1 hg
        obtain rfl : left = old := Option.some.inj (hleft.symm.trans (hid ▸ hold))
        refine ⟨left, hold, ?_⟩
        dsimp only
        split
        · refine .inr fun m hm o ho => Nat.lt_succ_of_le ?_
          exact le_foldl_max (List.mem_filterMap.2 ⟨m, hm, by rw [ho, Option.map_some]⟩)
        · exact .inl rfl
      · exact ⟨g, hg, .inl rfl⟩

/-- When a task leaves, the others have no more competitors than before. -/
theorem Ample.leave (h : a.Ample) (hcons : a.Consistent) (hr : a.tasks.get? name = some r)
    (e : Ended) : ((a.forget name e).leaveGroup name r).Ample := by
  have hleft := hcons.leave hr e
  obtain ⟨dissolved, hdep⟩ := leaveGroup_spec hcons.toGrouped name r e
  intro n o' g' ho' hg'
  obtain ⟨old, hold, hthreshold⟩ := threshold_leaveGroup hg'
  replace hold : a.groups.get? o'.group = some old := hold
  have hn : n ∈ g'.members := (hleft.mem_iff hg' ho').2 rfl
  obtain ⟨hne, o, ho, heq⟩ := hdep.get? ho'
  have hcompetitors : o'.competitors = o.competitors.erase name := by rw [heq]
  rw [hcompetitors]
  cases hthreshold with
  | inl hsame =>
    have hog : o'.group = o.group := by
      rw [heq]
      exact if_neg fun hd => hleft.ne_zero hg' (by rw [heq]; exact if_pos hd)
    have hlt := h ho (hog ▸ hold)
    have hle : (o.competitors.erase name).size ≤ o.competitors.size := List.length_filter_le _ _
    omega
  | inr hall =>
    exact hall n hn { o with competitors := o.competitors.erase name }
      (by rw [get?_forget, if_neg hne, ho, Option.map_some])

/-! ### All histories -/

/-- No request makes a threshold too small. -/
theorem invariant_ample : Invariant fun a => a.Consistent ∧ a.Ample where
  kept := fun hk ⟨hcons, h⟩ => ⟨hcons.kept hk, h.kept hk⟩
  add := fun hcore hin ⟨hcons, h⟩ => ⟨hcons.add hcore hin, h.add hcons hcore hin⟩
  blame := fun hname hcause hne ⟨hcons, h⟩ =>
    ⟨hcons.blame hname hcause hne, h.blame hcons hname hcause hne⟩
  leave := fun e hr ⟨hcons, h⟩ => ⟨hcons.leave hr e, h.leave hcons hr e⟩

/-- After every history of requests, the threshold of each group is at least one more than the
number of competitors of each of its members.  No threshold is zero, for no group is without
members. -/
theorem threshold_run (cores : Nat) (rs : List Request)
    (hg : (run { cores } rs).groups.get? id = some g) :
    g.threshold ≠ 0 ∧ ∀ n ∈ g.members, ∃ r, (run { cores } rs).tasks.get? n = some r ∧
      1 + r.competitors.size ≤ g.threshold := by
  obtain ⟨hcons, hample⟩ := invariant_ample.run
    ⟨consistent_empty cores, fun hr => nomatch hr⟩ rs
  have hmember : ∀ n ∈ g.members, ∃ r, (run { cores } rs).tasks.get? n = some r ∧
      1 + r.competitors.size ≤ g.threshold := by
    intro n hn
    obtain ⟨r, hr, hrg⟩ := hcons.group_eq hg hn
    have hlt := hample hr (hrg ▸ hg)
    exact ⟨r, hr, by omega⟩
  refine ⟨?_, hmember⟩
  obtain ⟨n, hn⟩ := OrderedSet.exists_mem_of_size_pos
    (Nat.lt_of_lt_of_le Nat.zero_lt_two (hcons.two_le_size hg))
  obtain ⟨r, -, hle⟩ := hmember n hn
  omega

/-- Task `a` has two competitors, which have none. -/
theorem threshold_contested :
    ∃ g, (contested .fairness).groups.get? 1 = some g ∧ g.members.elems = ["a", "b", "c"] ∧
      g.threshold = 3 ∧ ∀ n ∈ g.members, ∃ r, (contested .fairness).tasks.get? n = some r ∧
        1 + r.competitors.size ≤ g.threshold := by
  have hg : (contested .fairness).groups.get? 1 =
      some (((contested .fairness).groups.get? 1).get (by decide +kernel)) :=
    (Option.some_get _).symm
  exact ⟨_, hg, by decide +kernel, by decide +kernel, (threshold_run 1 (contest .fairness) hg).2⟩

end RealTime.Arbiter
