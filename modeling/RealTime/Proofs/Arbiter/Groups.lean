import RealTime.Proofs.Arbiter.Invariant

/-! # Groups and the records of their members

A task and its group tell the same story twice: the record names the group, and the group lists
the task.  `Grouped` says that the two agree.  Under this agreement the union of the groups of
two tasks has one description, whichever of its five cases applies (`relate_spec`): the tasks
that are `Joined` are afterwards the members of one group, and no other group changes.

* `get?_nextId`       the number of the next group is not in use
* `relate_spec`       what putting two tasks into one group does
* `leaveGroup_spec`   what is left when a task leaves its group -/

namespace RealTime

namespace Groups

theorem nextId_ne_zero (gs : Groups) : gs.nextId ≠ 0 := by
  rw [nextId]
  split <;> omega

/-- The number of the next group is not in use: it is larger than the last one. -/
theorem get?_nextId (gs : Groups) : gs.get? gs.nextId = none := by
  cases hg : gs.get? gs.nextId with
  | none => rfl
  | some g =>
    exfalso
    have hmem := OrderedMap.mem_entries_of_get? hg
    rw [nextId] at hmem
    split at hmem
    · rename_i last hlast
      have hle := OrderedMap.key_le_last hlast hmem
      simp only at hle
      omega
    · rename_i hlast
      rw [OrderedMap.last?, List.getLast?_eq_none_iff] at hlast
      rw [hlast] at hmem
      cases hmem

/-- Raising a threshold moves no member. -/
theorem get?_raiseThreshold (gs : Groups) (id value j : Nat) :
    ((gs.raiseThreshold id value).get? j).map Group.members = (gs.get? j).map Group.members := by
  rw [raiseThreshold, OrderedMap.get?_modify]
  split
  · cases gs.get? j <;> rfl
  · rfl

end Groups

namespace Arbiter

/-- Records and groups agree on who is in which group. -/
structure Grouped (a : Arbiter) : Prop where
  /-- Number 0 stands for no group. -/
  ne_zero : ∀ {id g}, a.groups.get? id = some g → id ≠ 0
  /-- The group that a record names lists the task. -/
  mem : ∀ {name r}, a.tasks.get? name = some r → r.group ≠ 0 →
    ∃ g, a.groups.get? r.group = some g ∧ name ∈ g.members
  /-- The tasks that a group lists are supervised and name the group. -/
  group_eq : ∀ {id g name}, a.groups.get? id = some g → name ∈ g.members →
    ∃ r, a.tasks.get? name = some r ∧ r.group = id

variable {a b : Arbiter} {name cause : String}

/-- Only groups and their members matter. -/
theorem Grouped.congr (h : a.Grouped)
    (hgroups : ∀ id, (b.groups.get? id).map Group.members = (a.groups.get? id).map Group.members)
    (htasks : ∀ n, (b.tasks.get? n).map Record.group = (a.tasks.get? n).map Record.group) :
    b.Grouped where
  ne_zero := fun {id g} hg => by
    have hid := hgroups id
    rw [hg] at hid
    obtain ⟨g', hg', -⟩ := Option.map_eq_some_iff.1 hid.symm
    exact h.ne_zero hg'
  mem := fun {n r} hr hne => by
    have hn := htasks n
    rw [hr] at hn
    obtain ⟨r', hr', heq⟩ := Option.map_eq_some_iff.1 hn.symm
    obtain ⟨g', hg', hmem⟩ := h.mem hr' (heq ▸ hne)
    have hid := hgroups r'.group
    rw [hg'] at hid
    obtain ⟨g, hg, hsame⟩ := Option.map_eq_some_iff.1 hid
    exact ⟨g, heq ▸ hg, hsame ▸ hmem⟩
  group_eq := fun {id g n} hg hmem => by
    have hid := hgroups id
    rw [hg] at hid
    obtain ⟨g', hg', hsame⟩ := Option.map_eq_some_iff.1 hid.symm
    obtain ⟨r', hr', heq⟩ := h.group_eq hg' (hsame ▸ hmem)
    have hn := htasks n
    rw [hr'] at hn
    obtain ⟨r, hr, hrg⟩ := Option.map_eq_some_iff.1 hn
    exact ⟨r, hr, hrg.trans heq⟩

/-- A supervised task is a member of exactly the group that its record names. -/
theorem Grouped.mem_iff (h : a.Grouped) {id : Nat} {g : Group} {n : String} {o : Record}
    (hg : a.groups.get? id = some g) (ho : a.tasks.get? n = some o) :
    n ∈ g.members ↔ o.group = id := by
  constructor
  · intro hn
    obtain ⟨o', ho', hog⟩ := h.group_eq hg hn
    rw [ho] at ho'
    cases ho'
    exact hog
  · intro hog
    obtain ⟨g', hg', hn⟩ := h.mem ho (hog ▸ h.ne_zero hg)
    rw [hog, hg] at hg'
    cases hg'
    exact hn

/-- The members of a group are the supervised tasks whose records name it. -/
theorem Grouped.mem_iff_exists (h : a.Grouped) {id : Nat} {g : Group} {n : String}
    (hg : a.groups.get? id = some g) :
    n ∈ g.members ↔ ∃ o, a.tasks.get? n = some o ∧ o.group = id :=
  ⟨h.group_eq hg, fun ⟨_, ho, hog⟩ => (h.mem_iff hg ho).2 hog⟩

/-! ### Joining groups -/

/-- Whether a task is in the group of `name` or of `cause`, or is one of them. -/
def Joined (a : Arbiter) (name cause n : String) (o : Record) : Prop :=
  n = name ∨ n = cause ∨ o.group ≠ 0 ∧ (o.group = a.groupOf name ∨ o.group = a.groupOf cause)

instance (a : Arbiter) (name cause n : String) (o : Record) :
    Decidable (a.Joined name cause n o) := by
  unfold Joined; infer_instance

theorem groupOf_eq {r : Record} (h : a.tasks.get? name = some r) : a.groupOf name = r.group := by
  simp only [groupOf, h]

/-- Where the two groups are groups at all, their members are all who are joined. -/
theorem joined_iff {n : String} {o : Record} (ho : a.tasks.get? n = some o)
    (h0 : o.group = a.groupOf name ∨ o.group = a.groupOf cause → o.group ≠ 0) :
    a.Joined name cause n o ↔ o.group = a.groupOf name ∨ o.group = a.groupOf cause := by
  unfold Joined
  constructor
  · rintro (rfl | rfl | hor)
    · exact .inl (groupOf_eq ho).symm
    · exact .inr (groupOf_eq ho).symm
    · exact hor.2
  · exact fun hor => .inr (.inr ⟨h0 hor, hor⟩)

theorem get?_setGroup (a : Arbiter) (name : String) (k : Nat) (n : String) :
    (a.setGroup name k).tasks.get? n =
      (a.tasks.get? n).map fun o => if n = name then { o with group := k } else o := by
  simp only [setGroup, modify, OrderedMap.get?_modify]
  split
  · rfl
  · simp

/-- Put several tasks into a group. -/
def setGroups (a : Arbiter) (l : List String) (k : Nat) : Arbiter := l.foldl (·.setGroup · k) a

theorem get?_setGroups (a : Arbiter) (l : List String) (k : Nat) (n : String) :
    (a.setGroups l k).tasks.get? n =
      (a.tasks.get? n).map fun o => if n ∈ l then { o with group := k } else o := by
  induction l generalizing a with
  | nil => simp [setGroups]
  | cons m l ih =>
    rw [setGroups, List.foldl_cons, ← setGroups, ih, get?_setGroup, Option.map_map]
    congr 1
    funext o
    by_cases hm : n = m <;> by_cases hl : n ∈ l <;> simp [hm, hl]

theorem setGroups_eq (a : Arbiter) (l : List String) (k : Nat) :
    (a.setGroups l k).groups = a.groups ∧ (a.setGroups l k).cores = a.cores ∧
      (a.setGroups l k).ended = a.ended := by
  induction l generalizing a with
  | nil => exact ⟨rfl, rfl, rfl⟩
  | cons m l ih => exact ih (a.setGroup m k)

/-- Putting two tasks into one group: the joined tasks move to the group `k`, which has no other
members; the groups they come from are gone, and all other groups are as before. -/
structure Relation (a b : Arbiter) (name cause : String) (k : Nat) : Prop where
  cores : b.cores = a.cores
  ended : b.ended = a.ended
  ne_zero : k ≠ 0
  tasks : ∀ n, b.tasks.get? n = (a.tasks.get? n).map fun o =>
    if a.Joined name cause n o then { o with group := k } else o
  members : ∃ g, b.groups.get? k = some g ∧
    ∀ n, n ∈ g.members ↔ ∃ o, a.tasks.get? n = some o ∧ a.Joined name cause n o
  others : ∀ id, id ≠ k → b.groups.get? id =
    if id = a.groupOf name ∨ id = a.groupOf cause then none else a.groups.get? id
  /-- The group `k` is a new one, or one of the two. -/
  origin : a.groups.get? k = none ∨ k = a.groupOf name ∨ k = a.groupOf cause

/-- It does not matter which of the two tasks comes first. -/
theorem joined_comm {n : String} {o : Record} :
    a.Joined name cause n o ↔ a.Joined cause name n o := by
  unfold Joined
  rw [or_left_comm, or_comm (a := o.group = a.groupOf name)]

theorem Relation.symm {k : Nat} (h : Relation a b name cause k) : Relation a b cause name k where
  cores := h.cores
  ended := h.ended
  ne_zero := h.ne_zero
  tasks := fun n => by
    rw [h.tasks]
    congr 1
    funext o
    exact ite_congr (propext joined_comm) (fun _ => rfl) fun _ => rfl
  members := by
    obtain ⟨g, hg, hmem⟩ := h.members
    exact ⟨g, hg, fun n =>
      (hmem n).trans (exists_congr fun o => and_congr_right fun _ => joined_comm)⟩
  others := fun id hid => by
    rw [h.others id hid]
    exact ite_congr (propext or_comm) (fun _ => rfl) fun _ => rfl
  origin := h.origin.imp_right Or.symm

/-- The joined tasks move if those in a list are joined and those outside it are there already. -/
private theorem get?_regroup {l : List String} {k : Nat} {gs : Groups}
    (hin : ∀ {n o}, a.tasks.get? n = some o → n ∈ l → a.Joined name cause n o)
    (hout : ∀ {n o}, a.tasks.get? n = some o → a.Joined name cause n o → n ∉ l → o.group = k)
    (n : String) :
    (setGroups { a with groups := gs } l k).tasks.get? n =
      (a.tasks.get? n).map fun o =>
        if a.Joined name cause n o then { o with group := k } else o := by
  rw [get?_setGroups]
  cases ho : a.tasks.get? n with
  | none => rfl
  | some o =>
    simp only [Option.map_some, Option.some.injEq]
    by_cases hl : n ∈ l
    · rw [if_pos hl, if_pos (hin ho hl)]
    · rw [if_neg hl]
      split
      · rename_i hjoined
        rw [← hout ho hjoined hl]
      · rfl

/-- Two tasks without a group make a new one. -/
private theorem relate_new (h : a.Grouped) {r s : Record} (hr : a.tasks.get? name = some r)
    (hs : a.tasks.get? cause = some s) (hrg : r.group = 0) (hsg : s.group = 0) :
    Relation a (a.relate name cause) name cause a.groups.nextId := by
  have hg : a.groupOf name = 0 := (groupOf_eq hr).trans hrg
  have hh : a.groupOf cause = 0 := (groupOf_eq hs).trans hsg
  have hjoined : ∀ n o, a.Joined name cause n o ↔ n ∈ [name, cause] := by
    intro n o
    simp only [Joined, hg, hh, List.mem_cons, List.not_mem_nil, or_false]
    constructor
    · rintro (h | h | ⟨hne, h | h⟩)
      · exact .inl h
      · exact .inr h
      · exact absurd h hne
      · exact absurd h hne
    · exact fun h => h.elim .inl fun h => .inr (.inl h)
  have hrelate : a.relate name cause = setGroups
      { a with groups := (a.groups.create name cause).2 } [name, cause] a.groups.nextId := by
    simp only [relate, hg, hh, and_self, if_true]
    rfl
  have hsame := setGroups_eq { a with groups := (a.groups.create name cause).2 }
    [name, cause] a.groups.nextId
  rw [hrelate]
  refine ⟨hsame.2.1, hsame.2.2, a.groups.nextId_ne_zero,
    get?_regroup (fun _ hl => (hjoined _ _).2 hl) (fun _ hj hl => absurd ((hjoined _ _).1 hj) hl),
    ?_, ?_, .inl a.groups.get?_nextId⟩
  · rw [hsame.1, Groups.create, OrderedMap.get?_insert, if_pos rfl]
    refine ⟨_, rfl, fun n => ?_⟩
    simp only [hjoined, OrderedSet.mem_insert, OrderedSet.not_mem_empty, or_false]
    constructor
    · rintro (rfl | rfl)
      · exact ⟨s, hs, by simp⟩
      · exact ⟨r, hr, by simp⟩
    · rintro ⟨o, -, hl⟩
      simpa [or_comm] using hl
  · intro id hid
    rw [hsame.1, Groups.create, OrderedMap.get?_insert, if_neg hid]
    split
    · rename_i h0
      -- neither task had a group, so nothing goes away
      have hid0 : id = 0 := h0.elim (·.trans hg) (·.trans hh)
      cases hgid : a.groups.get? id with
      | none => rfl
      | some g => exact absurd hid0 (h.ne_zero hgid)
    · rfl

/-- A task without a group enters the group of the other one. -/
private theorem relation_enter (h : a.Grouped) {r s : Record} (hr : a.tasks.get? name = some r)
    (hs : a.tasks.get? cause = some s) (hr0 : r.group = 0) (hs0 : s.group ≠ 0) :
    Relation a (setGroups { a with groups := a.groups.addMember s.group name } [name] s.group)
      name cause s.group := by
  have hgr : a.groupOf name = 0 := (groupOf_eq hr).trans hr0
  have hgs := groupOf_eq hs
  obtain ⟨g, hg, -⟩ := h.mem hs hs0
  have hjoined : ∀ {n o}, a.tasks.get? n = some o →
      (a.Joined name cause n o ↔ n = name ∨ o.group = s.group) := by
    intro n o ho
    simp only [Joined, hgr, hgs]
    constructor
    · rintro (heq | rfl | ⟨hne, h0 | hog⟩)
      · exact .inl heq
      · rw [hs] at ho
        cases ho
        exact .inr rfl
      · exact absurd h0 hne
      · exact .inr hog
    · rintro (heq | hog)
      · exact .inl heq
      · exact .inr (.inr ⟨hog ▸ hs0, .inr hog⟩)
  have hsame := setGroups_eq { a with groups := a.groups.addMember s.group name } [name] s.group
  refine ⟨hsame.2.1, hsame.2.2, hs0, get?_regroup ?_ ?_, ?_, ?_, .inr (.inr hgs.symm)⟩
  · exact fun ho hl => (hjoined ho).2 (.inl (List.mem_singleton.1 hl))
  · exact fun ho hj hl =>
      ((hjoined ho).1 hj).resolve_left fun heq => hl (List.mem_singleton.2 heq)
  · rw [hsame.1, Groups.addMember, OrderedMap.get?_modify, if_pos rfl, hg]
    refine ⟨_, rfl, fun n => ?_⟩
    rw [OrderedSet.mem_insert, h.mem_iff_exists hg]
    constructor
    · rintro (rfl | ⟨o, ho, hog⟩)
      · exact ⟨r, hr, (hjoined hr).2 (.inl rfl)⟩
      · exact ⟨o, ho, (hjoined ho).2 (.inr hog)⟩
    · rintro ⟨o, ho, hj⟩
      exact ((hjoined ho).1 hj).imp_right fun hog => ⟨o, ho, hog⟩
  · intro id hid
    rw [hsame.1, Groups.addMember, OrderedMap.get?_modify, if_neg hid, hgr, hgs]
    split
    · rename_i hor
      -- one of the two groups is the one that is entered, and no group has the number 0
      have hid0 : id = 0 := hor.resolve_right hid
      cases hgid : a.groups.get? id with
      | none => rfl
      | some g => exact absurd hid0 (h.ne_zero hgid)
    · rfl

/-- The members of the group `j` move to the group `k`. -/
private theorem relation_merge (h : a.Grouped) {k j : Nat} {gk gj : Group} {f : Group → Group}
    (hk : a.groups.get? k = some gk) (hj : a.groups.get? j = some gj) (hkj : k ≠ j)
    (hf : ∀ g, (f g).members = g.members.union gj.members)
    (hids : ∀ id, id = a.groupOf name ∨ id = a.groupOf cause ↔ id = k ∨ id = j) :
    Relation a (setGroups { a with groups := (a.groups.erase j).modify k f } gj.members.elems k)
      name cause k := by
  have hjoined : ∀ {n o}, a.tasks.get? n = some o →
      (a.Joined name cause n o ↔ o.group = k ∨ o.group = j) := by
    intro n o ho
    rw [← hids]
    refine joined_iff ho fun hor => ?_
    rcases (hids _).1 hor with hog | hog
    · exact hog ▸ h.ne_zero hk
    · exact hog ▸ h.ne_zero hj
  have hsame := setGroups_eq { a with groups := (a.groups.erase j).modify k f }
    gj.members.elems k
  refine ⟨hsame.2.1, hsame.2.2, h.ne_zero hk, get?_regroup ?_ ?_, ?_, ?_,
    .inr ((hids k).2 (.inl rfl))⟩
  · exact fun ho hl => (hjoined ho).2 (.inr ((h.mem_iff hj ho).1 hl))
  · exact fun ho hjo hl => ((hjoined ho).1 hjo).resolve_right fun hog => hl ((h.mem_iff hj ho).2 hog)
  · rw [hsame.1, OrderedMap.get?_modify, if_pos rfl, OrderedMap.get?_erase, if_neg hkj, hk]
    refine ⟨_, rfl, fun n => ?_⟩
    rw [hf, OrderedSet.mem_union, h.mem_iff_exists hk, h.mem_iff_exists hj, ← exists_or]
    simp only [← and_or_left]
    exact exists_congr fun o => and_congr_right fun ho => (hjoined ho).symm
  · intro id hid
    rw [hsame.1, OrderedMap.get?_modify, if_neg hid, OrderedMap.get?_erase]
    simp only [hids, hid, false_or]

/-- Two tasks of one group stay where they are. -/
private theorem relation_refl (h : a.Grouped) {r s : Record} {g : Group}
    (hr : a.tasks.get? name = some r) (hs : a.tasks.get? cause = some s)
    (hrs : s.group = r.group) (hg : a.groups.get? r.group = some g) :
    Relation a a name cause r.group := by
  have hids : ∀ id, id = a.groupOf name ∨ id = a.groupOf cause ↔ id = r.group := by
    simp [groupOf_eq hr, groupOf_eq hs, hrs]
  have hjoined : ∀ {n o}, a.tasks.get? n = some o →
      (a.Joined name cause n o ↔ o.group = r.group) := by
    intro n o ho
    rw [← hids]
    exact joined_iff ho fun hor => (hids _).1 hor ▸ h.ne_zero hg
  refine ⟨rfl, rfl, h.ne_zero hg, fun n => ?_, ⟨g, hg, fun n => ?_⟩, fun id hid => ?_,
    .inr ((hids _).2 rfl)⟩
  · cases ho : a.tasks.get? n with
    | none => rfl
    | some o =>
      simp only [Option.map_some, Option.some.injEq]
      split
      · rename_i hj
        rw [← (hjoined ho).1 hj]
      · rfl
  · rw [h.mem_iff_exists hg]
    exact exists_congr fun o => and_congr_right fun ho => (hjoined ho).symm
  · rw [if_neg fun hor => hid ((hids id).1 hor)]

/-- Putting two supervised tasks into one group unites their groups, whichever of them has one. -/
theorem relate_spec (h : a.Grouped) {r s : Record} (hr : a.tasks.get? name = some r)
    (hs : a.tasks.get? cause = some s) :
    ∃ k, Relation a (a.relate name cause) name cause k := by
  have hgr := groupOf_eq hr
  have hgs := groupOf_eq hs
  -- one case for each of the two tasks that has a group or not
  by_cases hr0 : r.group = 0
  · by_cases hs0 : s.group = 0
    · exact ⟨_, relate_new h hr hs hr0 hs0⟩
    · -- only `cause` has one, and `name` enters it
      have hrelate : a.relate name cause =
          setGroups { a with groups := a.groups.addMember s.group name } [name] s.group := by
        simp only [relate, hgr, hgs, hr0, hs0, and_false, if_false, if_true]
        rfl
      rw [hrelate]
      exact ⟨s.group, relation_enter h hr hs hr0 hs0⟩
  · obtain ⟨g, hg, -⟩ := h.mem hr hr0
    by_cases hs0 : s.group = 0
    · -- only `name` has one, and `cause` enters it
      have hrelate : a.relate name cause =
          setGroups { a with groups := a.groups.addMember r.group cause } [cause] r.group := by
        simp only [relate, hgr, hgs, hr0, hs0, false_and, if_false, if_true]
        rfl
      rw [hrelate]
      exact ⟨r.group, (relation_enter h hs hr hs0 hr0).symm⟩
    · obtain ⟨g', hg', -⟩ := h.mem hs hs0
      by_cases hrs : s.group = r.group
      · refine ⟨r.group, ?_⟩
        have hrelate : a.relate name cause = a := by
          simp only [relate, hgr, hgs, hr0, hrs, Groups.merge, and_self, if_false, if_true]
        rw [hrelate]
        exact relation_refl h hr hs hrs hg
      · -- the group with more members survives
        have hne : r.group ≠ s.group := fun heq => hrs heq.symm
        by_cases hsize : g.members.size ≥ g'.members.size
        · refine ⟨r.group, ?_⟩
          simp only [relate, hgr, hgs, hr0, hs0, Groups.merge, hg, hg', hne, hsize, and_self,
            if_false, if_true]
          exact relation_merge h hg hg' hne (fun _ => rfl) (by rw [hgr, hgs]; exact fun _ => Iff.rfl)
        · refine ⟨s.group, ?_⟩
          simp only [relate, hgr, hgs, hr0, hs0, Groups.merge, hg, hg', hne, hsize, and_self,
            if_false]
          exact relation_merge h hg' hg hrs (fun _ => rfl)
            (by rw [hgr, hgs]; exact fun _ => Or.comm)

/-! ### Leaving a group -/

/-- A task with the record `r` has left.  Its group is dissolved if at most one member is left,
and that member is then in no group; else the group goes on without the task. -/
structure Departure (a b : Arbiter) (name : String) (r : Record) (dissolved : Bool) : Prop where
  cores : b.cores = a.cores
  gone : b.tasks.get? name = none
  tasks : ∀ n, n ≠ name → b.tasks.get? n = (a.tasks.get? n).map fun o =>
    { o with
      competitors := o.competitors.erase name
      group := if dissolved && o.group = r.group then 0 else o.group }
  group : (b.groups.get? r.group).map Group.members =
    if dissolved then none else (a.groups.get? r.group).map (·.members.erase name)
  others : ∀ id, id ≠ r.group →
    (b.groups.get? id).map Group.members = (a.groups.get? id).map Group.members
  /-- A group is dissolved for want of two members. -/
  lonely : dissolved = true → ∀ {n m o p}, a.tasks.get? n = some o → a.tasks.get? m = some p →
    n ≠ name → m ≠ name → o.group = r.group → p.group = r.group → n = m
  enough : dissolved = false → ∀ {g}, a.groups.get? r.group = some g →
    2 ≤ (g.members.erase name).size

/-- The records without a task and without any mention of it. -/
theorem get?_forget (a : Arbiter) (name : String) (e : Ended) (n : String) :
    (a.forget name e).tasks.get? n = if n = name then none else
      (a.tasks.get? n).map fun o => { o with competitors := o.competitors.erase name } := by
  simp only [forget, OrderedMap.get?_mapValues, OrderedMap.get?_erase]
  split <;> rfl

/-- The end of a task is remembered unless an older one is. -/
theorem get?_ended_forget (a : Arbiter) (name : String) (e : Ended) (n : String) :
    (a.forget name e).ended.get? n =
      if n = name then (a.ended.get? name).or (some e) else a.ended.get? n := by
  simp only [forget]
  cases hin : a.ended.contains name with
  | true =>
    obtain ⟨how, hhow⟩ := OrderedMap.contains_iff.1 hin
    rw [if_pos rfl, hhow]
    split
    · rename_i hn
      rw [hn, hhow]
      rfl
    · rfl
  | false =>
    rw [if_neg Bool.false_ne_true, OrderedMap.get?_insert, OrderedMap.contains_eq_false_iff.1 hin]
    rfl

/-- Without a group, a task just leaves. -/
private theorem departure_alone {r : Record} (hg : a.groups.get? r.group = none) (e : Ended) :
    Departure a (a.forget name e) name r false where
  cores := rfl
  gone := by rw [get?_forget, if_pos rfl]
  tasks := fun n hn => by rw [get?_forget, if_neg hn]; simp
  group := by
    show (a.groups.get? r.group).map Group.members = _
    rw [hg]
    rfl
  others := fun _ _ => rfl
  lonely := fun hd => by cases hd
  enough := fun _ {g} hg' => by
    rw [hg] at hg'
    cases hg'

/-- A group of two is dissolved when one of them leaves. -/
private theorem departure_dissolved (h : a.Grouped) {r : Record} {g : Group}
    (hg : a.groups.get? r.group = some g) (hsize : (g.members.erase name).size ≤ 1) (e : Ended) :
    Departure a (setGroups { a.forget name e with groups := a.groups.erase r.group }
      (g.members.erase name).elems 0) name r true := by
  have hsame := setGroups_eq { a.forget name e with groups := a.groups.erase r.group }
    (g.members.erase name).elems 0
  have hmem : ∀ {n o}, a.tasks.get? n = some o → n ≠ name →
      (n ∈ g.members.erase name ↔ o.group = r.group) := by
    intro n o ho hn
    rw [OrderedSet.mem_erase, h.mem_iff hg ho]
    exact and_iff_left hn
  -- the task is forgotten first, then the last member is put into no group
  refine ⟨hsame.2.1, ?gone, ?tasks, ?group, ?others, ?lonely, fun hd => by cases hd⟩
  case gone =>
    rw [get?_setGroups]
    show ((a.forget name e).tasks.get? name).map _ = none
    rw [get?_forget, if_pos rfl, Option.map_none]
  case tasks =>
    intro n hn
    rw [get?_setGroups]
    show ((a.forget name e).tasks.get? n).map _ = _
    rw [get?_forget, if_neg hn, Option.map_map]
    cases ho : a.tasks.get? n with
    | none => rfl
    | some o =>
      simp only [Option.map_some, Function.comp_apply, Option.some.injEq, Bool.true_and,
        decide_eq_true_eq, ← OrderedSet.mem_iff, hmem ho hn]
      split <;> rfl
  case group =>
    rw [hsame.1, OrderedMap.get?_erase, if_pos rfl]
    rfl
  case others =>
    intro id hid
    rw [hsame.1, OrderedMap.get?_erase, if_neg hid]
  case lonely =>
    intro _ n m o p ho hp hn hm hog hpg
    -- both are the one member that is left
    have hnl := OrderedSet.elems_eq_singleton hsize ((hmem ho hn).2 hog)
    have hml := OrderedSet.elems_eq_singleton hsize ((hmem hp hm).2 hpg)
    exact List.singleton_inj.1 (hnl.symm.trans hml)

/-- A larger group goes on without the task. -/
private theorem departure_shrunk {r : Record} {g : Group} (hg : a.groups.get? r.group = some g)
    (hsize : ¬ (g.members.erase name).size ≤ 1) (threshold : Nat) (e : Ended) :
    Departure a { a.forget name e with
      groups := a.groups.modify r.group fun _ =>
        { threshold, members := g.members.erase name } } name r false where
  cores := rfl
  gone := by
    show (a.forget name e).tasks.get? name = none
    rw [get?_forget, if_pos rfl]
  tasks := fun n hn => by
    show (a.forget name e).tasks.get? n = _
    rw [get?_forget, if_neg hn]
    simp
  group := by
    rw [OrderedMap.get?_modify, if_pos rfl, hg]
    rfl
  others := fun id hid => by rw [OrderedMap.get?_modify, if_neg hid]
  lonely := fun hd => by cases hd
  enough := fun _ {g'} hg' => by
    rw [hg] at hg'
    cases hg'
    omega

/-- What is left when a task leaves the group that its record names. -/
theorem leaveGroup_spec (h : a.Grouped) (name : String) (r : Record) (e : Ended) :
    ∃ dissolved, Departure a ((a.forget name e).leaveGroup name r) name r dissolved := by
  have hgroups : (a.forget name e).groups = a.groups := rfl
  cases hg : a.groups.get? r.group with
  | none =>
    refine ⟨false, ?_⟩
    simp only [leaveGroup, hgroups, hg]
    exact departure_alone hg e
  | some g =>
    simp only [leaveGroup, hgroups, hg]
    by_cases hsize : (g.members.erase name).size ≤ 1
    · refine ⟨true, ?_⟩
      have hdeparture := departure_dissolved h hg hsize e
      rw [if_pos hsize]
      -- a list of at most one element is nothing but its head
      rw [OrderedSet.size] at hsize
      rcases hl : (g.members.erase name).elems with _ | ⟨last, _ | ⟨next, rest⟩⟩
      · rwa [hl] at hdeparture
      · rwa [hl] at hdeparture
      · rw [hl, List.length_cons, List.length_cons] at hsize
        omega
    · exact ⟨false, by rw [if_neg hsize]; exact departure_shrunk hg hsize _ e⟩

end Arbiter

end RealTime
