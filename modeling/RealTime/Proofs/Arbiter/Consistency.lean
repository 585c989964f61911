import RealTime.Proofs.Arbiter.Groups

/-! # Consistency of tasks, groups and history

The arbiter keeps three maps that are changed separately: the records of the supervised tasks,
the groups of related tasks, and the history of tasks that have ended.  `Consistent` says how
they fit together, and `consistent_run` that they do after every history of requests.

The proof goes through the three places where the maps change together:

* `Consistent.blame`   a cause becomes a competitor, and two groups become one
* `Consistent.leave`   a task leaves, and its group may be dissolved
* `Consistent.add`     a task comes, maybe back from the history -/

namespace RealTime.Arbiter

/-- Tasks, groups and history fit together, competitors aside. -/
structure Placed (a : Arbiter) : Prop extends a.Grouped where
  core_lt : ∀ {name r}, a.tasks.get? name = some r → r.core < a.cores
  length_debts : ∀ {name r}, a.tasks.get? name = some r → r.debts.length = a.cores
  two_le_size : ∀ {id g}, a.groups.get? id = some g → 2 ≤ g.members.size
  not_ended : ∀ {name}, a.tasks.contains name = true → a.ended.contains name = false

/-- Tasks, groups and history fit together. -/
structure Consistent (a : Arbiter) : Prop extends a.Placed where
  /-- A competitor is another supervised task of the same group. -/
  competitor : ∀ {name r c}, a.tasks.get? name = some r → c ∈ r.competitors →
    c ≠ name ∧ ∃ s, a.tasks.get? c = some s ∧ s.group = r.group ∧ r.group ≠ 0

variable {a b : Arbiter} {name cause : String}

/-- An arbiter without tasks is consistent. -/
theorem consistent_empty (cores : Nat) : Consistent { cores } where
  ne_zero := fun h => by cases h
  mem := fun h => by cases h
  group_eq := fun h => by cases h
  core_lt := fun h => by cases h
  length_debts := fun h => by cases h
  two_le_size := fun h => by cases h
  not_ended := fun h => by cases h
  competitor := fun h => by cases h

/-- Permissions, debts, jobs and cores have no part in consistency, as long as cores exist. -/
theorem Consistent.kept (h : a.Consistent) (hk : a.Kept b) : b.Consistent where
  toGrouped := h.toGrouped.congr (fun id => by rw [hk.groups]) fun n => by
    have hrel := hk.records n
    generalize a.tasks.get? n = x at hrel
    generalize b.tasks.get? n = y at hrel
    cases hrel with
    | none => rfl
    | some hr => simp only [Option.map_some, hr.group]
  core_lt := fun hr' => by
    obtain ⟨r, hr, hrr'⟩ := hk.get? hr'
    rw [hk.cores]
    exact hrr'.core (h.core_lt hr)
  length_debts := fun hr' => by
    obtain ⟨r, hr, hrr'⟩ := hk.get? hr'
    rw [hk.cores, hrr'.debts, h.length_debts hr]
  two_le_size := fun hg => h.two_le_size (hk.groups ▸ hg)
  not_ended := fun hin => by
    rw [hk.ended]
    exact h.not_ended (by rw [← hk.contains]; exact hin)
  competitor := fun hr' hc => by
    obtain ⟨r, hr, hrr'⟩ := hk.get? hr'
    obtain ⟨hne, s, hs, hsg, hg0⟩ := h.competitor hr (hrr'.competitors ▸ hc)
    obtain ⟨s', hs', hss'⟩ := hk.get?_of_get? hs
    exact ⟨hne, s', hs', by rw [hss'.group, hrr'.group, hsg], hrr'.group ▸ hg0⟩

/-- The thresholds of groups have no part in consistency. -/
theorem Consistent.withGroups (h : a.Consistent) {gs : Groups}
    (hgs : ∀ id, (gs.get? id).map Group.members = (a.groups.get? id).map Group.members) :
    Consistent { a with groups := gs } where
  toGrouped := h.toGrouped.congr hgs fun _ => rfl
  core_lt := h.core_lt
  length_debts := h.length_debts
  two_le_size := fun {id g} hg => by
    have hid := hgs id
    rw [show gs.get? id = some g from hg] at hid
    obtain ⟨g', hg', hsame⟩ := Option.map_eq_some_iff.1 hid.symm
    exact hsame ▸ h.two_le_size hg'
  not_ended := h.not_ended
  competitor := h.competitor

/-! ### A new competitor -/

/-- Two tasks of one group are both joined or both not. -/
private theorem joined_iff_of_group_eq {n m : String} {o s : Record}
    (hn : a.tasks.get? n = some o) (hm : a.tasks.get? m = some s) (hg : s.group = o.group)
    (h0 : o.group ≠ 0) : a.Joined name cause n o ↔ a.Joined name cause m s := by
  have key : ∀ {k p}, a.tasks.get? k = some p → p.group = o.group →
      (a.Joined name cause k p ↔ o.group = a.groupOf name ∨ o.group = a.groupOf cause) := by
    intro k p hk hp
    rw [← hp] at h0 ⊢
    exact joined_iff hk fun _ => h0
  exact (key hn rfl).trans (key hm hg).symm

/-- What a record becomes when groups are united. -/
private theorem Relation.get? {k : Nat} (hrel : Relation a b name cause k) {n : String}
    {o' : Record} (ho' : b.tasks.get? n = some o') :
    ∃ o, a.tasks.get? n = some o ∧
      o' = if a.Joined name cause n o then { o with group := k } else o := by
  obtain ⟨o, ho, rfl⟩ := Option.map_eq_some_iff.1 ((hrel.tasks n).symm.trans ho')
  exact ⟨o, ho, rfl⟩

/-- The records after groups have been united. -/
theorem Relation.get?_of_get? {k : Nat} (hrel : Relation a b name cause k) {n : String}
    {o : Record} (ho : a.tasks.get? n = some o) :
    b.tasks.get? n = some (if a.Joined name cause n o then { o with group := k } else o) := by
  rw [hrel.tasks, ho, Option.map_some]

/-- The same tasks are supervised after groups have been united. -/
private theorem Relation.contains {k : Nat} (hrel : Relation a b name cause k) (n : String) :
    b.tasks.contains n = a.tasks.contains n := by
  rw [OrderedMap.contains, OrderedMap.contains, hrel.tasks, Option.isSome_map]

/-- United groups fit together with the records. -/
theorem Placed.relation (h : a.Placed) {k : Nat} (hrel : Relation a b name cause k)
    (hname : a.tasks.contains name = true) (hcause : a.tasks.contains cause = true)
    (hne : cause ≠ name) : b.Placed := by
  obtain ⟨g, hg, hmem⟩ := hrel.members
  obtain ⟨r, hr⟩ := OrderedMap.contains_iff.1 hname
  obtain ⟨s, hs⟩ := OrderedMap.contains_iff.1 hcause
  -- a group other than `k` is one of the old groups, and none of the two
  have hother : ∀ {id gid}, b.groups.get? id = some gid → id ≠ k →
      (id ≠ a.groupOf name ∧ id ≠ a.groupOf cause) ∧ a.groups.get? id = some gid := by
    intro id gid hgid hid
    rw [hrel.others id hid] at hgid
    split at hgid
    · cases hgid
    · rename_i hor
      exact ⟨not_or.1 hor, hgid⟩
  refine ⟨⟨?ne_zero, ?mem, ?group_eq⟩, ?core_lt, ?length_debts, ?two_le_size, ?not_ended⟩
  case ne_zero =>
    intro id gid hgid
    by_cases hid : id = k
    · exact hid ▸ hrel.ne_zero
    · exact h.ne_zero (hother hgid hid).2
  case mem =>
    intro n o' ho' h0
    obtain ⟨o, ho, rfl⟩ := hrel.get? ho'
    by_cases hj : a.Joined name cause n o
    · rw [if_pos hj]
      exact ⟨g, hg, (hmem n).2 ⟨o, ho, hj⟩⟩
    · rw [if_neg hj] at h0 ⊢
      obtain ⟨gid, hgid, hn⟩ := h.mem ho h0
      -- a task that is not joined is in none of the two groups, and `k` is not its group
      have hids : ¬ (o.group = a.groupOf name ∨ o.group = a.groupOf cause) :=
        fun hor => hj (.inr (.inr ⟨h0, hor⟩))
      have hk : o.group ≠ k := by
        rintro rfl
        rcases hrel.origin with hnew | hor
        · rw [hnew] at hgid
          cases hgid
        · exact hids hor
      exact ⟨gid, by rw [hrel.others _ hk, if_neg hids]; exact hgid, hn⟩
  case group_eq =>
    intro id gid n hgid hn
    by_cases hid : id = k
    · subst hid
      rw [hg] at hgid
      cases hgid
      obtain ⟨o, ho, hj⟩ := (hmem n).1 hn
      exact ⟨_, hrel.get?_of_get? ho, by rw [if_pos hj]⟩
    · obtain ⟨⟨hidn, hidc⟩, hgid⟩ := hother hgid hid
      obtain ⟨o, ho, hog⟩ := h.group_eq hgid hn
      have hj : ¬ a.Joined name cause n o := by
        rintro (rfl | rfl | ⟨-, hor | hor⟩)
        · exact hidn (by rw [groupOf_eq ho, hog])
        · exact hidc (by rw [groupOf_eq ho, hog])
        · exact hidn (hog ▸ hor)
        · exact hidc (hog ▸ hor)
      exact ⟨_, hrel.get?_of_get? ho, by rw [if_neg hj]; exact hog⟩
  case core_lt =>
    intro n o' ho'
    obtain ⟨o, ho, rfl⟩ := hrel.get? ho'
    have hlt := h.core_lt ho
    rw [hrel.cores]
    split <;> exact hlt
  case length_debts =>
    intro n o' ho'
    obtain ⟨o, ho, rfl⟩ := hrel.get? ho'
    have hlength := h.length_debts ho
    rw [hrel.cores]
    split <;> exact hlength
  case two_le_size =>
    intro id gid hgid
    by_cases hid : id = k
    · subst hid
      rw [hg] at hgid
      cases hgid
      have hmemc : cause ∈ g.members := (hmem cause).2 ⟨s, hs, .inr (.inl rfl)⟩
      have hmemn : name ∈ g.members := (hmem name).2 ⟨r, hr, .inl rfl⟩
      exact OrderedSet.two_le_size hmemc hmemn hne
    · exact h.two_le_size (hother hgid hid).2
  case not_ended =>
    intro n hin
    rw [hrel.ended]
    exact h.not_ended (by rw [← hrel.contains]; exact hin)

/-- Name a cause as a competitor. -/
def compete (a : Arbiter) (name cause : String) : Arbiter :=
  a.modify name fun r => { r with competitors := r.competitors.insert cause }

theorem get?_compete (a : Arbiter) (name cause n : String) :
    (a.compete name cause).tasks.get? n = (a.tasks.get? n).map fun o =>
      if n = name then { o with competitors := o.competitors.insert cause } else o := by
  simp only [compete, modify, OrderedMap.get?_modify]
  split
  · rfl
  · simp

theorem contains_compete (a : Arbiter) (name cause n : String) :
    (a.compete name cause).tasks.contains n = a.tasks.contains n := by
  rw [OrderedMap.contains, OrderedMap.contains, get?_compete, Option.isSome_map]

/-- A new competitor moves nothing. -/
theorem Placed.compete (h : a.Placed) (name cause : String) :
    (a.compete name cause).Placed where
  toGrouped := h.toGrouped.congr (fun _ => rfl) fun n => by
    rw [get?_compete, Option.map_map]
    congr 1
    funext o
    simp only [Function.comp_apply]
    split <;> rfl
  core_lt := fun {n o'} ho' => by
    rw [get?_compete] at ho'
    obtain ⟨o, ho, rfl⟩ := Option.map_eq_some_iff.1 ho'
    have hlt := h.core_lt ho
    split <;> exact hlt
  length_debts := fun {n o'} ho' => by
    rw [get?_compete] at ho'
    obtain ⟨o, ho, rfl⟩ := Option.map_eq_some_iff.1 ho'
    have hlength := h.length_debts ho
    split <;> exact hlength
  two_le_size := h.two_le_size
  not_ended := fun hin => h.not_ended (by rw [← contains_compete a name cause]; exact hin)

/-- A competitor that has just been named is in another group at most until the groups are
united; all older ones move along with the tasks that name them. -/
private theorem Consistent.relation_compete (h : a.Consistent) {k : Nat}
    (hrel : Relation (a.compete name cause) b name cause k)
    (hname : a.tasks.contains name = true) (hcause : a.tasks.contains cause = true)
    (hne : cause ≠ name) : b.Consistent where
  toPlaced := (h.toPlaced.compete name cause).relation hrel
    (by rw [contains_compete]; exact hname) (by rw [contains_compete]; exact hcause) hne
  competitor := fun {n o' c} ho' hc => by
    obtain ⟨p, hp, rfl⟩ := hrel.get? ho'
    -- `p` is the record between the two steps, `o` the one before both
    have hpa := hp
    rw [get?_compete] at hpa
    obtain ⟨o, ho, hpo⟩ := Option.map_eq_some_iff.1 hpa
    have hc' : c ∈ p.competitors := by split at hc <;> exact hc
    have hold : c ∈ o.competitors ∨ n = name ∧ c = cause := by
      subst hpo
      split at hc'
      · rename_i hn
        rcases OrderedSet.mem_insert.1 hc' with hcc | hcc
        · exact .inr ⟨hn, hcc⟩
        · exact .inl hcc
      · exact .inl hc'
    rcases hold with hco | ⟨rfl, rfl⟩
    · -- an older competitor is of the same group, so it moves if the task does
      obtain ⟨hcn, s, hs, hsg, hg0⟩ := h.competitor ho hco
      have hs' : ∃ t, (a.compete name cause).tasks.get? c = some t ∧ t.group = s.group := by
        refine ⟨_, by rw [get?_compete, hs, Option.map_some], ?_⟩
        split <;> rfl
      obtain ⟨t, ht, htg⟩ := hs'
      have hpg : p.group = o.group := by subst hpo; split <;> rfl
      have htp : t.group = p.group := by rw [htg, hsg, hpg]
      have hiff : (a.compete name cause).Joined name cause n p ↔
          (a.compete name cause).Joined name cause c t :=
        joined_iff_of_group_eq hp ht htp (hpg ▸ hg0)
      refine ⟨hcn, _, hrel.get?_of_get? ht, ?_⟩
      by_cases hj : (a.compete name cause).Joined name cause n p
      · rw [if_pos hj, if_pos (hiff.1 hj)]
        exact ⟨rfl, hrel.ne_zero⟩
      · rw [if_neg hj, if_neg fun hjc => hj (hiff.2 hjc)]
        exact ⟨htp, hpg ▸ hg0⟩
    · -- the new competitor and the task are the two whose groups are united
      obtain ⟨s, hs⟩ := OrderedMap.contains_iff.1 hcause
      have ht : (a.compete n c).tasks.get? c = some s := by
        rw [get?_compete, hs, Option.map_some, if_neg hne]
      refine ⟨hne, _, hrel.get?_of_get? ht, ?_⟩
      rw [if_pos (.inr (.inl rfl)), if_pos (.inl rfl)]
      exact ⟨rfl, hrel.ne_zero⟩

/-- When the cause of a missed deadline becomes a competitor, all stays consistent. -/
theorem Consistent.blame (h : a.Consistent) (hname : a.tasks.contains name = true)
    (hcause : a.tasks.contains cause = true) (hne : cause ≠ name) :
    (a.blame name cause).Consistent := by
  obtain ⟨r, hr⟩ := OrderedMap.contains_iff.1 ((contains_compete a name cause name).trans hname)
  obtain ⟨s, hs⟩ := OrderedMap.contains_iff.1 ((contains_compete a name cause cause).trans hcause)
  obtain ⟨k, hrel⟩ := relate_spec (h.toPlaced.compete name cause).toGrouped hr hs
  have hrelated := h.relation_compete hrel hname hcause hne
  exact hrelated.withGroups fun id => Groups.get?_raiseThreshold _ _ _ id

/-! ### A task that leaves -/

/-- What a record becomes when another task leaves. -/
theorem Departure.get? {r : Record} {dissolved : Bool}
    (hdep : Departure a b name r dissolved) {n : String} {o' : Record}
    (ho' : b.tasks.get? n = some o') :
    n ≠ name ∧ ∃ o, a.tasks.get? n = some o ∧ o' = { o with
      competitors := o.competitors.erase name
      group := if dissolved && o.group = r.group then 0 else o.group } := by
  have hn : n ≠ name := by
    rintro rfl
    rw [hdep.gone] at ho'
    cases ho'
  obtain ⟨o, ho, rfl⟩ := Option.map_eq_some_iff.1 ((hdep.tasks n hn).symm.trans ho')
  exact ⟨hn, o, ho, rfl⟩

/-- A group that is left after a task has gone. -/
theorem Departure.get?_group {r : Record} {dissolved : Bool}
    (hdep : Departure a b name r dissolved) {id : Nat} {g' : Group}
    (hg' : b.groups.get? id = some g') :
    ∃ g, a.groups.get? id = some g ∧
      (id = r.group ∧ dissolved = false ∧ g'.members = g.members.erase name ∨
        id ≠ r.group ∧ g'.members = g.members) := by
  by_cases hid : id = r.group
  · subst hid
    have hgroup := hdep.group
    rw [hg'] at hgroup
    cases dissolved with
    | true => cases hgroup
    | false =>
      obtain ⟨g, hg, hm⟩ := Option.map_eq_some_iff.1 hgroup.symm
      exact ⟨g, hg, .inl ⟨rfl, rfl, hm.symm⟩⟩
  · have hother := hdep.others id hid
    rw [hg'] at hother
    obtain ⟨g, hg, hm⟩ := Option.map_eq_some_iff.1 hother.symm
    exact ⟨g, hg, .inr ⟨hid, hm.symm⟩⟩

/-- The groups that go on after a task has gone. -/
private theorem Departure.get?_group_of_get? {r : Record} {dissolved : Bool}
    (hdep : Departure a b name r dissolved) {id : Nat} {g : Group}
    (hg : a.groups.get? id = some g) (hid : (dissolved && id = r.group) = false) :
    ∃ g', b.groups.get? id = some g' ∧
      (id = r.group ∧ g'.members = g.members.erase name ∨ id ≠ r.group ∧ g'.members = g.members) := by
  by_cases heq : id = r.group
  · subst heq
    have hgroup := hdep.group
    have hd : dissolved = false := by simpa using hid
    rw [hd, hg] at hgroup
    obtain ⟨g', hg', hm⟩ := Option.map_eq_some_iff.1 hgroup
    exact ⟨g', hg', .inl ⟨rfl, hm⟩⟩
  · have hother := hdep.others id heq
    rw [hg] at hother
    obtain ⟨g', hg', hm⟩ := Option.map_eq_some_iff.1 hother
    exact ⟨g', hg', .inr ⟨heq, hm⟩⟩

/-- After a task has left and been remembered, all is consistent again. -/
theorem Consistent.departure (h : a.Consistent) {r : Record} {dissolved : Bool}
    (hr : a.tasks.get? name = some r) (hdep : Departure a b name r dissolved)
    (hended : ∀ n, b.ended.contains n = true → n = name ∨ a.ended.contains n = true) :
    b.Consistent := by
  refine ⟨⟨⟨?ne_zero, ?mem, ?group_eq⟩, ?core_lt, ?length_debts, ?two_le_size, ?not_ended⟩,
    ?competitor⟩
  case ne_zero =>
    intro id g' hg'
    obtain ⟨g, hg, -⟩ := hdep.get?_group hg'
    exact h.ne_zero hg
  case mem =>
    intro n o' ho' h0
    obtain ⟨hn, o, ho, rfl⟩ := hdep.get? ho'
    -- a task that still has a group has its old one, and it goes on
    have hcond : (dissolved && decide (o.group = r.group)) = false :=
      Bool.eq_false_iff.2 fun hcond => h0 (if_pos hcond)
    simp only [hcond, Bool.false_eq_true, if_false] at h0 ⊢
    obtain ⟨g, hg, hmem⟩ := h.mem ho h0
    obtain ⟨g', hg', hm⟩ := hdep.get?_group_of_get? hg hcond
    refine ⟨g', hg', ?_⟩
    rcases hm with ⟨-, hm⟩ | ⟨-, hm⟩
    · rw [hm, OrderedSet.mem_erase]
      exact ⟨hmem, hn⟩
    · rw [hm]
      exact hmem
  case group_eq =>
    intro id g' n hg' hmem
    obtain ⟨g, hg, hm⟩ := hdep.get?_group hg'
    have hn : n ≠ name ∧ n ∈ g.members := by
      rcases hm with ⟨-, -, hm⟩ | ⟨hid, hm⟩
      · rw [hm, OrderedSet.mem_erase] at hmem
        exact hmem.symm
      · rw [hm] at hmem
        refine ⟨?_, hmem⟩
        rintro rfl
        exact hid ((h.mem_iff hg hr).1 hmem).symm
    obtain ⟨o, ho, hog⟩ := h.group_eq hg hn.2
    refine ⟨_, by rw [hdep.tasks n hn.1, ho, Option.map_some], ?_⟩
    simp only [hog]
    rw [if_neg]
    rcases hm with ⟨-, hd, -⟩ | ⟨hid, -⟩
    · simp [hd]
    · simp [hid]
  case core_lt =>
    intro n o' ho'
    obtain ⟨-, o, ho, rfl⟩ := hdep.get? ho'
    have hlt := h.core_lt ho
    rw [hdep.cores]
    exact hlt
  case length_debts =>
    intro n o' ho'
    obtain ⟨-, o, ho, rfl⟩ := hdep.get? ho'
    have hlength := h.length_debts ho
    rw [hdep.cores]
    exact hlength
  case two_le_size =>
    intro id g' hg'
    obtain ⟨g, hg, ⟨rfl, hd, hm⟩ | ⟨-, hm⟩⟩ := hdep.get?_group hg'
    · exact hm ▸ hdep.enough hd hg
    · exact hm ▸ h.two_le_size hg
  case not_ended =>
    intro n hin
    obtain ⟨o', ho'⟩ := OrderedMap.contains_iff.1 hin
    obtain ⟨hn, o, ho, -⟩ := hdep.get? ho'
    have hold := h.not_ended (OrderedMap.contains_iff.2 ⟨o, ho⟩)
    rw [Bool.eq_false_iff]
    intro hend
    rcases hended n hend with heq | hend
    · exact hn heq
    · rw [hold] at hend
      cases hend
  case competitor =>
    intro n o' c ho' hc
    obtain ⟨hn, o, ho, rfl⟩ := hdep.get? ho'
    obtain ⟨hco, hcname⟩ := OrderedSet.mem_erase.1 hc
    obtain ⟨hcn, s, hs, hsg, hg0⟩ := h.competitor ho hco
    refine ⟨hcn, _, by rw [hdep.tasks c hcname, hs, Option.map_some], ?_⟩
    -- two tasks of the dissolved group would be one
    have hcond : ¬ (dissolved && decide (o.group = r.group)) = true := by
      intro hcond
      simp only [Bool.and_eq_true, decide_eq_true_eq] at hcond
      exact hcn (hdep.lonely hcond.1 hs ho hcname hn (hsg.trans hcond.2) hcond.2)
    simp only [hsg, if_neg hcond, true_and]
    exact hg0

/-- The history has no part in groups. -/
theorem ended_leaveGroup (a : Arbiter) (name : String) (r : Record) :
    (a.leaveGroup name r).ended = a.ended := by
  rw [leaveGroup]
  split
  · rfl
  · simp only
    split
    · split <;> rfl
    · rfl

/-- When a task leaves its group and the records, all stays consistent. -/
theorem Consistent.leave (h : a.Consistent) {r : Record} (hr : a.tasks.get? name = some r)
    (e : Ended) : ((a.forget name e).leaveGroup name r).Consistent := by
  obtain ⟨dissolved, hdep⟩ := leaveGroup_spec h.toGrouped name r e
  refine h.departure hr hdep fun n hend => ?_
  -- the history grows by the task that leaves, if that has not ended before
  rw [ended_leaveGroup, OrderedMap.contains, get?_ended_forget] at hend
  split at hend
  · exact .inl ‹n = name›
  · exact .inr hend

/-! ### A task that comes -/

/-- When a task is added, all stays consistent. -/
theorem Consistent.add (h : a.Consistent) {core : Nat} {t : Task} (hcore : core < a.cores)
    (hin : a.tasks.contains t.name = false) : (a.add core t).2.Consistent := by
  have hnone := OrderedMap.contains_eq_false_iff.1 hin
  have hget : ∀ {n o}, (a.tasks.insert t.name (.ofTask t core a.cores)).get? n = some o →
      n = t.name ∧ o = .ofTask t core a.cores ∨ n ≠ t.name ∧ a.tasks.get? n = some o := by
    intro n o ho
    rw [OrderedMap.get?_insert] at ho
    split at ho
    · exact .inl ⟨‹_›, (Option.some.inj ho).symm⟩
    · exact .inr ⟨‹_›, ho⟩
  have hold : ∀ {n o}, a.tasks.get? n = some o →
      (a.tasks.insert t.name (.ofTask t core a.cores)).get? n = some o := by
    intro n o ho
    rw [OrderedMap.get?_insert, if_neg, ho]
    rintro rfl
    rw [hnone] at ho
    cases ho
  rw [add_of_new hcore hin]
  refine ⟨⟨⟨h.ne_zero, ?mem, ?group_eq⟩, ?core_lt, ?length_debts, h.two_le_size, ?not_ended⟩,
    ?competitor⟩
  case mem =>
    intro n o ho h0
    rcases hget ho with ⟨-, rfl⟩ | ⟨-, ho⟩
    · exact absurd rfl h0
    · exact h.mem ho h0
  case group_eq =>
    intro id g n hg hmem
    obtain ⟨o, ho, hog⟩ := h.group_eq hg hmem
    exact ⟨o, hold ho, hog⟩
  case core_lt =>
    intro n o ho
    rcases hget ho with ⟨-, rfl⟩ | ⟨-, ho⟩
    · exact hcore
    · exact h.core_lt ho
  case length_debts =>
    intro n o ho
    rcases hget ho with ⟨-, rfl⟩ | ⟨-, ho⟩
    · exact List.length_replicate
    · exact h.length_debts ho
  case not_ended =>
    intro n hn
    obtain ⟨o, ho⟩ := OrderedMap.contains_iff.1 hn
    rw [OrderedMap.contains_eq_false_iff, OrderedMap.get?_erase]
    rcases hget ho with ⟨rfl, -⟩ | ⟨hne, ho⟩
    · exact if_pos rfl
    · rw [if_neg hne]
      exact OrderedMap.contains_eq_false_iff.1 (h.not_ended (OrderedMap.contains_iff.2 ⟨o, ho⟩))
  case competitor =>
    intro n o c ho hc
    rcases hget ho with ⟨-, rfl⟩ | ⟨-, ho⟩
    · exact absurd hc (OrderedSet.not_mem_empty c)
    · obtain ⟨hcn, s, hs, hsg⟩ := h.competitor ho hc
      exact ⟨hcn, s, hold hs, hsg⟩

/-! ### All histories -/

/-- No request makes an arbiter inconsistent. -/
theorem invariant_consistent : Invariant Consistent where
  kept := fun hk h => h.kept hk
  add := fun hcore hin h => h.add hcore hin
  blame := fun hname hcause hne h => h.blame hname hcause hne
  leave := fun e hr h => h.leave hr e

private theorem cores_relate (a : Arbiter) (name cause : String) :
    (a.relate name cause).cores = a.cores := by
  simp only [relate]
  split
  · rfl
  · split
    · rfl
    · split
      · rfl
      · split
        · rfl
        · exact (setGroups_eq _ _ _).2.1

/-- Blaming a task is no matter of the history. -/
theorem ended_blame (a : Arbiter) (name cause : String) : (a.blame name cause).ended = a.ended := by
  show (relate _ name cause).ended = a.ended
  simp only [relate]
  split
  · rfl
  · split
    · rfl
    · split
      · rfl
      · split
        · rfl
        · exact (setGroups_eq _ _ _).2.2

private theorem cores_leaveGroup (a : Arbiter) (name : String) (r : Record) :
    (a.leaveGroup name r).cores = a.cores := by
  simp only [leaveGroup]
  split
  · rfl
  · split
    · split <;> rfl
    · rfl

/-- No request changes the number of cores. -/
theorem invariant_cores (cores : Nat) : Invariant fun a => a.cores = cores where
  kept := fun hk h => hk.cores.trans h
  add := fun hcore hin h => by
    rw [add_of_new hcore hin]
    exact h
  blame := fun {a name cause} _ _ _ h => (cores_relate _ name cause).trans h
  leave := fun {a name r} e _ h => (cores_leaveGroup (a.forget name e) name r).trans h

/-- Whoever starts without tasks is always consistent. -/
theorem run_consistent (cores : Nat) (rs : List Request) : (run { cores } rs).Consistent :=
  invariant_consistent.run (consistent_empty cores) rs

/-- After every history of requests to an arbiter that starts without tasks, tasks, groups and
history fit together.  Hence groups have no member in common, and a task without a group has no
competitor.  Groups are numbered by natural numbers.  The numbers fit into words of 32 bits as long
as no more than `2 ^ 32 - 1` groups are made in all, because a new group gets the number after the
largest one in use. -/
theorem consistent_run (cores : Nat) (rs : List Request) :
    (run { cores } rs).cores = cores ∧ (run { cores } rs).Consistent ∧
      (∀ {i j g h n}, (run { cores } rs).groups.get? i = some g →
        (run { cores } rs).groups.get? j = some h → n ∈ g.members → n ∈ h.members → i = j) ∧
      ∀ {n r}, (run { cores } rs).tasks.get? n = some r → r.group = 0 → ∀ c, c ∉ r.competitors := by
  have hcons := run_consistent cores rs
  refine ⟨(invariant_cores cores).run rfl rs, hcons, fun hi hj hg hh => ?_, fun hr h0 c hc => ?_⟩
  · obtain ⟨r, hr, rfl⟩ := hcons.group_eq hi hg
    exact (hcons.mem_iff hj hr).1 hh
  · obtain ⟨-, -, -, -, hne⟩ := hcons.competitor hr hc
    exact hne h0

end RealTime.Arbiter
