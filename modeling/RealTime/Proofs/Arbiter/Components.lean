import Mathlib.Logic.Relation
import RealTime.Proofs.Arbiter.Permissions

/-! # What holds a group together

Tasks get into one group when one of them makes the other miss a deadline, and from then on they
compete with each other.  So a group is held together by competition, until one of its members
ends: the members that are left stay in one group, even where only the one that ended had tied them
to each other.  It is remembered as a bridge between the tasks that stood next to it.

Groups are the components of this relation: `Adjacent`, competitors now or two sides of a bridge.
Without the bridges they are not, as `group_without_competitors` shows.

* `Tied.blame`     a new competitor ties two groups together
* `Tied.leave`     who stood next to a task that leaves is next to each other afterwards
* `groups_are_components`   all groups after a history of requests -/

namespace RealTime.Arbiter

variable {a b : Arbiter} {B : String → String → Prop} {name cause u v w : String} {r : Record}
  {g : Group}

/-! ### Neighbours -/

/-- Two tasks stand next to each other: they compete, or there is a bridge between them. -/
def Adjacent (a : Arbiter) (B : String → String → Prop) (u v : String) : Prop :=
  a.Competes u v ∨ B u v

/-- The bridges after a task has ended: those between two other tasks, and new ones between all that
stood next to the task. -/
def bridge (a : Arbiter) (B : String → String → Prop) (name u v : String) : Prop :=
  u ≠ v ∧ u ≠ name ∧ v ≠ name ∧ (B u v ∨ a.Adjacent B u name ∧ a.Adjacent B v name)

/-- The bridges that some examinations leave, one after the other. -/
def bridges (es : List Examination) : String → String → Prop :=
  es.foldl (fun B e => if e.finding.ends.isSome then e.arbiter.bridge B e.task else B)
    fun _ _ => False

/-- Two members of a group stand next to each other. -/
def Step (a : Arbiter) (B : String → String → Prop) (g : Group) (u v : String) : Prop :=
  u ∈ g.members ∧ v ∈ g.members ∧ a.Adjacent B u v

/-- Two tasks are members of one group. -/
def Together (a : Arbiter) (u v : String) : Prop :=
  ∃ id g, a.groups.get? id = some g ∧ u ∈ g.members ∧ v ∈ g.members

theorem Competes.symm (h : a.Competes u v) : a.Competes v u := by
  obtain ⟨hne, r, o, hr, ho, hcomp⟩ := h
  exact ⟨hne.symm, o, r, ho, hr, hcomp.symm⟩

theorem Kept.grows (h : a.Kept b) : a.Grows b := by
  intro n r hr
  obtain ⟨r', hr', hrr'⟩ := h.get?_of_get? hr
  exact ⟨r', hr', fun c hc => hrr'.competitors ▸ hc⟩

/-- What is kept does not show in competition. -/
theorem Kept.competes_iff (h : a.Kept b) : b.Competes u v ↔ a.Competes u v := by
  refine ⟨fun hcomp => ?_, fun hcomp => hcomp.mono h.grows⟩
  obtain ⟨hne, r', o', hr', ho', hcomp⟩ := hcomp
  obtain ⟨r, hr, hrr'⟩ := h.get? hr'
  obtain ⟨o, ho, hoo'⟩ := h.get? ho'
  exact ⟨hne, r, o, hr, ho, by rwa [← hrr'.competitors, ← hoo'.competitors]⟩

theorem Kept.bridge_eq (h : a.Kept b) (B : String → String → Prop) (name : String) :
    b.bridge B name = a.bridge B name := by
  funext u v
  simp only [bridge, Adjacent, h.competes_iff]

/-- Records tell who is together. -/
theorem Grouped.together_iff (h : a.Grouped) :
    a.Together u v ↔ ∃ r o, a.tasks.get? u = some r ∧ a.tasks.get? v = some o ∧
      o.group = r.group ∧ r.group ≠ 0 := by
  constructor
  · rintro ⟨id, g, hg, hu, hv⟩
    obtain ⟨r, hr, rfl⟩ := h.group_eq hg hu
    obtain ⟨o, ho, hog⟩ := h.group_eq hg hv
    exact ⟨r, o, hr, ho, hog, h.ne_zero hg⟩
  · rintro ⟨r, o, hr, ho, hog, h0⟩
    obtain ⟨g, hg, hu⟩ := h.mem hr h0
    exact ⟨_, g, hg, hu, (h.mem_iff hg ho).2 hog⟩

theorem Together.symm (h : a.Together u v) : a.Together v u := by
  obtain ⟨id, g, hg, hu, hv⟩ := h
  exact ⟨id, g, hg, hv, hu⟩

/-- Only the members of groups count for who is together. -/
theorem Together.congr {u v : String} (h : a.Together u v)
    (hgroups : ∀ id, (b.groups.get? id).map Group.members = (a.groups.get? id).map Group.members) :
    b.Together u v := by
  obtain ⟨id, g, hg, hu, hv⟩ := h
  have hid := hgroups id
  rw [hg] at hid
  obtain ⟨g', hg', hsame⟩ := Option.map_eq_some_iff.1 hid
  exact ⟨id, g', hg', hsame ▸ hu, hsame ▸ hv⟩

theorem Kept.together_iff (h : a.Kept b) {u v : String} : b.Together u v ↔ a.Together u v := by
  rw [Together, Together, h.groups]

/-- A task has one group at most. -/
theorem Grouped.together_trans (h : a.Grouped) (huv : a.Together u v) (hvw : a.Together v w) :
    a.Together u w := by
  rw [h.together_iff] at huv hvw ⊢
  obtain ⟨r, o, hr, ho, hog, h0⟩ := huv
  obtain ⟨o', p, ho', hp, hpg, -⟩ := hvw
  obtain rfl := Option.some.inj (ho.symm.trans ho')
  exact ⟨r, p, hr, hp, hpg.trans hog, h0⟩

/-- Tasks that compete with each other are in one group. -/
theorem Consistent.together_of_competes (h : a.Consistent) (hcomp : a.Competes u v) :
    a.Together u v := by
  obtain ⟨-, r, o, hr, ho, hcomp⟩ := hcomp
  rw [h.together_iff]
  rcases hcomp with hcomp | hcomp
  · obtain ⟨-, p, hp, hpg, h0⟩ := h.competitor hr hcomp
    obtain rfl := Option.some.inj (ho.symm.trans hp)
    exact ⟨r, o, hr, ho, hpg, h0⟩
  · obtain ⟨-, p, hp, hpg, h0⟩ := h.competitor ho hcomp
    obtain rfl := Option.some.inj (hr.symm.trans hp)
    exact ⟨r, o, hr, ho, hpg.symm, hpg ▸ h0⟩

/-! ### Chains -/

/-- Groups are held together by competition and bridges, and bridges do not leave a group. -/
structure Tied (a : Arbiter) (B : String → String → Prop) : Prop where
  symm : ∀ {u v}, B u v → B v u
  ne : ∀ {u v}, B u v → u ≠ v
  chained : ∀ {id g u v}, a.groups.get? id = some g → u ∈ g.members → v ∈ g.members →
    Relation.ReflTransGen (a.Step B g) u v
  together : ∀ {u v}, B u v → a.Together u v

theorem Tied.adjacent_symm (h : a.Tied B) (hadj : a.Adjacent B u v) : a.Adjacent B v u :=
  hadj.imp Competes.symm h.symm

/-- A chain can be walked in both directions. -/
theorem chain_symm (hsymm : ∀ {u v}, B u v → B v u)
    (h : Relation.ReflTransGen (a.Step B g) u v) : Relation.ReflTransGen (a.Step B g) v u :=
  h.swap.lift id fun _ _ ⟨hv, hu, hadj⟩ => ⟨hu, hv, hadj.imp Competes.symm hsymm⟩

/-- More competitors and more members do no harm to a chain. -/
theorem chain_mono {g' : Group} (hgrows : a.Grows b) (hsub : ∀ n ∈ g.members, n ∈ g'.members)
    (h : Relation.ReflTransGen (a.Step B g) u v) :
    Relation.ReflTransGen (b.Step B g') u v :=
  h.lift id fun _ _ ⟨hu, hv, hadj⟩ => ⟨hsub _ hu, hsub _ hv, hadj.imp_left (·.mono hgrows)⟩

/-- Only the members of groups and the competitors matter, and more competitors do no harm. -/
theorem Tied.congr (h : a.Tied B)
    (hgroups : ∀ id, (b.groups.get? id).map Group.members = (a.groups.get? id).map Group.members)
    (hgrows : a.Grows b) : b.Tied B where
  symm := h.symm
  ne := h.ne
  chained := fun {id g' u v} hg' hu hv => by
    have hid := hgroups id
    rw [hg'] at hid
    obtain ⟨g, hg, hsame⟩ := Option.map_eq_some_iff.1 hid.symm
    rw [← hsame] at hu hv
    exact chain_mono hgrows (fun n hn => hsame ▸ hn) (h.chained hg hu hv)
  together := fun huv => (h.together huv).congr hgroups

/-! ### A new competitor -/

/-- Uniting two groups takes nobody's competitors away. -/
theorem Relation.grows {k : Nat} (hrel : Relation a b name cause k) : a.Grows b := by
  intro n r hr
  refine ⟨_, hrel.get?_of_get? hr, fun c hc => ?_⟩
  split <;> exact hc

/-- Who is joined is one of the two tasks, or together with one of them. -/
theorem Grouped.joined_iff (h : a.Grouped) (hname : a.tasks.contains name = true)
    (hcause : a.tasks.contains cause = true) (hu : a.tasks.get? u = some r) :
    a.Joined name cause u r ↔
      (u = name ∨ a.Together u name) ∨ (u = cause ∨ a.Together u cause) := by
  obtain ⟨rn, hrn⟩ := OrderedMap.contains_iff.1 hname
  obtain ⟨rc, hrc⟩ := OrderedMap.contains_iff.1 hcause
  have htogether : ∀ {m : String} {o : Record}, a.tasks.get? m = some o →
      (a.Together u m ↔ r.group ≠ 0 ∧ r.group = a.groupOf m) := by
    intro m o ho
    rw [h.together_iff, groupOf_eq ho]
    constructor
    · rintro ⟨r', o', hr', ho', hog, h0⟩
      obtain rfl := Option.some.inj (hu.symm.trans hr')
      obtain rfl := Option.some.inj (ho.symm.trans ho')
      exact ⟨h0, hog.symm⟩
    · exact fun ⟨h0, hog⟩ => ⟨r, o, hu, ho, hog.symm, h0⟩
  rw [htogether hrn, htogether hrc, Joined, and_or_left]
  exact ⟨by grind, by grind⟩

/-- The members of the united group that were in the group of `name` are tied to it, and those that
were in the group of `cause` to that.  The two tasks are the ends of the new link. -/
theorem Tied.relation (h : a.Tied B) (hgrouped : a.Grouped) {k : Nat}
    (hrel : Relation a b name cause k) (hlink : a.Competes name cause) : b.Tied B := by
  obtain ⟨-, rn, rc, hrn, hrc, -⟩ := id hlink
  have hjoined {n : String} {o : Record} (ho : a.tasks.get? n = some o) :=
    hgrouped.joined_iff (OrderedMap.contains_iff.2 ⟨rn, hrn⟩)
      (OrderedMap.contains_iff.2 ⟨rc, hrc⟩) ho
  obtain ⟨gk, hgk, hmem⟩ := hrel.members
  have hname : name ∈ gk.members := (hmem name).2 ⟨rn, hrn, (hjoined hrn).2 (.inl (.inl rfl))⟩
  have hcause : cause ∈ gk.members := (hmem cause).2 ⟨rc, hrc, (hjoined hrc).2 (.inr (.inl rfl))⟩
  -- whoever was together with one of the two is now in the group `k`, with all of their old group
  have htie : ∀ {m n : String}, (m = name ∨ m = cause) → a.Together n m →
      Relation.ReflTransGen (b.Step B gk) n m := by
    rintro m n hm ⟨id, g, hg, hn, hmg⟩
    refine chain_mono hrel.grows (fun i hi => ?_) (h.chained hg hn hmg)
    obtain ⟨o, ho, -⟩ := hgrouped.group_eq hg hi
    refine (hmem i).2 ⟨o, ho, (hjoined ho).2 ?_⟩
    have hi : a.Together i m := ⟨id, g, hg, hi, hmg⟩
    rcases hm with rfl | rfl
    · exact .inl (.inr hi)
    · exact .inr (.inr hi)
  have hlink : Relation.ReflTransGen (b.Step B gk) cause name :=
    .single ⟨hcause, hname, .inl (hlink.mono hrel.grows).symm⟩
  have hall : ∀ {n}, n ∈ gk.members → Relation.ReflTransGen (b.Step B gk) n name := by
    intro n hn
    obtain ⟨o, ho, hj⟩ := (hmem n).1 hn
    rcases (hjoined ho).1 hj with (rfl | hn) | (rfl | hn)
    · exact .refl
    · exact htie (.inl rfl) hn
    · exact hlink
    · exact (htie (.inr rfl) hn).trans hlink
  refine ⟨h.symm, h.ne, ?chained, ?together⟩
  case chained =>
    intro id g' u v hg' hu hv
    by_cases hid : id = k
    · subst hid
      obtain rfl := Option.some.inj (hgk.symm.trans hg')
      exact (hall hu).trans (chain_symm h.symm (hall hv))
    · rw [hrel.others id hid] at hg'
      split at hg'
      · cases hg'
      · exact chain_mono hrel.grows (fun _ hn => hn) (h.chained hg' hu hv)
  case together =>
    intro u v huv
    obtain ⟨id, g, hg, hu, hv⟩ := h.together huv
    by_cases hor : id = a.groupOf name ∨ id = a.groupOf cause
    · -- one of the two groups is in the united one
      have hin : ∀ {i}, i ∈ g.members → i ∈ gk.members := by
        intro i hi
        obtain ⟨o, ho, rfl⟩ := hgrouped.group_eq hg hi
        exact (hmem i).2 ⟨o, ho, .inr (.inr ⟨hgrouped.ne_zero hg, hor⟩)⟩
      exact ⟨k, gk, hgk, hin hu, hin hv⟩
    · have hid : id ≠ k := by
        rintro rfl
        rcases hrel.origin with hnew | hk
        · rw [hnew] at hg
          cases hg
        · exact hor hk
      exact ⟨id, g, by rw [hrel.others id hid, if_neg hor]; exact hg, hu, hv⟩

/-- A cause that becomes a competitor ties two groups together. -/
theorem Tied.blame (h : a.Tied B) (hcons : a.Consistent) (hname : a.tasks.contains name = true)
    (hcause : a.tasks.contains cause = true) (hne : cause ≠ name) :
    (a.blame name cause).Tied B := by
  obtain ⟨r, hr⟩ := OrderedMap.contains_iff.1 hname
  obtain ⟨s, hs⟩ := OrderedMap.contains_iff.1 hcause
  have hr' : (a.compete name cause).tasks.get? name =
      some { r with competitors := r.competitors.insert cause } := by
    rw [get?_compete, hr, Option.map_some, if_pos rfl]
  have hs' : (a.compete name cause).tasks.get? cause = some s := by
    rw [get?_compete, hs, Option.map_some, if_neg hne]
  have hlink : (a.compete name cause).Competes name cause :=
    ⟨hne.symm, _, _, hr', hs', .inl (OrderedSet.mem_insert.2 (.inl rfl))⟩
  have hcompete : (a.compete name cause).Tied B :=
    h.congr (fun _ => rfl) (grows_compete a name cause)
  have hgrouped := (hcons.toPlaced.compete name cause).toGrouped
  obtain ⟨k, hrel⟩ := relate_spec hgrouped hr' hs'
  -- at last the threshold is raised, which moves no member
  exact (hcompete.relation hgrouped hrel hlink).congr
    (fun id => Groups.get?_raiseThreshold _ _ _ id) fun n o ho => ⟨o, ho, fun _ hc => hc⟩

/-! ### A task that leaves -/

/-- Other tasks go on competing when a task has gone. -/
theorem Departure.competes {dissolved : Bool} (hdep : Departure a b name r dissolved)
    (hu : u ≠ name) (hv : v ≠ name) (h : a.Competes u v) : b.Competes u v := by
  obtain ⟨hne, o, p, ho, hp, hcomp⟩ := h
  refine ⟨hne, _, _, by rw [hdep.tasks u hu, ho, Option.map_some],
    by rw [hdep.tasks v hv, hp, Option.map_some], ?_⟩
  exact hcomp.imp (fun hc => OrderedSet.mem_erase.2 ⟨hc, hv⟩)
    fun hc => OrderedSet.mem_erase.2 ⟨hc, hu⟩

/-- Other tasks stay next to each other. -/
theorem Tied.adjacent_of_departure (h : a.Tied B) {dissolved : Bool}
    (hdep : Departure a b name r dissolved) (hu : u ≠ name) (hv : v ≠ name)
    (hadj : a.Adjacent B u v) : b.Adjacent (a.bridge B name) u v :=
  hadj.imp (hdep.competes hu hv) fun hB => ⟨h.ne hB, hu, hv, .inl hB⟩

/-- A chain that leads through a task goes over a bridge when the task has gone; a chain that ends
at the task ends at a neighbour. -/
theorem Tied.chain_of_departure (h : a.Tied B) {dissolved : Bool}
    (hdep : Departure a b name r dissolved) {g' : Group}
    (hmem : ∀ n, n ∈ g'.members ↔ n ∈ g.members ∧ n ≠ name) (hu : u ≠ name)
    (hchain : Relation.ReflTransGen (a.Step B g) u v) :
    if v = name then ∃ p ∈ g'.members, a.Adjacent B p name ∧
        Relation.ReflTransGen (b.Step (a.bridge B name) g') u p
      else Relation.ReflTransGen (b.Step (a.bridge B name) g') u v := by
  induction hchain with
  | refl => rw [if_neg hu]
  | @tail w z _ hstep ih =>
    obtain ⟨hw, hz, hadj⟩ := hstep
    by_cases hwname : w = name
    · subst hwname
      rw [if_pos rfl] at ih
      obtain ⟨p, hp, hpadj, hchain⟩ := ih
      have hpw := ((hmem p).1 hp).2
      split
      · exact ⟨p, hp, hpadj, hchain⟩
      · rename_i hzname
        have hz' := (hmem z).2 ⟨hz, hzname⟩
        -- both ends of the bridge may be the same
        by_cases hpz : p = z
        · exact hpz ▸ hchain
        · exact hchain.tail ⟨hp, hz',
            .inr ⟨hpz, hpw, hzname, .inr ⟨hpadj, h.adjacent_symm hadj⟩⟩⟩
    · rw [if_neg hwname] at ih
      have hw' := (hmem w).2 ⟨hw, hwname⟩
      split
      · rename_i hzname
        exact ⟨w, hw', hzname ▸ hadj, ih⟩
      · rename_i hzname
        exact ih.tail ⟨hw', (hmem z).2 ⟨hz, hzname⟩,
          h.adjacent_of_departure hdep hwname hzname hadj⟩

/-- Two other tasks stay together: a group is dissolved only if no two tasks are left. -/
theorem Departure.together {dissolved : Bool} (hdep : Departure a b name r dissolved)
    (hgrouped : a.Grouped) (hgrouped' : b.Grouped) (hne : u ≠ v) (hu : u ≠ name) (hv : v ≠ name)
    (h : a.Together u v) : b.Together u v := by
  obtain ⟨o, p, ho, hp, hpg, h0⟩ := hgrouped.together_iff.1 h
  rw [hgrouped'.together_iff]
  refine ⟨_, _, by rw [hdep.tasks u hu, ho, Option.map_some],
    by rw [hdep.tasks v hv, hp, Option.map_some], ?_⟩
  have hgoes : ¬ (dissolved && decide (o.group = r.group)) = true := by
    intro hgone
    simp only [Bool.and_eq_true, decide_eq_true_eq] at hgone
    exact hne (hdep.lonely hgone.1 ho hp hu hv hgone.2 (hpg.trans hgone.2))
  simp only [hpg, if_neg hgoes, true_and]
  exact h0

/-- When a task leaves, its neighbours are next to each other. -/
theorem Tied.departure (h : a.Tied B) (hcons : a.Consistent) (hcons' : b.Consistent)
    {dissolved : Bool} (hr : a.tasks.get? name = some r)
    (hdep : Departure a b name r dissolved) : b.Tied (a.bridge B name) where
  symm := fun ⟨hne, hu, hv, hor⟩ => ⟨hne.symm, hv, hu, hor.imp h.symm And.symm⟩
  ne := fun huv => huv.1
  chained := fun {id g' u v} hg' hu hv => by
    obtain ⟨g, hg, hm⟩ := hdep.get?_group hg'
    have hmem : ∀ n, n ∈ g'.members ↔ n ∈ g.members ∧ n ≠ name := by
      intro n
      rcases hm with ⟨-, -, hm⟩ | ⟨hid, hm⟩
      · rw [hm, OrderedSet.mem_erase]
      · rw [hm]
        refine (and_iff_left_of_imp ?_).symm
        rintro hn rfl
        exact hid ((hcons.mem_iff hg hr).1 hn).symm
    obtain ⟨hu, huname⟩ := (hmem u).1 hu
    obtain ⟨hv, hvname⟩ := (hmem v).1 hv
    have hchain := h.chain_of_departure hdep hmem huname (h.chained hg hu hv)
    rwa [if_neg hvname] at hchain
  together := fun ⟨hne, hu, hv, hor⟩ => by
    refine hdep.together hcons.toGrouped hcons'.toGrouped hne hu hv ?_
    have hadj : ∀ {x y}, a.Adjacent B x y → a.Together x y :=
      fun hadj => hadj.elim hcons.together_of_competes h.together
    rcases hor with hB | ⟨hu, hv⟩
    · exact h.together hB
    · exact hcons.together_trans (hadj hu) (hadj hv).symm


/-! ### All histories -/

/-- An arbiter without tasks has neither groups nor bridges. -/
theorem tied_empty (cores : Nat) : Tied { cores } (bridges []) where
  symm := False.elim
  ne := False.elim
  chained := fun hg => by cases hg
  together := False.elim

/-- Only the end of a task makes a group fall apart. -/
theorem stable_tied (B : String → String → Prop) : Stable fun a => a.Consistent ∧ a.Tied B where
  kept := fun hk ⟨hcons, h⟩ => ⟨hcons.kept hk, h.congr (fun id => by rw [hk.groups]) hk.grows⟩
  add := fun {a core t} hcore hin ⟨hcons, h⟩ => by
    have hadd := add_of_new hcore hin
    refine ⟨hcons.add hcore hin, h.congr (fun id => by rw [hadd]) fun n r hr => ?_⟩
    refine ⟨r, ?_, fun _ hc => hc⟩
    rw [hadd, OrderedMap.get?_insert, if_neg, hr]
    rintro rfl
    rw [OrderedMap.contains_eq_false_iff.1 hin] at hr
    cases hr
  blame := fun hname hcause hne ⟨hcons, h⟩ =>
    ⟨hcons.blame hname hcause hne, h.blame hcons hname hcause hne⟩

theorem bridges_concat (es : List Examination) (e : Examination) :
    bridges (es ++ [e]) =
      if e.finding.ends.isSome then e.arbiter.bridge (bridges es) e.task else bridges es := by
  rw [bridges, List.foldl_append]
  rfl

/-- An examination that ends a task leaves bridges. -/
theorem Tied.examine {es : List Examination} (hcons : a.Consistent) (h : a.Tied (bridges es))
    (hr : a.tasks.get? name = some r) (s : Snapshot) :
    (a.examine name s).Tied (bridges (es ++ [⟨a, name, r, s⟩])) := by
  have hk := kept_observeOthers a name s
  obtain ⟨hcons', h'⟩ := (stable_tied (bridges es)).kept hk ⟨hcons, h⟩
  rw [examine_of_some hr, bridges_concat]
  show Tied _ (if (Finding.of name r s).ends.isSome then a.bridge (bridges es) name else bridges es)
  cases hf : (Finding.of name r s).ends with
  | none =>
    exact ((stable_tied (bridges es)).conclusions ⟨hcons', h'⟩ name r s hf).2
  | some cause =>
    obtain ⟨r', hr', -⟩ := hk.get?_of_get? hr
    have hleft := hcons'.leave hr' ⟨r.newest.id, cause⟩
    obtain ⟨dissolved, hdep⟩ := leaveGroup_spec hcons'.toGrouped name r' ⟨r.newest.id, cause⟩
    have htied := h'.departure hcons' hleft hr' hdep
    rw [conclusions_of_ends _ name r s hf, Option.isSome_some, if_pos rfl, ← hk.bridge_eq]
    exact ((stable_tied _).kept (kept_remove hr' _ cause) ⟨hleft, htied⟩).2

/-- After every history of requests, any two members of a group are connected by a chain of members
each of which competes with the next one, or stood next to a task that the next one stood next to as
well when that task ended.  And two tasks of which this can be said are in one group. -/
theorem groups_are_components (cores : Nat) (rs : List Request) :
    (∀ {id g u v}, (run { cores } rs).groups.get? id = some g → u ∈ g.members → v ∈ g.members →
      Relation.ReflTransGen ((run { cores } rs).Step (bridges (history { cores } rs)) g) u v) ∧
    ∀ {u v}, (run { cores } rs).Adjacent (bridges (history { cores } rs)) u v →
      (run { cores } rs).Together u v := by
  obtain ⟨hcons, htied⟩ := history_rec rs
    (motive := fun es b => b.Consistent ∧ b.Tied (bridges es))
    (fun q _ hq {es b} hb => (stable_tied (bridges es)).perform hb hq)
    (fun hr ⟨hcons, h⟩ => ⟨invariant_consistent.examine hcons _ _, h.examine hcons hr _⟩)
    ⟨consistent_empty cores, tied_empty cores⟩
  exact ⟨htied.chained, fun hadj => hadj.elim hcons.together_of_competes htied.together⟩

/-! Two tasks that miss their deadlines because of a third one on another core, which then ends. -/

/-- A late job of `a` and of `b`, and the job of `x` that made them late. -/
def blamed : List JobRecord :=
  [{ id := 1, task := "a", core := 0, arrival := 1000, exit := 0, execution := 0 },
    { id := 2, task := "b", core := 0, arrival := 1000, exit := 0, execution := 0 },
    { id := 3, task := "x", core := 1, arrival := 500, exit := 5000, execution := 0 }]

/-- The two late jobs are judged at first, then the last job of `x`, and then `x` has finished. -/
def ending : List Request :=
  [.setGoal { goal := .fairness },
    .add 0 { name := "a", deadline := 10000, interArrival := 10000 },
    .add 0 { name := "b", deadline := 10000, interArrival := 10000 },
    .add 1 { name := "x", deadline := 20000, interArrival := 20000 },
    .poll { now := 12000, jobs := blamed, terminated := [] },
    .poll { now := 20900, jobs := blamed, terminated := [] },
    .lastJobStarted "x",
    .poll { now := 40600, jobs := blamed, terminated := [] }]

/-- The arbiter after these requests. -/
def orphaned : Arbiter := run { cores := 2 } ending

/-- Nobody competes any more. -/
private theorem not_competes_orphaned (u v : String) : ¬ orphaned.Competes u v := by
  have hnone : ∀ e ∈ orphaned.tasks.entries, e.2.competitors.elems = [] := by decide +kernel
  have hempty : ∀ {n : String} {r : Record}, orphaned.tasks.get? n = some r →
      ∀ c, c ∉ r.competitors := by
    intro n r hr c hc
    have hr := hnone _ (OrderedMap.mem_entries_of_get? hr)
    rw [OrderedSet.mem_iff, hr] at hc
    cases hc
  rintro ⟨-, r, o, hr, ho, hcomp⟩
  exact hcomp.elim (hempty hr v) (hempty ho u)

/-- Competition alone does not hold groups together: `a` and `b` stay in one group when `x` has
ended. -/
theorem group_without_competitors :
    ¬ ∀ (cores : Nat) (rs : List Request) (id : Nat) (g : Group) (u v : String),
      (run { cores } rs).groups.get? id = some g → u ∈ g.members → v ∈ g.members →
      Relation.ReflTransGen
        (fun x y => x ∈ g.members ∧ y ∈ g.members ∧ (run { cores } rs).Competes x y) u v := by
  intro h
  have hg : orphaned.groups.get? 1 =
      some ((orphaned.groups.get? 1).get (by decide +kernel)) := (Option.some_get _).symm
  have hchain := h 2 ending 1 _ "a" "b" hg (by decide +kernel) (by decide +kernel)
  rcases hchain.cases_head with heq | ⟨v, ⟨-, -, hcomp⟩, -⟩
  · revert heq
    decide
  · exact not_competes_orphaned _ _ hcomp

end RealTime.Arbiter
