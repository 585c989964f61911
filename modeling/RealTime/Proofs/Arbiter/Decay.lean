import RealTime.Proofs.Arbiter.Denials
import RealTime.Proofs.Arbiter.Fairness

/-! # Decay of debts

When all members of a group on a core owe the threshold, it is taken off their debts on that core.
Each of them has at least that much, so all of them lose the same amount; members on other cores
lose nothing on their own.  A task is compared with its competitors on its own core only, and these
are of its group, so what is compared is either not changed or lowered by the same amount on both
sides: no decision turns out differently.

* `get?_settle`, `settle_eq_self`   when debts decay, and what is written then
* `Ripe.decayed`                    who loses how much
* `Decayed.exists_relief`           a task and all that it faces lose the same amount
* `ruled_arbitrate`                 a decision depends on who faces whom and on the successor
* `settle_arbitrate`                decay and decisions after every history of requests -/

namespace RealTime

/-- Taking an amount off the debt on a core. -/
theorem Record.debtOn_sub (r : Record) (core amount other : Nat) :
    (r.modifyDebt core (· - amount)).debtOn other =
      if other = core then r.debtOn other - amount else r.debtOn other := by
  simp only [modifyDebt, debtOn, List.getElem?_modify]
  cases r.debts[other]? with
  | none => simp
  | some d => by_cases heq : core = other <;> simp [heq, eq_comm]

/-- A record but for its permission. -/
def Record.situation (r : Record) : Record := { r with allowed := true }

theorem Record.eq_of_situation {r r' : Record} (h : r'.situation = r.situation)
    (hallowed : r'.allowed = r.allowed) : r' = r :=
  calc r' = { r'.situation with allowed := r'.allowed } := rfl
    _ = { r.situation with allowed := r.allowed } := by rw [h, hallowed]
    _ = r := rfl

namespace Arbiter

variable {a b : Arbiter} {x y z w n : String} {r o : Record} {g : Group} {core : Nat}

/-! ### When debts decay -/

/-- The debts of the group `g` of the task `x`, with the record `r`, are due to decay: all members
on its core owe the threshold. -/
structure Ripe (a : Arbiter) (x : String) (r : Record) (g : Group) : Prop where
  record : a.tasks.get? x = some r
  group : a.groups.get? r.group = some g
  pos : 0 < g.threshold
  owed : ∀ {m o}, m ∈ g.members → a.tasks.get? m = some o → o.core = r.core →
    g.threshold ≤ o.debt

/-- A change of the records of several tasks. -/
theorem get?_foldl_modify {l : List String} (hl : l.Nodup) (a : Arbiter) (f : Record → Record)
    (n : String) :
    (l.foldl (fun a m => a.modify m f) a).tasks.get? n =
      (a.tasks.get? n).map fun o => if n ∈ l then f o else o := by
  induction l generalizing a with
  | nil => simp
  | cons m l ih =>
    obtain ⟨hm, hl⟩ := List.nodup_cons.1 hl
    rw [List.foldl_cons, ih hl, get?_modify]
    by_cases hnm : n = m
    · subst hnm
      rw [if_pos rfl, Option.map_map]
      congr 1
      funext o
      simp [hm]
    · simp [hnm]

theorem rest_foldl_modify (l : List String) (a : Arbiter) (f : Record → Record)
    (tasks : OrderedMap String Record) :
    { l.foldl (fun a m => a.modify m f) a with tasks } = { a with tasks } := by
  induction l generalizing a with
  | nil => rfl
  | cons m l ih =>
    rw [List.foldl_cons, ih]
    rfl

/-- Debts decay if they are due to. -/
theorem Ripe.settle_eq (h : a.Ripe x r g) (hgrouped : a.Grouped) :
    a.settle x = g.members.elems.foldl
      (fun a m => a.modify m (·.modifyDebt r.core (· - g.threshold))) a := by
  have hx : x ∈ g.members := (hgrouped.mem_iff h.group h.record).2 rfl
  have hown : g.threshold ≤ r.debtOn r.core := h.owed hx h.record rfl
  have hpos := h.pos
  simp only [settle, h.record, h.group]
  refine if_neg ?_
  simp only [Bool.or_eq_true, decide_eq_true_eq, Bool.not_eq_true', not_or, Bool.not_eq_false,
    List.all_eq_true]
  refine ⟨⟨by omega, by omega⟩, fun m hm => ?_⟩
  cases ho : a.tasks.get? m with
  | none => rfl
  | some o =>
    by_cases hcore : o.core = r.core
    · have howed := h.owed hm ho hcore
      rw [Record.debt, hcore] at howed
      simp [howed]
    · simp [hcore]

/-- Otherwise nothing happens. -/
theorem settle_eq_self (h : ∀ r g, ¬ a.Ripe x r g) : a.settle x = a := by
  simp only [settle]
  split
  · rfl
  · rename_i r hr
    split
    · rfl
    · rename_i g hg
      -- were the condition false, the debts would be due to decay
      refine if_pos (Decidable.byContradiction fun hnot => ?_)
      simp only [Bool.or_eq_true, decide_eq_true_eq, Bool.not_eq_true', not_or,
        Bool.not_eq_false, List.all_eq_true] at hnot
      obtain ⟨⟨hpos, -⟩, hall⟩ := hnot
      refine h r g ⟨hr, hg, Nat.pos_of_ne_zero hpos, fun {m o} hm ho hcore => ?_⟩
      have howes := hall m hm
      simpa [ho, hcore, Record.debt] using howes

/-- What is written when debts decay. -/
theorem Ripe.get?_settle (h : a.Ripe x r g) (hgrouped : a.Grouped) (n : String) :
    (a.settle x).tasks.get? n = (a.tasks.get? n).map fun o =>
      if n ∈ g.members then o.modifyDebt r.core (· - g.threshold) else o := by
  rw [h.settle_eq hgrouped]
  exact get?_foldl_modify g.members.nodup_elems a _ n

/-- Debts are all that decays. -/
theorem rest_settle (a : Arbiter) (x : String) : { a.settle x with tasks := a.tasks } = a := by
  simp only [settle]
  split
  · rfl
  · split
    · rfl
    · split
      · rfl
      · exact rest_foldl_modify _ a _ a.tasks

/-! ### What decays -/

/-- The members of a group have paid its threshold on a core. -/
structure Decayed (a b : Arbiter) (core : Nat) (g : Group) : Prop where
  rest : { b with tasks := a.tasks } = a
  /-- Nothing but debts on the core changes. -/
  member : ∀ {m o}, m ∈ g.members → a.tasks.get? m = some o →
    ∃ o', b.tasks.get? m = some o' ∧ { o' with debts := o.debts } = o ∧
      (o.core = core → o'.debt + g.threshold = o.debt) ∧
      ∀ c, c ≠ core → o'.debtOn c = o.debtOn c
  others : ∀ {n}, n ∉ g.members → b.tasks.get? n = a.tasks.get? n

/-- All members on the core lose the whole threshold, for nobody owes less. -/
theorem Ripe.decayed (h : a.Ripe x r g) (hgrouped : a.Grouped) :
    Decayed a (a.settle x) r.core g where
  rest := rest_settle a x
  member := fun {m o} hm ho => by
    have hget : (a.settle x).tasks.get? m = some (o.modifyDebt r.core (· - g.threshold)) := by
      rw [h.get?_settle hgrouped, ho, Option.map_some, if_pos hm]
    refine ⟨_, hget, rfl, fun hcore => ?_, fun c hc => ?_⟩
    · have howed := h.owed hm ho hcore
      show (o.modifyDebt r.core (· - g.threshold)).debtOn o.core + _ = _
      rw [Record.debtOn_sub, if_pos hcore]
      exact Nat.sub_add_cancel howed
    · rw [Record.debtOn_sub, if_neg hc]
  others := fun {n} hn => by
    rw [h.get?_settle hgrouped]
    simp [hn]

/-- A task and all that it faces are on one core and in one group. -/
theorem Consistent.of_contends (hcons : a.Consistent) (hr : a.tasks.get? y = some r)
    (hz : a.Contends y z) : ∃ o, a.tasks.get? z = some o ∧ o.core = r.core ∧ o.group = r.group := by
  cases hz with
  | inl heq => exact ⟨r, heq ▸ hr, rfl, rfl⟩
  | inr hfaces =>
    obtain ⟨r', o, hr', ho, hcore, hcomp⟩ := hfaces
    obtain rfl := Option.some.inj (hr.symm.trans hr')
    obtain ⟨-, s, hs, hgroup, -⟩ := hcons.competitor hr hcomp
    obtain rfl := Option.some.inj (ho.symm.trans hs)
    exact ⟨o, ho, hcore, hgroup⟩

/-- What a member of the group loses on its own core. -/
theorem Decayed.debtOf (h : Decayed a b core g) (hn : n ∈ g.members)
    (ho : a.tasks.get? n = some o) :
    (o.core = core → b.debtOf n + g.threshold = a.debtOf n) ∧
      (o.core ≠ core → b.debtOf n = a.debtOf n) := by
  obtain ⟨o', ho', hrest, hhere, helsewhere⟩ := h.member hn ho
  rw [debtOf_eq ho, debtOf_eq ho']
  refine ⟨hhere, fun hne => ?_⟩
  have hcore : o'.core = o.core := by rw [← hrest]
  rw [Record.debt, hcore]
  exact helsewhere o.core hne

/-- Who is not in the group keeps its debts. -/
theorem Decayed.debtOf_of_not_mem (h : Decayed a b core g) (hn : n ∉ g.members) :
    b.debtOf n = a.debtOf n := by
  simp only [Arbiter.debtOf, h.others hn]

/-- A task and all that it faces lose the same amount on their own core. -/
theorem Decayed.exists_relief (h : Decayed a b core g) (hcons : a.Consistent) {id : Nat}
    (hg : a.groups.get? id = some g) (y : String) :
    ∃ d, ∀ z, a.Contends y z → b.debtOf z + d = a.debtOf z := by
  cases hr : a.tasks.get? y with
  | none =>
    -- a task that is not supervised has no debts and faces nobody
    have hy : y ∉ g.members := fun hmem => by
      obtain ⟨r, hr', -⟩ := hcons.group_eq hg hmem
      rw [hr] at hr'
      cases hr'
    refine ⟨0, fun z hz => ?_⟩
    cases hz with
    | inl heq => rw [heq, h.debtOf_of_not_mem hy, Nat.add_zero]
    | inr hfaces =>
      obtain ⟨r, -, hr', -⟩ := hfaces
      rw [hr] at hr'
      cases hr'
  | some r =>
    by_cases hhere : r.group = id ∧ r.core = core
    · refine ⟨g.threshold, fun z hz => ?_⟩
      obtain ⟨o, ho, hcore, hgroup⟩ := hcons.of_contends hr hz
      have hmem := (hcons.mem_iff hg ho).2 (hgroup.trans hhere.1)
      exact (h.debtOf hmem ho).1 (hcore.trans hhere.2)
    · refine ⟨0, fun z hz => ?_⟩
      obtain ⟨o, ho, hcore, hgroup⟩ := hcons.of_contends hr hz
      rw [Nat.add_zero]
      by_cases hmem : z ∈ g.members
      · have hid := hgroup.symm.trans ((hcons.mem_iff hg ho).1 hmem)
        exact (h.debtOf hmem ho).2 fun heq => hhere ⟨hid, hcore.symm.trans heq⟩
      · exact h.debtOf_of_not_mem hmem

/-- Whether or not debts decay. -/
theorem exists_relief_settle (hcons : a.Consistent) (x y : String) :
    ∃ d, ∀ z, a.Contends y z → (a.settle x).debtOf z + d = a.debtOf z := by
  by_cases hripe : ∃ r g, a.Ripe x r g
  · obtain ⟨r, g, hripe⟩ := hripe
    exact (hripe.decayed hcons.toGrouped).exists_relief hcons hripe.group y
  · refine ⟨0, fun z _ => ?_⟩
    rw [settle_eq_self fun r g h => hripe ⟨r, g, h⟩, Nat.add_zero]

/-! ### What is decided -/

/-- A task gets the permission by the decision about `x`. -/
def Gains (a : Arbiter) (x n : String) : Prop :=
  match a.successor? x with
  | some w => n = w
  | none => n = x ∧ ((∃ y, a.Faces x y) ∨ ¬ ∃ z, a.Faces z x)

/-- A task loses the permission by the decision about `x`. -/
def Loses (a : Arbiter) (x n : String) : Prop :=
  match a.successor? x with
  | some _ => n = x
  | none => a.Faces x n

/-- A decision depends on who faces whom and on the successor. -/
theorem ruled_arbitrate (hactive : a.config.goal.isActive = true) (hself : ¬ a.Faces x x)
    (hr : a.tasks.get? x = some r) : Ruled a (a.arbitrate x) (a.Gains x) (a.Loses x) := by
  unfold Gains Loses
  cases hsucc : a.successor? x with
  | some w => exact ruled_of_passes hself hsucc
  | none =>
    by_cases hfaces : ∃ y, a.Faces x y
    · have hruled := ruled_of_keeps hactive hself hfaces hsucc
      simpa only [hfaces, true_or, and_true] using hruled
    · have hnone : ∀ y, ¬ a.Faces x y := fun y hy => hfaces ⟨y, hy⟩
      obtain ⟨hclaimed, hfree⟩ := ruled_of_unopposed hactive hself hr hnone
      simp only [hnone, exists_false, false_or]
      by_cases hz : ∃ z, a.Faces z x
      · rw [hclaimed hz]
        exact ⟨rfl, fun h => absurd hz h.2, False.elim, fun _ _ => rfl⟩
      · simpa only [hz, not_false_eq_true, and_true] using hfree hz

/-- Who faces whom depends on cores and competitors only. -/
theorem faces_congr (hagree : ∀ n, Agree Record.stance n a b) : b.Faces x y ↔ a.Faces x y := by
  constructor
  · intro ⟨r', o', hr', ho', hcore, hcomp⟩
    obtain ⟨r, hr, hrr'⟩ := (hagree x).get? hr'
    obtain ⟨o, ho, hoo'⟩ := (hagree y).get? ho'
    obtain ⟨hrcore, hrcomp⟩ := Prod.mk.inj hrr'
    obtain ⟨hocore, -⟩ := Prod.mk.inj hoo'
    exact ⟨r, o, hr, ho, by rw [← hocore, ← hrcore, hcore], hrcomp ▸ hcomp⟩
  · intro ⟨r, o, hr, ho, hcore, hcomp⟩
    obtain ⟨r', hr', hrr'⟩ := (hagree x).get?_of_get? hr
    obtain ⟨o', ho', hoo'⟩ := (hagree y).get?_of_get? ho
    obtain ⟨hrcore, hrcomp⟩ := Prod.mk.inj hrr'
    obtain ⟨hocore, -⟩ := Prod.mk.inj hoo'
    exact ⟨r', o', hr', ho', by rw [hocore, hrcore, hcore], hrcomp ▸ hcomp⟩

/-- If a task and all that it faces have lost the same amount, its successor is the same: each
comparison has the same outcome. -/
theorem successor?_congr {d : Nat} (hgoal : a.config.goal = .fairness)
    (hconfig : b.config = a.config) (hfaces : ∀ {y z}, b.Faces y z ↔ a.Faces y z)
    (hr : a.tasks.get? x = some r) (hr' : b.tasks.get? x = some o)
    (hrelief : ∀ z, a.Contends x z → b.debtOf z + d = a.debtOf z) :
    b.successor? x = a.successor? x := by
  have hgoal' : b.config.goal = .fairness := by rw [hconfig, hgoal]
  have hx := hrelief x (.inl rfl)
  cases hsucc : a.successor? x with
  | none =>
    rw [successor?_eq_none hgoal' hr', hconfig]
    intro y hy
    have hy' := hfaces.1 hy
    have hle := (successor?_eq_none hgoal hr).1 hsucc y hy'
    have := hrelief y (.inr hy')
    omega
  | some w =>
    have hleads := leads_of_successor? hgoal hsucc
    cases hsucc' : b.successor? x with
    | none =>
      -- the task would keep the permission in spite of `w`
      have hnone : a.successor? x = none := by
        rw [successor?_eq_none hgoal hr]
        intro y hy
        have hle := (successor?_eq_none hgoal' hr').1 hsucc' y (hfaces.2 hy)
        rw [hconfig] at hle
        have := hrelief y (.inr hy)
        omega
      rw [hsucc] at hnone
      cases hnone
    | some w' =>
      have hleads' := leads_of_successor? hgoal' hsucc'
      have hw' := hrelief w' (.inr (hfaces.1 hleads'.faces))
      have hsame : a.Leads x w' := by
        refine ⟨hfaces.1 hleads'.faces, fun {y} hy => ?_, fun {y} hy heq => ?_⟩
        · have hle := hleads'.debt_le (hfaces.2 hy)
          have := hrelief y (.inr hy)
          omega
        · have := hrelief y (.inr hy)
          exact hleads'.first (hfaces.2 hy) (by omega)
      rw [hsame.unique hleads]

/-! ### Decay and decisions -/

/-- The same ruling leads to the same permissions if they have been the same before. -/
theorem Ruled.allowed_eq {a' b' : Arbiter} {yes no : String → Prop} (h : Ruled a b yes no)
    (h' : Ruled a' b' yes no)
    (hallowed : (a'.tasks.get? n).map Record.allowed = (a.tasks.get? n).map Record.allowed) :
    (b'.tasks.get? n).map Record.allowed = (b.tasks.get? n).map Record.allowed := by
  have hconst : ∀ (v : Bool) (o : Option Record),
      (o.map fun r => { r with allowed := v }).map Record.allowed =
        (o.map Record.allowed).map fun _ => v := by
    intro v o
    cases o <;> rfl
  by_cases hyes : yes n
  · rw [h.permitted hyes, h'.permitted hyes, hconst, hconst, hallowed]
  · by_cases hno : no n
    · rw [h.denied hno, h'.denied hno, hconst, hconst, hallowed]
    · rw [h.untouched hyes hno, h'.untouched hyes hno, hallowed]

/-- A decision gives the same permissions before and after debts have decayed. -/
theorem allowed_arbitrate_settle (hcons : a.Consistent) (hgoal : a.config.goal = .fairness)
    (x y n : String) :
    (((a.settle x).arbitrate y).tasks.get? n).map Record.allowed =
      ((a.arbitrate y).tasks.get? n).map Record.allowed := by
  have hagree : ∀ {β : Type} {f : Record → β} (_ : ∀ r debts, f { r with debts } = f r)
      (m : String),
      Agree f m a (a.settle x) := fun hdebts m => agree_settle hdebts a x
  have hallowed := (hagree (f := Record.allowed) (fun _ _ => rfl) n).view
  cases hr : a.tasks.get? y with
  | none =>
    -- nothing is decided about a task that is not supervised
    have hr' : (a.settle x).tasks.get? y = none := by
      have hview := (hagree (f := fun _ => ()) (fun _ _ => rfl) y).view
      rw [hr] at hview
      exact Option.map_eq_none_iff.1 hview
    simpa only [arbitrate, hr, hr'] using hallowed
  | some r =>
    obtain ⟨r', hr', -⟩ := (hagree (f := Record.core) (fun _ _ => rfl) y).get?_of_get? hr
    have hconfig := (hagree (f := Record.core) (fun _ _ => rfl) y).config
    have hfaces : ∀ {z w}, (a.settle x).Faces z w ↔ a.Faces z w :=
      faces_congr fun m => hagree (fun _ _ => rfl) m
    obtain ⟨d, hrelief⟩ := exists_relief_settle hcons x y
    have hsucc := successor?_congr hgoal hconfig hfaces hr hr' hrelief
    have hself := hcons.not_faces_self y
    have hruled := ruled_arbitrate (by rw [hgoal]; rfl) hself hr
    have hruled' := ruled_arbitrate (by rw [hconfig, hgoal]; rfl) (fun h => hself (hfaces.1 h)) hr'
    have hgains : (a.settle x).Gains y = a.Gains y := by
      funext m
      simp only [Gains, hsucc, hfaces]
    have hloses : (a.settle x).Loses y = a.Loses y := by
      funext m
      simp only [Loses, hsucc, hfaces]
    rw [hgains, hloses] at hruled'
    exact hruled.allowed_eq hruled' hallowed

/-- Whether debts are due to decay does not depend on permissions. -/
theorem Ripe.congr (h : a.Ripe x r g) (hagree : ∀ m, Agree Record.situation m a b)
    (hgroups : b.groups = a.groups) : ∃ r', b.Ripe x r' g ∧ r'.core = r.core := by
  have hsame : ∀ {p p' : Record}, p'.situation = p.situation →
      p'.core = p.core ∧ p'.group = p.group ∧ p'.debt = p.debt := by
    intro p p' heq
    have hcore : p'.situation.core = p.situation.core := by rw [heq]
    have hgroup : p'.situation.group = p.situation.group := by rw [heq]
    have hdebt : p'.situation.debt = p.situation.debt := by rw [heq]
    exact ⟨hcore, hgroup, hdebt⟩
  obtain ⟨r', hr', heq⟩ := (hagree x).get?_of_get? h.record
  obtain ⟨hcore, hgroup, -⟩ := hsame heq
  refine ⟨r', ⟨hr', by rw [hgroups, hgroup]; exact h.group, h.pos, fun {m o'} hm ho' hoc => ?_⟩,
    hcore⟩
  obtain ⟨o, ho, hoo'⟩ := (hagree m).get? ho'
  obtain ⟨hocore, -, hodebt⟩ := hsame hoo'
  rw [hodebt]
  exact h.owed hm ho (by rw [← hocore, hoc, hcore])

/-- Debts decay in the same way before and after a decision. -/
theorem situation_settle_arbitrate (hcons : a.Consistent) (x y n : String) :
    (((a.arbitrate y).settle x).tasks.get? n).map Record.situation =
      ((a.settle x).tasks.get? n).map Record.situation := by
  have hagree : ∀ m, Agree Record.situation m a (a.arbitrate y) :=
    fun m => agree_arbitrate (fun _ _ => rfl) a y
  have hkept := kept_arbitrate a y
  by_cases hripe : ∃ r g, a.Ripe x r g
  · obtain ⟨r, g, hripe⟩ := hripe
    obtain ⟨r', hripe', hcore⟩ := hripe.congr hagree hkept.groups
    have hpay : ∀ o : Option Record,
        (o.map fun o => if n ∈ g.members then o.modifyDebt r.core (· - g.threshold) else o).map
          Record.situation =
        (o.map Record.situation).map fun o =>
          if n ∈ g.members then o.modifyDebt r.core (· - g.threshold) else o := by
      intro o
      cases o with
      | none => rfl
      | some o => by_cases hn : n ∈ g.members <;> simp [hn, Record.situation, Record.modifyDebt]
    rw [hripe.get?_settle hcons.toGrouped, hripe'.get?_settle (hcons.kept hkept).toGrouped, hcore,
      hpay, hpay, (hagree n).view]
  · have hnot : ∀ r g, ¬ a.Ripe x r g := fun r g h => hripe ⟨r, g, h⟩
    have hnot' : ∀ r g, ¬ (a.arbitrate y).Ripe x r g := by
      intro r g h
      obtain ⟨r', h', -⟩ := h.congr (b := a)
        (fun m => ⟨(hagree m).config.symm, (hagree m).cores.symm, (hagree m).view.symm⟩)
        hkept.groups.symm
      exact hnot r' g h'
    rw [settle_eq_self hnot, settle_eq_self hnot']
    exact (hagree n).view

/-- A decision and the decay of debts may change places. -/
theorem get?_arbitrate_settle (hcons : a.Consistent) (hgoal : a.config.goal = .fairness)
    (x y n : String) :
    ((a.settle x).arbitrate y).tasks.get? n = ((a.arbitrate y).settle x).tasks.get? n := by
  have hsituation : (((a.settle x).arbitrate y).tasks.get? n).map Record.situation =
      (((a.arbitrate y).settle x).tasks.get? n).map Record.situation := by
    rw [situation_settle_arbitrate hcons,
      (agree_arbitrate (fun _ _ => rfl) (a.settle x) y).view]
  have hallowed : (((a.settle x).arbitrate y).tasks.get? n).map Record.allowed =
      (((a.arbitrate y).settle x).tasks.get? n).map Record.allowed := by
    rw [allowed_arbitrate_settle hcons hgoal,
      (agree_settle (fun _ _ => rfl) (a.arbitrate y) x).view]
  generalize ((a.settle x).arbitrate y).tasks.get? n = o at *
  generalize ((a.arbitrate y).settle x).tasks.get? n = o' at *
  cases o with
  | none => exact (Option.map_eq_none_iff.1 hsituation.symm).symm
  | some r =>
    obtain ⟨r', rfl, heq⟩ := Option.map_eq_some_iff.1 hsituation.symm
    exact congrArg some (Record.eq_of_situation heq.symm (Option.some.inj hallowed))

/-- What is answered about a task depends on its permission and on the history. -/
theorem isAllowed_congr (hended : b.ended = a.ended)
    (hallowed : (b.tasks.get? n).map Record.allowed = (a.tasks.get? n).map Record.allowed) :
    b.isAllowed n = a.isAllowed n := by
  simp only [isAllowed, notTracked, hended]
  generalize a.tasks.get? n = o at *
  generalize b.tasks.get? n = o' at *
  cases o with
  | none => rw [Option.map_eq_none_iff.1 hallowed]
  | some r =>
    obtain ⟨r', rfl, heq⟩ := Option.map_eq_some_iff.1 hallowed
    simp only [heq]

/-- After every history of requests, under fairness, the decay of debts changes no decision: the
permissions after a decision about `y` are the same whether the debts of the group of `x` have had
the chance to decay before it or have it afterwards, and so is all else.

If the debts decay, all members of the group on the core of `x` lose exactly the threshold there,
those on other cores lose nothing on their own, and who is not in the group loses nothing at all.
They decay if all members on the core owe the threshold, and otherwise nothing changes. -/
theorem settle_arbitrate {cores : Nat} {rs : List Request}
    (hgoal : (run { cores } rs).config.goal = .fairness) (x y : String) :
    let a := run { cores } rs
    (∀ n, ((a.settle x).arbitrate y).isAllowed n = (a.arbitrate y).isAllowed n ∧
      ((a.settle x).arbitrate y).tasks.get? n = ((a.arbitrate y).settle x).tasks.get? n) ∧
    (∀ r g, a.Ripe x r g →
      Decayed a (a.settle x) r.core g ∧
        ∀ n o, a.tasks.get? n = some o → (n ∈ g.members ↔ o.group = r.group)) ∧
    ((∀ r g, ¬ a.Ripe x r g) → a.settle x = a) := by
  intro a
  have hcons : a.Consistent := run_consistent cores rs
  refine ⟨fun n => ⟨?_, get?_arbitrate_settle hcons hgoal x y n⟩, fun r g hripe => ?_,
    settle_eq_self⟩
  · have hended : ((a.settle x).arbitrate y).ended = (a.arbitrate y).ended := by
      rw [(kept_arbitrate _ y).ended, (kept_settle a x).ended, (kept_arbitrate a y).ended]
    exact isAllowed_congr hended (allowed_arbitrate_settle hcons hgoal x y n)
  · exact ⟨hripe.decayed hcons.toGrouped, fun n o => hcons.mem_iff hripe.group⟩

/-! Two tasks that owe the threshold wait for a third one, until that moves to another core. -/

/-- A job that makes no other task late. -/
def endless (id arrival : Nat) : JobRecord :=
  { id, task := "a", core := 0, arrival, exit := 0, execution := 0 }

/-- The jobs of `b` and `c` on whose account `a` is late. -/
def hindrances : List JobRecord :=
  [{ id := 5, task := "b", core := 0, arrival := 500, exit := 5000, execution := 0 },
    { id := 6, task := "c", core := 0, arrival := 600, exit := 15000, execution := 0 }]

/-- Three jobs of `a` are late, and four jobs of `b` are denied. -/
def backlog : List Request :=
  [.setGoal { goal := .fairness },
    .add 0 { name := "a", deadline := 10000, interArrival := 10000 },
    .add 0 { name := "b", deadline := 10000, interArrival := 10000 },
    .add 0 { name := "c", deadline := 50000, interArrival := 50000 },
    .poll { now := 12000, jobs := endless 1 1000 :: hindrances, terminated := [] },
    .poll { now := 22000, jobs := endless 2 11000 :: hindrances, terminated := [] },
    .poll { now := 32000, jobs := endless 3 21000 :: hindrances, terminated := [] },
    .poll { now := 42000, jobs := hindrances, terminated := [] },
    .poll { now := 52000, jobs := hindrances, terminated := [] },
    .move "c" 1]

/-- The arbiter after these requests. -/
def indebted : Arbiter := run { cores := 2 } backlog

/-- Task `b` leads `a` by one before the threshold of three is taken off their debts and afterwards,
and so it takes the permission over either way. -/
theorem settle_arbitrate_indebted :
    indebted.config.goal = .fairness ∧ ["a", "b", "c"].map indebted.debtOf = [3, 4, 0] ∧
      (∃ r g, indebted.Ripe "a" r g ∧ Decayed indebted (indebted.settle "a") r.core g) ∧
      ["a", "b", "c"].map (indebted.settle "a").debtOf = [0, 1, 0] ∧
      (indebted.arbitrate "a").isAllowed "b" = .ok true ∧
      ((indebted.settle "a").arbitrate "a").isAllowed "b" = .ok true := by
  have hgoal : indebted.config.goal = .fairness := by decide +kernel
  have hbefore : ["a", "b", "c"].map indebted.debtOf = [3, 4, 0] := by decide +kernel
  have hafter : ["a", "b", "c"].map (indebted.settle "a").debtOf = [0, 1, 0] := by decide +kernel
  have hb : (indebted.arbitrate "a").isAllowed "b" = .ok true := by decide +kernel
  obtain ⟨hsame, hdecayed, hself⟩ := settle_arbitrate hgoal "a" "a"
  have hripe : ∃ r g, indebted.Ripe "a" r g := by
    refine Classical.byContradiction fun hnot => ?_
    have hunchanged : indebted.settle "a" = indebted := hself fun r g h => hnot ⟨r, g, h⟩
    rw [hunchanged, hbefore] at hafter
    exact absurd hafter (by decide)
  obtain ⟨r, g, hripe⟩ := hripe
  exact ⟨hgoal, hbefore, ⟨r, g, hripe, (hdecayed r g hripe).1⟩, hafter, hb,
    (hsame "b").1.trans hb⟩

end Arbiter

end RealTime
