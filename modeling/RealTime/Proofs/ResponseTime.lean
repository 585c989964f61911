import Mathlib.Data.List.Forall2
import RealTime.Schedulability

/-! # Response times and interferers

A task keeps its deadline among some interfering tasks exactly if a window up to the deadline
holds its own demand.  The demand does not depend on the order of the interferers and does not
grow when one of them goes away or asks for less, so a schedulable task stays schedulable then.

* `ascend_ok_iff`    a climb ends well if some window that it can reach holds its demand
* `ascend_ok`, `ascend_error`  where a climb ends
* `responseTime_ok_iff`, `responseTime_ok`, `responseTime_error`  the same for the response time of
                     a task
* `demand_perm`, `demand_le_of_eased`  order and demands of interferers
* `Schedulable.eased`, `Schedulable.perm`  what keeps a task schedulable -/

namespace RealTime

/-- A task asks for no more than another one of its priority: its jobs are no longer, come no more
often, and have no less time. -/
structure Task.Eases (t u : Task) : Prop where
  prio : t.prio = u.prio
  wcet : t.wcet ≤ u.wcet
  interArrival : u.interArrival ≤ t.interArrival
  deadline : u.deadline ≤ t.deadline

namespace ResponseTime

variable {wcet r : Nat} {js js' : List Task}

/-- Work that an interfering task releases into a window. -/
private def share (r : Nat) (j : Task) : Nat :=
  Clock.mul (releases r j.interArrival.toNat) j.wcet.toNat

private theorem demand_cons (wcet : Nat) (j : Task) (js : List Task) (r : Nat) :
    demand wcet (j :: js) r = demand (Clock.add wcet (share r j)) js r := rfl

/-- Longer periods hold fewer releases. -/
theorem releases_anti {p p' : Nat} (h : p ≤ p') (r : Nat) : releases r p' ≤ releases r p := by
  have hmax : max p 1 ≤ max p' 1 := by omega
  have hr : r ≤ max p 1 * releases r p := by
    have hlt := Nat.lt_mul_div_succ (r + (max p 1 - 1)) (show 0 < max p 1 by omega)
    rw [← releases, Nat.mul_succ] at hlt
    omega
  -- as many of the longer periods cover the window as well
  have hr' := Nat.le_trans hr (Nat.mul_le_mul_right (releases r p) hmax)
  rw [releases, Nat.div_le_iff_le_mul_add_pred (by omega)]
  omega

/-- The order of the interferers does not matter. -/
theorem demand_perm (h : js.Perm js') : demand wcet js r = demand wcet js' r := by
  apply h.foldl_eq'
  intro i _ j _ acc
  -- sums that stop at the limit may still be taken in any order
  simp only [Clock.add]
  omega

private theorem share_le {j j' : Task} (h : j'.Eases j) (r : Nat) : share r j' ≤ share r j :=
  Clock.mul_le_mul (releases_anti (UInt64.le_iff_toNat_le.1 h.interArrival) r)
    (UInt64.le_iff_toNat_le.1 h.wcet)

/-- Interferers that leave or ask for less make no more demand. -/
theorem demand_le_of_eased {a b : Nat} (hab : a ≤ b) (hb : b ≤ Clock.limit)
    (h : List.SublistForall₂ Task.Eases js' js) (r : Nat) : demand a js' r ≤ demand b js r := by
  induction h generalizing a b with
  | nil => exact Nat.le_trans hab (wcet_le_demand hb _ r)
  | cons hj _ ih =>
    rw [demand_cons, demand_cons]
    exact ih (Clock.add_le_add hab (share_le hj r)) (Clock.add_le_limit _ _)
  | cons_right _ ih =>
    rw [demand_cons]
    exact ih (Nat.le_trans hab (Clock.le_add hb)) (Clock.add_le_limit _ _)

/-- A climb ends at a window that holds its own demand if the deadline leaves room for one. -/
theorem ascend_ok_iff {f : Nat → Nat} (mono : ∀ r s, r ≤ s → f r ≤ f s) {deadline r : Nat}
    (h : r ≤ f r) :
    (∃ R, ascend f mono deadline r h = .ok R) ↔ ∃ R, r ≤ R ∧ R ≤ deadline ∧ f R ≤ R := by
  fun_induction ascend f mono deadline r h with
  | case1 r h hlt =>
    -- every larger window asks for more than the deadline as well
    refine ⟨fun ⟨_, hok⟩ => (nomatch hok), fun ⟨R, hr, hd, hR⟩ => ?_⟩
    have hle := mono r R hr
    omega
  | case2 r h hle heq =>
    exact ⟨fun _ => ⟨r, Nat.le_refl r, heq ▸ Nat.not_lt.1 hle, Nat.le_of_eq heq⟩,
      fun _ => ⟨r, rfl⟩⟩
  | case3 r h hle hne ih =>
    -- no window between `r` and its demand holds its own demand
    rw [ih]
    constructor
    · rintro ⟨R, hr, hd, hR⟩
      exact ⟨R, Nat.le_trans h hr, hd, hR⟩
    · rintro ⟨R, hr, hd, hR⟩
      exact ⟨R, Nat.le_trans (mono r R hr) hR, hd, hR⟩

/-- A climb that ends well ends at the least window from its start on that is its own demand. -/
theorem ascend_ok {f : Nat → Nat} (mono : ∀ r s, r ≤ s → f r ≤ f s) {deadline r R : Nat}
    (h : r ≤ f r) (hok : ascend f mono deadline r h = .ok R) :
    f R = R ∧ R ≤ deadline ∧ ∀ S, r ≤ S → f S = S → R ≤ S := by
  fun_induction ascend f mono deadline r h with
  | case1 r h hlt => cases hok
  | case2 r h hle heq =>
    cases hok
    exact ⟨heq, heq ▸ Nat.not_lt.1 hle, fun S hS _ => hS⟩
  | case3 r h hle hne ih =>
    obtain ⟨hR, hd, hleast⟩ := ih hok
    exact ⟨hR, hd, fun S hS hfix => hleast S (hfix ▸ mono r S hS) hfix⟩

/-- A climb that fails stops past the deadline. -/
theorem ascend_error {f : Nat → Nat} (mono : ∀ r s, r ≤ s → f r ≤ f s) {deadline r e : Nat}
    (h : r ≤ f r) (herr : ascend f mono deadline r h = .error e) : deadline < e := by
  fun_induction ascend f mono deadline r h with
  | case1 r h hlt =>
    cases herr
    exact hlt
  | case2 r h hle heq => cases herr
  | case3 r h hle hne ih => exact ih herr

end ResponseTime

open ResponseTime

variable {t t' k k' j j' : Task} {js js' : List Task}

theorem Task.wcet_le_limit (t : Task) : t.wcet.toNat ≤ Clock.limit :=
  Nat.le_sub_one_of_lt t.wcet.toNat_lt

/-- The response time is within the deadline if a window up to the deadline holds its demand. -/
theorem responseTime_ok_iff :
    (∃ R, t.responseTime js = .ok R) ↔
      ∃ R, R ≤ t.deadline.toNat ∧ demand t.wcet.toNat js R ≤ R := by
  rw [Task.responseTime, ascend_ok_iff]
  constructor
  · rintro ⟨R, -, hd, hR⟩
    exact ⟨R, hd, hR⟩
  · rintro ⟨R, hd, hR⟩
    exact ⟨R, Nat.le_trans (wcet_le_demand t.wcet_le_limit js R) hR, hd, hR⟩

/-- The response time is the least window that is its own demand, and within the deadline. -/
theorem responseTime_ok {R : Nat} (h : t.responseTime js = .ok R) :
    demand t.wcet.toNat js R = R ∧ R ≤ t.deadline.toNat ∧
      ∀ S, demand t.wcet.toNat js S = S → R ≤ S := by
  obtain ⟨hR, hd, hleast⟩ := ascend_ok _ _ h
  -- no window is its own demand below the time that the job itself takes
  exact ⟨hR, hd, fun S hS => hleast S (hS ▸ wcet_le_demand t.wcet_le_limit js S) hS⟩

/-- Without a response time, some demand exceeds the deadline, and no window up to the deadline is
its own demand. -/
theorem responseTime_error {e : Nat} (h : t.responseTime js = .error e) :
    t.deadline.toNat < e ∧ ∀ R, R ≤ t.deadline.toNat → demand t.wcet.toNat js R ≠ R := by
  refine ⟨ascend_error _ _ h, fun R hd hR => ?_⟩
  obtain ⟨S, hS⟩ := responseTime_ok_iff.2 ⟨R, hd, Nat.le_of_eq hR⟩
  exact nomatch h.symm.trans hS

/-- A task keeps its deadline among interfering tasks, none of which releases jobs without a
pause. -/
structure Task.Schedulable (t : Task) (js : List Task) : Prop where
  paused : ∀ j ∈ js, j.interArrival ≠ 0
  responds : ∃ R, t.responseTime js = .ok R

namespace Task

/-- Two tasks that differ in what the analysis does not look at. -/
structure Like (t u : Task) : Prop where
  prio : u.prio = t.prio
  wcet : u.wcet = t.wcet
  deadline : u.deadline = t.deadline
  interArrival : u.interArrival = t.interArrival

theorem Schedulable.perm (h : t.Schedulable js) (hp : js.Perm js') : t.Schedulable js' where
  paused := fun j hj => h.paused j (hp.mem_iff.2 hj)
  responds := by
    obtain ⟨R, hd, hR⟩ := responseTime_ok_iff.1 h.responds
    exact responseTime_ok_iff.2 ⟨R, hd, demand_perm hp ▸ hR⟩

/-- A task stays schedulable when interferers leave, and when they or the task itself ask for less. -/
theorem Schedulable.eased (h : t.Schedulable js) (ht : t'.Eases t)
    (hjs : List.SublistForall₂ Eases js' js) : t'.Schedulable js' where
  paused := by
    have hpaused := h.paused
    clear h
    induction hjs with
    | nil => exact fun j hj => nomatch hj
    | cons hj _ ih =>
      obtain ⟨hfirst, hrest⟩ := List.forall_mem_cons.1 hpaused
      refine List.forall_mem_cons.2 ⟨fun hzero => hfirst ?_, ih hrest⟩
      -- a period that is no longer than zero is zero
      exact UInt64.le_antisymm (hzero ▸ hj.interArrival) (UInt64.zero_le)
    | cons_right _ ih => exact ih (List.forall_mem_cons.1 hpaused).2
  responds := by
    obtain ⟨R, hd, hR⟩ := responseTime_ok_iff.1 h.responds
    have hle := demand_le_of_eased (UInt64.le_iff_toNat_le.1 ht.wcet) t.wcet_le_limit hjs R
    have hd' := Nat.le_trans hd (UInt64.le_iff_toNat_le.1 ht.deadline)
    exact responseTime_ok_iff.2 ⟨R, hd', Nat.le_trans hle hR⟩

theorem Eases.rfl : t.Eases t := ⟨Eq.refl _, UInt64.le_refl _, UInt64.le_refl _, UInt64.le_refl _⟩

instance : Std.Refl Eases := ⟨fun _ => .rfl⟩

/-- Of two tasks that the analysis cannot tell apart, each asks for no more than the other. -/
theorem Like.eases (h : t.Like k) : k.Eases t :=
  ⟨h.prio, UInt64.le_of_eq h.wcet, UInt64.le_of_eq h.interArrival.symm,
    UInt64.le_of_eq h.deadline.symm⟩

theorem Schedulable.of_cons (h : t.Schedulable (j :: js)) : t.Schedulable js :=
  h.eased .rfl (.cons_right (List.Sublist.refl js).sublistForall₂)

theorem Schedulable.like (h : k.Schedulable js) (hk : k.Like k') : k'.Schedulable js :=
  h.eased hk.eases (List.Sublist.refl js).sublistForall₂

theorem Schedulable.like_cons (h : t.Schedulable (j :: js)) (hj : j.Like j') :
    t.Schedulable (j' :: js) :=
  h.eased .rfl (.cons hj.eases (List.Sublist.refl js).sublistForall₂)

/-- A task alone responds in the time that its job takes. -/
theorem schedulable_nil (h : t.wcet ≤ t.deadline) : t.Schedulable [] where
  paused := fun _ hj => nomatch hj
  responds := responseTime_ok_iff.2 ⟨t.wcet.toNat, UInt64.le_iff_toNat_le.1 h, Nat.le_refl _⟩

/-- A schedulable task has time for its job. -/
theorem Schedulable.wcet_le (h : t.Schedulable js) : t.wcet ≤ t.deadline := by
  obtain ⟨R, hd, hR⟩ := responseTime_ok_iff.1 h.responds
  have hle := wcet_le_demand t.wcet_le_limit js R
  rw [UInt64.le_iff_toNat_le]
  omega

end Task

/-- Nothing speaks against a task exactly if it is schedulable. -/
theorem Schedulability.objection_eq_none_iff :
    Schedulability.objection t js = none ↔ t.Schedulable js := by
  simp only [objection]
  split
  · rename_i z hz
    -- some interferer has no pause
    refine ⟨fun h => (nomatch h), fun h => ?_⟩
    have hzero := List.find?_some hz
    exact absurd (beq_iff_eq.1 hzero) (h.paused z (List.mem_of_find?_eq_some hz))
  · rename_i hnone
    have hpaused : ∀ j ∈ js, j.interArrival ≠ 0 := fun j hj hzero =>
      List.find?_eq_none.1 hnone j hj (beq_iff_eq.2 hzero)
    split
    · rename_i R hR
      exact ⟨fun _ => ⟨hpaused, R, hR⟩, fun _ => rfl⟩
    · rename_i e he
      refine ⟨fun h => (nomatch h), fun h => ?_⟩
      obtain ⟨R, hR⟩ := h.responds
      exact nomatch he.symm.trans hR

end RealTime
