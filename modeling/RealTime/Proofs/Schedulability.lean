import Mathlib.Algebra.BigOperators.Fin
import Mathlib.Algebra.Order.Floor.Div
import Mathlib.Order.Bounds.Defs
import RealTime.Proofs.Feasibility

/-! # What the analysis decides

The condition that the analysis decides can be said without its loops.  A task keeps its deadline
among others if the equation `R = C + ∑ ⌈R / T⌉ * C` over the tasks that delay it has a least
solution, and that is within the deadline.  Tasks are told apart by their positions in the combined
list.

* `demand_eq_min`                 sums that stop at the limit are plain sums, cut at the limit
* `schedulable_iff_keepsDeadline` the climb finds the least solution, or there is none in time
* `truthful_of_objection`         a refusal is true of the task that it is about
* `firstObjection_eq_none_perm`   the order of the queue does not matter
* `analyze_decides`               all of this for the analysis -/

namespace RealTime

namespace ResponseTime

/-- Cutting every sum and product at the limit has the effect of cutting the whole. -/
theorem demand_eq_min {wcet : Nat} (h : wcet ≤ Clock.limit) (js : List Task) (r : Nat) :
    demand wcet js r =
      min (wcet + (js.map fun j => releases r j.interArrival.toNat * j.wcet.toNat).sum)
        Clock.limit := by
  induction js generalizing wcet with
  | nil =>
    rw [List.map_nil, List.sum_nil, Nat.add_zero, Nat.min_eq_left h]
    rfl
  | cons j js ih =>
    rw [List.map_cons, List.sum_cons]
    refine (ih (Clock.add_le_limit wcet _)).trans ?_
    simp only [Clock.add, Clock.mul]
    omega

/-- As many releases as periods have begun. -/
theorem releases_eq_ceilDiv {period : Nat} (h : period ≠ 0) (r : Nat) :
    releases r period = r ⌈/⌉ period := by
  have hmax : max period 1 = period := Nat.max_eq_left (Nat.one_le_iff_ne_zero.2 h)
  rw [releases, hmax, Nat.ceilDiv_eq_add_pred_div, Nat.add_sub_assoc (Nat.one_le_iff_ne_zero.2 h)]

end ResponseTime

namespace Schedulability

open ResponseTime

/-! ### The condition -/

/-- The positions of the other tasks that are at least as urgent as the task at position `k`. -/
def delaying (tasks : List Task) (k : Fin tasks.length) : Finset (Fin tasks.length) :=
  Finset.univ.filter fun j => j ≠ k ∧ tasks[j].prio ≤ tasks[k].prio

/-- One job of the task at position `k` and all that the tasks that delay it release into a window
of length `R`, at most `Clock.limit`. -/
def workload (tasks : List Task) (k : Fin tasks.length) (R : Nat) : Nat :=
  min (tasks[k].wcet.toNat +
    ∑ j ∈ delaying tasks k, R ⌈/⌉ tasks[j].interArrival.toNat * tasks[j].wcet.toNat) Clock.limit

/-- The task at position `k` keeps its deadline among the others. -/
structure KeepsDeadline (tasks : List Task) (k : Fin tasks.length) : Prop where
  paused : ∀ j ∈ delaying tasks k, tasks[j].interArrival ≠ 0
  responds : ∃ R, IsLeast { R | R = workload tasks k R } R ∧ R ≤ tasks[k].deadline.toNat

/-- The task at position `k` is the candidate, or the candidate can delay it. -/
def Affected (candidate : Task) (queued : List Task) (k : Fin (candidate :: queued).length) : Prop :=
  k.val = 0 ∨ candidate.prio ≤ (candidate :: queued)[k].prio

/-- What a refusal says is true of the task at position `k`. -/
def Truthful (tasks : List Task) (k : Fin tasks.length) : RejectReason → Prop
  | .responseTimeExceeded name r d =>
    name = tasks[k].name ∧ d = tasks[k].deadline.toNat ∧ d < r ∧
      (∀ j ∈ delaying tasks k, tasks[j].interArrival ≠ 0) ∧ ∀ R ≤ d, R ≠ workload tasks k R
  | .zeroInterArrival name =>
    ∃ j ∈ delaying tasks k, tasks[j].interArrival = 0 ∧ tasks[j].name = name

/-! ### Positions and interferers -/

variable {tasks : List Task} {k : Fin tasks.length}

theorem mem_interferers {t : Task} :
    t ∈ interferers tasks k tasks[k] ↔ ∃ j ∈ delaying tasks k, tasks[j] = t := by
  simp only [interferers, List.mem_filter, List.mem_eraseIdx_iff_getElem, delaying,
    Finset.mem_filter, Finset.mem_univ, true_and, Task.interferesWith, decide_eq_true_eq]
  constructor
  · rintro ⟨⟨j, hj, hne, rfl⟩, hprio⟩
    exact ⟨⟨j, hj⟩, ⟨fun heq => hne (congrArg Fin.val heq), hprio⟩, rfl⟩
  · rintro ⟨j, ⟨hne, hprio⟩, rfl⟩
    exact ⟨⟨j, j.isLt, fun heq => hne (Fin.ext heq), rfl⟩, hprio⟩

/-- A sum over the interferers is a sum over their positions. -/
theorem sum_interferers (f : Task → Nat) :
    ((interferers tasks k tasks[k]).map f).sum = ∑ j ∈ delaying tasks k, f tasks[j] := by
  -- a task that does not delay the one at `k` adds nothing
  let g (t : Task) : Nat := if t.interferesWith tasks[k] then f t else 0
  have hlist : ∀ l : List Task, ((l.filter (·.interferesWith tasks[k])).map f).sum = (l.map g).sum := by
    intro l
    induction l with
    | nil => rfl
    | cons t l ih =>
      rw [List.filter_cons, List.map_cons, List.sum_cons, ← ih]
      simp only [g]
      split
      · rw [List.map_cons, List.sum_cons]
      · rw [Nat.zero_add]
  have hperm : g tasks[k] + ((tasks.eraseIdx k).map g).sum = (tasks.map g).sum :=
    ((List.getElem_cons_eraseIdx_perm k.isLt).map g).sum_nat
  have htotal : g tasks[k] + ∑ j ∈ Finset.univ.erase k, g tasks[j] = (tasks.map g).sum := by
    rw [Finset.add_sum_erase _ (fun j : Fin tasks.length => g tasks[j]) (Finset.mem_univ k)]
    exact Fin.sum_univ_fun_getElem tasks g
  have hdelaying : ∑ j ∈ delaying tasks k, f tasks[j] = ∑ j ∈ Finset.univ.erase k, g tasks[j] := by
    have heq : delaying tasks k =
        (Finset.univ.erase k).filter fun j => tasks[j].interferesWith tasks[k] = true := by
      ext j
      simp [delaying, Task.interferesWith]
    rw [heq, Finset.sum_filter]
  rw [interferers, hlist, hdelaying]
  omega

/-- With a pause between the releases of every task that delays it, the work is the demand. -/
theorem workload_eq_demand (hpaused : ∀ j ∈ delaying tasks k, tasks[j].interArrival ≠ 0) (R : Nat) :
    workload tasks k R = demand tasks[k].wcet.toNat (interferers tasks k tasks[k]) R := by
  rw [workload, demand_eq_min (Task.wcet_le_limit _), sum_interferers]
  congr 2
  refine Finset.sum_congr rfl fun j hj => ?_
  have hne : tasks[j].interArrival.toNat ≠ 0 := fun h => hpaused j hj (UInt64.toNat_inj.1 h)
  rw [releases_eq_ceilDiv hne]

/-- The climb finds the least solution of the equation, if there is one up to the deadline. -/
theorem schedulable_iff_keepsDeadline :
    tasks[k].Schedulable (interferers tasks k tasks[k]) ↔ KeepsDeadline tasks k := by
  constructor
  · intro h
    have hpaused : ∀ j ∈ delaying tasks k, tasks[j].interArrival ≠ 0 :=
      fun j hj => h.paused _ (mem_interferers.2 ⟨j, hj, rfl⟩)
    obtain ⟨R, hR⟩ := h.responds
    obtain ⟨hfix, hd, hleast⟩ := responseTime_ok hR
    refine ⟨hpaused, R, ⟨?_, fun S hS => hleast S ?_⟩, hd⟩
    · exact ((workload_eq_demand hpaused R).trans hfix).symm
    · exact (workload_eq_demand hpaused S).symm.trans (Eq.symm hS)
  · rintro ⟨hpaused, R, ⟨hfix, -⟩, hd⟩
    refine ⟨fun t ht => ?_, responseTime_ok_iff.2 ⟨R, hd, ?_⟩⟩
    · obtain ⟨j, hj, rfl⟩ := mem_interferers.1 ht
      exact hpaused j hj
    · exact Nat.le_of_eq ((workload_eq_demand hpaused R).symm.trans (Eq.symm hfix))

/-! ### Objections -/

/-- An objection against a task is true of it. -/
theorem truthful_of_objection {reason : RejectReason}
    (h : objection tasks[k] (interferers tasks k tasks[k]) = some reason) :
    Truthful tasks k reason := by
  simp only [objection] at h
  split at h
  · rename_i z hz
    cases h
    obtain ⟨j, hj, hzj⟩ := mem_interferers.1 (List.mem_of_find?_eq_some hz)
    have hzero := List.find?_some hz
    exact ⟨j, hj, hzj ▸ beq_iff_eq.1 hzero, congrArg Task.name hzj⟩
  · rename_i hnone
    have hpaused : ∀ j ∈ delaying tasks k, tasks[j].interArrival ≠ 0 := fun j hj hzero =>
      List.find?_eq_none.1 hnone _ (mem_interferers.2 ⟨j, hj, rfl⟩) (beq_iff_eq.2 hzero)
    split at h
    · cases h
    · rename_i r hr
      cases h
      obtain ⟨hlt, hno⟩ := responseTime_error hr
      refine ⟨rfl, rfl, hlt, hpaused, fun R hR hfix => hno R hR ?_⟩
      exact (workload_eq_demand hpaused R).symm.trans hfix.symm

variable {candidate : Task} {queued queued' : List Task}

theorem affects_iff {k : Fin (candidate :: queued).length} :
    affects candidate k (candidate :: queued)[k] = true ↔ Affected candidate queued k := by
  simp only [affects, Affected, Bool.or_eq_true, beq_iff_eq, Bool.not_eq_true',
    ← Task.interferesWith_iff_not_outranks, Task.interferesWith, decide_eq_true_eq]

/-- The analysis has no objection if every affected task keeps its deadline, and only then. -/
theorem firstObjection_eq_none_iff_keepsDeadline :
    firstObjection candidate queued = none ↔
      ∀ k, Affected candidate queued k → KeepsDeadline (candidate :: queued) k := by
  rw [firstObjection_eq_none_iff]
  constructor
  · intro h k haffected
    exact schedulable_iff_keepsDeadline.1 (h k.isLt (affects_iff.2 haffected))
  · intro h i hi haffects
    have haffected := affects_iff (k := ⟨i, hi⟩).1 haffects
    exact schedulable_iff_keepsDeadline.2 (h ⟨i, hi⟩ haffected)

/-- The first objection is true of an affected task. -/
theorem truthful_of_firstObjection {reason : RejectReason}
    (h : firstObjection candidate queued = some reason) :
    ∃ k, Affected candidate queued k ∧ Truthful (candidate :: queued) k reason := by
  obtain ⟨⟨t, i⟩, hmem, hsome⟩ := List.exists_of_findSome?_eq_some h
  rw [List.mk_mem_zipIdx_iff_getElem?] at hmem
  obtain ⟨hi, rfl⟩ := List.getElem?_eq_some_iff.1 hmem
  dsimp only at hsome
  split at hsome
  · rename_i haffects
    exact ⟨⟨i, hi⟩, affects_iff.1 haffects, truthful_of_objection hsome⟩
  · cases hsome

/-- An objection does not go away when the queue is rearranged. -/
theorem firstObjection_eq_none_perm (hp : queued.Perm queued')
    (h : firstObjection candidate queued = none) : firstObjection candidate queued' = none := by
  rw [firstObjection_eq_none_iff] at h ⊢
  intro i hi haffects
  cases i with
  | zero => exact (h (Nat.zero_lt_succ _) rfl).perm (hp.filter _)
  | succ j =>
    -- the task has another place in the other queue, and the same tasks are around it
    have hj : j < queued'.length := Nat.lt_of_succ_lt_succ hi
    obtain ⟨i, hi, heq⟩ := List.mem_iff_getElem.1 (hp.mem_iff.2 (List.getElem_mem hj))
    have hrest : (queued.eraseIdx i).Perm (queued'.eraseIdx j) := by
      have hcons := (List.getElem_cons_eraseIdx_perm hi).trans
        (hp.trans (List.getElem_cons_eraseIdx_perm hj).symm)
      rw [heq] at hcons
      exact hcons.cons_inv
    have haffects' : affects candidate (i + 1) queued[i] = true := by
      rw [heq]
      exact haffects
    have hsched := h (Nat.succ_lt_succ hi) haffects'
    simp only [interferers, List.getElem_cons_succ, List.eraseIdx_cons_succ, heq] at hsched ⊢
    exact hsched.perm ((hrest.cons candidate).filter _)

end Schedulability

open Schedulability

/-- The analysis accepts a candidate if the queue is empty or every affected task keeps its
deadline, and only then.  What it says when it refuses a candidate is true of an affected task.
The order of the queue makes no difference. -/
theorem analyze_decides (candidate : Task) (queued : List Task) :
    (analyze candidate queued = .accept ↔
      queued = [] ∨ ∀ k, Affected candidate queued k → KeepsDeadline (candidate :: queued) k) ∧
    (∀ reason, analyze candidate queued = .reject reason →
      ∃ k, Affected candidate queued k ∧ Truthful (candidate :: queued) k reason) ∧
    ∀ queued', queued.Perm queued' →
      (analyze candidate queued' = .accept ↔ analyze candidate queued = .accept) := by
  have haccept : ∀ q, analyze candidate q = .accept ↔
      q = [] ∨ firstObjection candidate q = none := by
    intro q
    refine ⟨fun h => or_iff_not_imp_left.2 (firstObjection_of_accept h), fun h => ?_⟩
    unfold analyze
    split
    · rfl
    · rename_i hne
      rw [h.resolve_left fun hnil => hne (List.isEmpty_iff.2 hnil)]
  refine ⟨?_, fun reason h => ?_, fun queued' hp => ?_⟩
  · rw [haccept, firstObjection_eq_none_iff_keepsDeadline]
  · unfold analyze at h
    split at h
    · cases h
    · split at h
      · cases h
      · rename_i hsome
        cases h
        exact truthful_of_firstObjection hsome
  · have hnil : queued' = [] ↔ queued = [] :=
      ⟨fun h => (h ▸ hp).eq_nil, fun h => (h ▸ hp.symm).eq_nil⟩
    rw [haccept, haccept, hnil]
    exact or_congr_right ⟨firstObjection_eq_none_perm hp.symm, firstObjection_eq_none_perm hp⟩

end RealTime
