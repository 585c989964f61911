import Mathlib.Data.List.Perm.Basic
import RealTime.Proofs.ResponseTime

/-! # Feasible queues

The analysis of a candidate looks at the tasks that it can delay and trusts that all others are
fine already.  `Feasible` is what it may trust: every task with time for its job is schedulable
among the other tasks of its queue.  Tasks are told apart by position, so the definition takes
one occurrence out of the queue and speaks of the rest.

* `Feasible.perm`, `Feasible.of_cons`, `Feasible.like_cons`  order, departures, other names
* `Feasible.accept`        an accepted candidate leaves the queue feasible
* `wcet_le_of_accept`      only an empty queue takes a task without time for its job
* `Feasible.getElem`       the definition read at a position -/

namespace RealTime

/-- Every task of a queue that has time for its job is schedulable among the others. -/
def Feasible (Q : List Task) : Prop :=
  ∀ k rest, Q.Perm (k :: rest) → k.wcet ≤ k.deadline →
    k.Schedulable (rest.filter (·.interferesWith k))

variable {Q A rest : List Task} {t t' k : Task}

theorem feasible_nil : Feasible [] := fun _ _ hp => nomatch hp.length_eq

theorem Feasible.perm (h : Feasible Q) (hp : Q.Perm A) : Feasible A :=
  fun k rest hA => h k rest (hp.trans hA)

/-- Two ways to take a member out of a list with a head. -/
private theorem perm_cons_cases {α : Type} {a b : α} {l l' : List α}
    (h : (a :: l).Perm (b :: l')) :
    a = b ∧ l.Perm l' ∨ ∃ m, l'.Perm (a :: m) ∧ l.Perm (b :: m) := by
  have hmem : a ∈ b :: l' := h.mem_iff.1 List.mem_cons_self
  rcases List.mem_cons.1 hmem with rfl | hmem
  · exact .inl ⟨rfl, h.cons_inv⟩
  · obtain ⟨s, u, rfl⟩ := List.append_of_mem hmem
    have hmid : (s ++ a :: u).Perm (a :: (s ++ u)) := List.perm_middle
    have hswap : (a :: l).Perm (a :: b :: (s ++ u)) :=
      h.trans ((hmid.cons b).trans (List.Perm.swap a b (s ++ u)))
    exact .inr ⟨s ++ u, hmid, hswap.cons_inv⟩

/-- A queue stays feasible when a task leaves. -/
theorem Feasible.of_cons (h : Feasible (t :: Q)) : Feasible Q := by
  intro k rest hp hk
  -- the task that leaves is one more among the others of `k`
  have hp' : (t :: Q).Perm (k :: t :: rest) := (hp.cons t).trans (List.Perm.swap k t rest)
  have hsched := h k (t :: rest) hp' hk
  rw [List.filter_cons] at hsched
  split at hsched
  · exact hsched.of_cons
  · exact hsched

/-- Only the timing and the priority of a task matter. -/
theorem Feasible.like_cons (h : Feasible (t :: Q)) (hl : t.Like t') : Feasible (t' :: Q) := by
  intro k rest hp hk
  rcases perm_cons_cases hp with ⟨rfl, hQ⟩ | ⟨m, hrest, hQ⟩
  · have hsched := h t Q (List.Perm.refl _) (by rwa [← hl.wcet, ← hl.deadline])
    have hfilter : Q.filter (·.interferesWith t') = Q.filter (·.interferesWith t) := by
      simp only [Task.interferesWith, hl.prio]
    exact (hfilter ▸ hsched.like hl).perm (hQ.filter _)
  · -- the task is among the interferers of `k`, if anywhere
    have hp' : (t :: Q).Perm (k :: t :: m) := (hQ.cons t).trans (List.Perm.swap k t m)
    have hsched := h k (t :: m) hp' hk
    have hsame : t'.interferesWith k = t.interferesWith k := by
      simp only [Task.interferesWith, hl.prio]
    apply Task.Schedulable.perm _ (hrest.filter _).symm
    rw [List.filter_cons, hsame]
    rw [List.filter_cons] at hsched
    split
    · rename_i hint
      rw [if_pos hint] at hsched
      exact hsched.like_cons hl
    · rename_i hint
      rwa [if_neg hint] at hsched

/-- A task alone is feasible. -/
theorem feasible_singleton : Feasible [t] := by
  intro k rest hp hk
  obtain ⟨rfl, hrest⟩ : t = k ∧ rest = [] := by simpa using hp
  rw [hrest]
  exact Task.schedulable_nil hk

/-- The analysis has no objection exactly if every affected task is schedulable among the tasks at
other positions. -/
theorem firstObjection_eq_none_iff :
    Schedulability.firstObjection t A = none ↔
      ∀ {i : Nat} (hi : i < (t :: A).length), Schedulability.affects t i (t :: A)[i] = true →
        (t :: A)[i].Schedulable (Schedulability.interferers (t :: A) i (t :: A)[i]) := by
  simp only [Schedulability.firstObjection, List.findSome?_eq_none_iff]
  constructor
  · intro h i hi haffects
    have hmem : ((t :: A)[i], i) ∈ (t :: A).zipIdx := by
      rw [List.mk_mem_zipIdx_iff_getElem?]
      exact List.getElem?_eq_getElem hi
    have hnone := h _ hmem
    simp only [if_pos haffects] at hnone
    exact Schedulability.objection_eq_none_iff.1 hnone
  · rintro h ⟨u, i⟩ hmem
    rw [List.mk_mem_zipIdx_iff_getElem?] at hmem
    obtain ⟨hi, rfl⟩ := List.getElem?_eq_some_iff.1 hmem
    dsimp only
    split
    · exact Schedulability.objection_eq_none_iff.2 (h hi ‹_›)
    · rfl

theorem firstObjection_of_accept (h : analyze t A = .accept) (hne : A ≠ []) :
    Schedulability.firstObjection t A = none := by
  -- the analysis is skipped for an empty queue only
  have hempty : ¬ A.isEmpty = true := fun hnil => hne (List.isEmpty_iff.1 hnil)
  simp only [analyze, if_neg hempty] at h
  split at h
  · assumption
  · cases h

/-- A queue with tasks takes no task that has no time for its job. -/
theorem wcet_le_of_accept (h : analyze t A = .accept) (hne : A ≠ []) : t.wcet ≤ t.deadline := by
  have hnone := firstObjection_of_accept h hne
  have hsched := firstObjection_eq_none_iff.1 hnone (Nat.zero_lt_succ _) rfl
  exact hsched.wcet_le

/-- An accepted candidate leaves the queue feasible.  The tasks that it affects have been
analysed; the others are more urgent than it is, and their interferers are the same as before. -/
theorem Feasible.accept (h : Feasible A) (haccept : analyze t A = .accept) :
    Feasible (t :: A) := by
  by_cases hne : A = []
  · rw [hne]
    exact feasible_singleton
  have hnone := firstObjection_of_accept haccept hne
  intro k rest hp hk
  -- the analysis tells tasks apart by position, so `k` gets one
  have hmem : k ∈ t :: A := hp.mem_iff.2 List.mem_cons_self
  obtain ⟨i, hi, rfl⟩ := List.mem_iff_getElem.1 hmem
  have hrest : ((t :: A).eraseIdx i).Perm rest :=
    ((List.getElem_cons_eraseIdx_perm hi).trans hp).cons_inv
  by_cases haffects : Schedulability.affects t i (t :: A)[i] = true
  · have hsched := firstObjection_eq_none_iff.1 hnone hi haffects
    exact hsched.perm (hrest.filter _)
  · cases i with
    | zero => exact absurd rfl haffects
    | succ j =>
      -- the candidate delays no task that is more urgent
      have hj : j < A.length := Nat.lt_of_succ_lt_succ hi
      have houtranks : A[j].outranks t = true := by
        simpa [Schedulability.affects] using haffects
      have hnot : ¬ t.interferesWith A[j] = true := by
        rw [Task.interferesWith_iff_not_outranks, houtranks]
        exact Bool.noConfusion
      have hsched := h A[j] (A.eraseIdx j) (List.getElem_cons_eraseIdx_perm hj).symm hk
      have hfilter := hrest.filter (·.interferesWith A[j])
      rw [List.eraseIdx_cons_succ, List.filter_cons, if_neg hnot] at hfilter
      exact hsched.perm hfilter

/-- In a feasible queue, every task with time for its job is schedulable among the tasks at other
positions. -/
theorem Feasible.getElem (h : Feasible Q) {i : Nat} (hi : i < Q.length)
    (hk : Q[i].wcet ≤ Q[i].deadline) :
    Q[i].Schedulable (Schedulability.interferers Q i Q[i]) :=
  h Q[i] (Q.eraseIdx i) (List.getElem_cons_eraseIdx_perm hi).symm hk

end RealTime
