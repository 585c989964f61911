import RealTime.Proofs.Feasibility

/-! # Sustainable admission

A candidate that the analysis accepts is accepted all the more when the queue holds fewer tasks, and
when the candidate or the tasks of the queue ask for less.  Each affected task of the smaller queue
stands for an affected task of the larger one, at another position perhaps, and what delays it there
is among what delays the other.

* `exists_getElem_of_eased`   the place that a task had, and the others around it
* `filter_interferesWith_eased`  what delays it
* `analyze_sustainable`       the analysis of the smaller queue -/

namespace RealTime

variable {t t' k k' : Task} {l l' : List Task}

/-- A task that is left had a place in the longer list, and the others that are left are some of the
others there. -/
theorem exists_getElem_of_eased (h : List.SublistForall₂ Task.Eases l' l) {i : Nat}
    (hi : i < l'.length) :
    ∃ (j : Nat) (hj : j < l.length), l'[i].Eases l[j] ∧
      List.SublistForall₂ Task.Eases (l'.eraseIdx i) (l.eraseIdx j) := by
  induction h generalizing i with
  | nil => exact absurd hi (Nat.not_lt_zero i)
  | cons hfirst hrest ih =>
    cases i with
    | zero => exact ⟨0, Nat.zero_lt_succ _, hfirst, hrest⟩
    | succ i =>
      obtain ⟨j, hj, heases, hothers⟩ := ih (Nat.lt_of_succ_lt_succ hi)
      exact ⟨j + 1, Nat.succ_lt_succ hj, heases, .cons hfirst hothers⟩
  | cons_right _ ih =>
    -- the first task of the longer list has left, and is one of the others
    obtain ⟨j, hj, heases, hothers⟩ := ih hi
    exact ⟨j + 1, Nat.succ_lt_succ hj, heases, .cons_right hothers⟩

/-- Whether a task delays another one is a matter of their priorities, which stay. -/
theorem interferesWith_eased (h : t'.Eases t) (hk : k'.Eases k) :
    t'.interferesWith k' = t.interferesWith k := by
  simp only [Task.interferesWith, h.prio, hk.prio]

/-- What delays a task that is left is some of what delayed it before. -/
theorem filter_interferesWith_eased (h : List.SublistForall₂ Task.Eases l' l) (hk : k'.Eases k) :
    List.SublistForall₂ Task.Eases (l'.filter (·.interferesWith k'))
      (l.filter (·.interferesWith k)) := by
  induction h with
  | nil => exact .nil
  | cons hfirst _ ih =>
    rw [List.filter_cons, List.filter_cons, interferesWith_eased hfirst hk]
    split
    · exact .cons hfirst ih
    · exact ih
  | cons_right _ ih =>
    rw [List.filter_cons]
    split
    · exact .cons_right ih
    · exact ih

variable {candidate candidate' : Task} {queued queued' : List Task}

/-- Whether the candidate can delay a task of the queue is a matter of priorities as well. -/
theorem affects_eased (hc : candidate'.Eases candidate) (ht : t'.Eases t) (i j : Nat) :
    Schedulability.affects candidate' (i + 1) t' = Schedulability.affects candidate (j + 1) t := by
  simp only [Schedulability.affects, Task.outranks, hc.prio, ht.prio]
  rfl

/-- Without an objection against a candidate, there is none if less is asked for. -/
theorem firstObjection_eased (hc : candidate'.Eases candidate)
    (hq : List.SublistForall₂ Task.Eases queued' queued)
    (h : Schedulability.firstObjection candidate queued = none) :
    Schedulability.firstObjection candidate' queued' = none := by
  rw [firstObjection_eq_none_iff] at h ⊢
  intro i hi haffects
  cases i with
  | zero =>
    have hsched := h (Nat.zero_lt_succ _) rfl
    exact hsched.eased hc (filter_interferesWith_eased hq hc)
  | succ i =>
    obtain ⟨j, hj, heases, hothers⟩ := exists_getElem_of_eased hq (Nat.lt_of_succ_lt_succ hi)
    -- the candidate affected the task at its old place too
    have haffects' : Schedulability.affects candidate (j + 1) queued[j] = true := by
      rw [← affects_eased hc heases i j]
      exact haffects
    have hsched := h (Nat.succ_lt_succ hj) haffects'
    exact hsched.eased heases (filter_interferesWith_eased (.cons hc hothers) heases)

/-- An accepted candidate is accepted as well when tasks have left the queue, and when it and the
tasks that are left run no longer, release their jobs no more often, and have no less time, at the
priorities that they had. -/
theorem analyze_sustainable (h : analyze candidate queued = .accept)
    (hc : candidate'.Eases candidate) (hq : List.SublistForall₂ Task.Eases queued' queued) :
    analyze candidate' queued' = .accept := by
  unfold analyze
  split
  · rfl
  · rename_i hne
    -- the old queue was not empty either, so the candidate has been analysed against it
    have hne' : queued ≠ [] := by
      rintro rfl
      cases hq
      exact hne rfl
    rw [firstObjection_eased hc hq (firstObjection_of_accept h hne')]

/-- The second of three tasks leaves, the third one has half the work, and the candidate has more
time.  Its response time falls from 10 to 4. -/
theorem analyze_sustainable_departure :
    let candidate : Task := { wcet := 3, deadline := 12, interArrival := 12, prio := 3 }
    let queued : List Task :=
      [{ wcet := 1, deadline := 4, interArrival := 4, prio := 1 },
       { wcet := 2, deadline := 6, interArrival := 6, prio := 2 },
       { wcet := 2, deadline := 30, interArrival := 40, prio := 4 }]
    let candidate' : Task := { candidate with deadline := 15 }
    let queued' : List Task :=
      [{ wcet := 1, deadline := 4, interArrival := 4, prio := 1 },
       { wcet := 1, deadline := 30, interArrival := 40, prio := 4 }]
    analyze candidate queued = .accept ∧ candidate'.Eases candidate ∧
      List.SublistForall₂ Task.Eases queued' queued ∧ analyze candidate' queued' = .accept := by
  intro candidate queued candidate' queued'
  have haccept : analyze candidate queued = .accept := by decide +kernel
  have hc : candidate'.Eases candidate := ⟨rfl, by decide, by decide, by decide⟩
  have hq : List.SublistForall₂ Task.Eases queued' queued :=
    .cons .rfl (.cons_right (.cons ⟨rfl, by decide, by decide, by decide⟩ .nil))
  exact ⟨haccept, hc, hq, analyze_sustainable haccept hc hq⟩

end RealTime
