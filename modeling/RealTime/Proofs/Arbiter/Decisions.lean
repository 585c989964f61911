import RealTime.Proofs.Arbiter.Agree

/-! # What a decision does

Two tasks on one core are `Linked` if one of them names the other as a competitor.  A decision
about a task permits it or denies it, together with all competitors that it is linked with.  So
whoever is denied by a decision is linked with another task at that moment.

* `mem_rivals`, `isClaimed_iff`, `mem_of_leader?`   what a decision looks at
* `linked_or_denied_of_arbitrate`   who is denied after a decision -/

namespace RealTime

/-- Where a task is and whom it names. -/
def Record.stance (r : Record) : Nat × OrderedSet String := (r.core, r.competitors)

namespace Arbiter

variable {a b : Arbiter} {name x y : String} {r o : Record}

/-! ### Competition -/

/-- One of two supervised tasks names the other as a competitor. -/
def Competes (a : Arbiter) (x y : String) : Prop :=
  x ≠ y ∧ ∃ r o, a.tasks.get? x = some r ∧ a.tasks.get? y = some o ∧
    (y ∈ r.competitors ∨ x ∈ o.competitors)

/-- One of two supervised tasks on the same core names the other as a competitor. -/
def Linked (a : Arbiter) (x y : String) : Prop :=
  x ≠ y ∧ ∃ r o, a.tasks.get? x = some r ∧ a.tasks.get? y = some o ∧ o.core = r.core ∧
    (y ∈ r.competitors ∨ x ∈ o.competitors)

theorem Linked.competes (h : a.Linked x y) : a.Competes x y := by
  obtain ⟨hne, r, o, hr, ho, -, hcomp⟩ := h
  exact ⟨hne, r, o, hr, ho, hcomp⟩

/-- All tasks stay, and none of them loses a competitor. -/
def Grows (a b : Arbiter) : Prop :=
  ∀ n r, a.tasks.get? n = some r →
    ∃ r', b.tasks.get? n = some r' ∧ ∀ c ∈ r.competitors, c ∈ r'.competitors

theorem Grows.trans {c : Arbiter} (h : a.Grows b) (h' : b.Grows c) : a.Grows c := by
  intro n r hr
  obtain ⟨r', hr', hsub⟩ := h n r hr
  obtain ⟨r'', hr'', hsub'⟩ := h' n r' hr'
  exact ⟨r'', hr'', fun c hc => hsub' c (hsub c hc)⟩

theorem grows_of_agree (h : ∀ n, Agree Record.competitors n a b) : a.Grows b := by
  intro n r hr
  obtain ⟨r', hr', heq⟩ := (h n).get?_of_get? hr
  exact ⟨r', hr', fun c hc => heq ▸ hc⟩

theorem Competes.mono (h : a.Competes x y) (hgrows : a.Grows b) : b.Competes x y := by
  obtain ⟨hne, r, o, hr, ho, hcomp⟩ := h
  obtain ⟨r', hr', hsub⟩ := hgrows x r hr
  obtain ⟨o', ho', hsub'⟩ := hgrows y o ho
  exact ⟨hne, r', o', hr', ho', hcomp.imp (hsub y) (hsub' x)⟩

theorem Linked.mono (h : a.Linked x y) (hcore : ∀ n, Agree Record.core n a b)
    (hgrows : a.Grows b) : b.Linked x y := by
  obtain ⟨hne, r, o, hr, ho, hsame, hcomp⟩ := h
  obtain ⟨r', hr', hsub⟩ := hgrows x r hr
  obtain ⟨o', ho', hsub'⟩ := hgrows y o ho
  refine ⟨hne, r', o', hr', ho', ?_, hcomp.imp (hsub y) (hsub' x)⟩
  obtain ⟨p, hp, hpr⟩ := (hcore x).get? hr'
  obtain ⟨q, hq, hqo⟩ := (hcore y).get? ho'
  obtain rfl := Option.some.inj (hr.symm.trans hp)
  obtain rfl := Option.some.inj (ho.symm.trans hq)
  rw [hqo, hpr, hsame]

/-- Links depend on cores and competitors only. -/
theorem Linked.congr (h : a.Linked x y) (hagree : ∀ n, Agree Record.stance n a b) :
    b.Linked x y :=
  h.mono (fun n => (hagree n).comp Prod.fst) (grows_of_agree fun n => (hagree n).comp Prod.snd)

/-! ### What a decision looks at -/

theorem mem_rivals {e : String × Record} :
    e ∈ a.rivals r ↔
      e.1 ∈ r.competitors ∧ a.tasks.get? e.1 = some e.2 ∧ e.2.core = r.core := by
  obtain ⟨other, o⟩ := e
  simp only [rivals, List.mem_filterMap]
  constructor
  · rintro ⟨c, hc, heq⟩
    split at heq
    · rename_i p hp
      split at heq
      · obtain ⟨rfl, rfl⟩ := Prod.mk.inj (Option.some.inj heq)
        exact ⟨hc, hp, ‹_›⟩
      · cases heq
    · cases heq
  · rintro ⟨hc, hget, hcore⟩
    exact ⟨other, hc, by simp only [hget, if_pos hcore]⟩

theorem isClaimed_iff (hr : a.tasks.get? name = some r) :
    a.isClaimed name = true ↔
      ∃ other o, other ≠ name ∧ a.tasks.get? other = some o ∧ o.core = r.core ∧
        name ∈ o.competitors := by
  simp only [isClaimed, hr, List.any_eq_true, Bool.and_eq_true, bne_iff_ne, decide_eq_true_eq,
    Prod.exists]
  constructor
  · rintro ⟨other, o, hmem, ⟨hne, hcore⟩, hcomp⟩
    exact ⟨other, o, hne, OrderedMap.get?_of_mem_entries hmem, hcore, hcomp⟩
  · rintro ⟨other, o, hne, hget, hcore, hcomp⟩
    exact ⟨other, o, OrderedMap.mem_entries_of_get? hget, ⟨hne, hcore⟩, hcomp⟩

/-- A link shows among the rivals of a task or in a claim. -/
theorem rival_or_claimed_of_linked (hr : a.tasks.get? x = some r) (h : a.Linked x y) :
    (a.rivals r).isEmpty = false ∨ a.isClaimed x = true := by
  obtain ⟨hne, p, o, hp, ho, hcore, hcomp⟩ := h
  obtain rfl := Option.some.inj (hr.symm.trans hp)
  rcases hcomp with hcomp | hcomp
  · have hmem : (y, o) ∈ a.rivals r := mem_rivals.2 ⟨hcomp, ho, hcore⟩
    exact .inl (List.isEmpty_eq_false_iff.2 (List.ne_nil_of_mem hmem))
  · exact .inr ((isClaimed_iff hr).2 ⟨y, o, hne.symm, ho, hcore, hcomp⟩)

/-- The winner is one of the tasks that are compared. -/
theorem mem_of_leader? {goal : Goal} {bar : Metric} {tasks : List (String × Record)}
    {winner : String × Metric} (h : leader? goal bar tasks = some winner) :
    ∃ o, (winner.1, o) ∈ tasks := by
  have hall : ∀ w, leader? goal bar tasks = some w → ∃ o, (w.1, o) ∈ tasks := by
    unfold leader?
    refine List.foldlRecOn (motive := fun best : Option (String × Metric) =>
      ∀ w, best = some w → ∃ o, (w.1, o) ∈ tasks) _ _ (fun w h => by cases h) ?_
    rintro best hbest ⟨other, o⟩ hmem w hw
    dsimp only at hw
    split at hw
    · exact hbest w hw
    · split at hw
      · cases hw
        exact ⟨o, hmem⟩
      · exact hbest w hw
  exact hall winner h

/-- Under an active goal every task has something to show. -/
theorem metric_of_isActive {goal : Goal} (h : goal.isActive = true) (r : Record) :
    ∃ m, goal.metric r = some m := by
  cases goal with
  | none => cases h
  | fairness => exact ⟨_, rfl⟩
  | utilization => exact ⟨_, rfl⟩

theorem mem_claimants :
    x ∈ a.claimants name ↔ x ≠ name ∧ ∃ o, a.tasks.get? x = some o ∧ name ∈ o.competitors := by
  simp only [claimants, OrderedMap.keys, OrderedMap.filter, OrderedMap.erase, List.mem_map,
    List.mem_filter, decide_eq_true_eq, Prod.exists, exists_and_right, exists_eq_right]
  constructor
  · rintro ⟨o, ⟨hmem, hne⟩, hcomp⟩
    exact ⟨hne, o, OrderedMap.get?_of_mem_entries hmem, hcomp⟩
  · rintro ⟨hne, o, hget, hcomp⟩
    exact ⟨o, ⟨OrderedMap.mem_entries_of_get? hget, hne⟩, hcomp⟩

/-! ### Permissions -/

theorem get?_permit (a : Arbiter) (name : String) (allowed : Bool) (n : String) :
    (a.permit name allowed).tasks.get? n =
      if n = name then (a.tasks.get? n).map fun r => { r with allowed } else a.tasks.get? n :=
  get?_modify a name _ n

/-- A task whose permission is not changed. -/
theorem get?_permit_of_ne {n : String} (hn : n ≠ name) (a : Arbiter) (allowed : Bool) :
    (a.permit name allowed).tasks.get? n = a.tasks.get? n := by
  rw [get?_permit, if_neg hn]

/-- Who is denied after one task has been permitted is another task. -/
theorem denied_of_permit (h : (a.permit name true).tasks.get? x = some r)
    (hdenied : r.allowed = false) : x ≠ name ∧ a.tasks.get? x = some r := by
  rw [get?_permit] at h
  split at h
  · obtain ⟨o, -, rfl⟩ := Option.map_eq_some_iff.1 h
    cases hdenied
  · exact ⟨‹_›, h⟩

/-- Denying some tasks does not concern any other. -/
theorem get?_foldl_permit {rivals : List (String × Record)} {n : String}
    (hn : ∀ e ∈ rivals, e.1 ≠ n) (a : Arbiter) (allowed : Bool) :
    (rivals.foldl (fun a e => a.permit e.1 allowed) a).tasks.get? n = a.tasks.get? n := by
  induction rivals generalizing a with
  | nil => rfl
  | cons e rivals ih =>
    rw [List.foldl_cons, ih fun e he => hn e (List.mem_cons_of_mem _ he)]
    exact get?_permit_of_ne (hn e List.mem_cons_self).symm a allowed

/-- Who is denied after a decision is linked with another task, or has been denied before and is
not the task that the decision is about. -/
theorem linked_or_denied_of_arbitrate (hactive : a.config.goal.isActive = true)
    (hself : ∀ {r}, a.tasks.get? name = some r → name ∉ r.competitors) {r' : Record}
    (hx : (a.arbitrate name).tasks.get? x = some r') (hdenied : r'.allowed = false) :
    (∃ y, a.Linked x y) ∨ x ≠ name ∧ a.tasks.get? x = some r' := by
  unfold arbitrate at hx
  cases hr : a.tasks.get? name with
  | none =>
    simp only [hr] at hx
    refine .inr ⟨?_, hx⟩
    rintro rfl
    rw [hr] at hx
    cases hx
  | some r =>
    obtain ⟨own, hown⟩ := metric_of_isActive hactive r
    simp only [hr, hown] at hx
    split at hx
    · -- no competitor on the core
      split at hx
      · rename_i hclaimed
        by_cases heq : x = name
        · subst heq
          obtain ⟨other, o, hne, ho, hcore, hcomp⟩ := (isClaimed_iff hr).1 hclaimed
          exact .inl ⟨other, hne.symm, r, o, hr, ho, hcore, .inr hcomp⟩
        · exact .inr ⟨heq, hx⟩
      · exact .inr (denied_of_permit hx hdenied)
    · have hrival : ∀ {e}, e ∈ a.rivals r → e.1 ≠ name ∧ a.Linked name e.1 ∧ a.Linked e.1 name := by
        intro e he
        obtain ⟨hcomp, ho, hcore⟩ := mem_rivals.1 he
        have hne : e.1 ≠ name := fun heq => hself hr (heq ▸ hcomp)
        exact ⟨hne, ⟨hne.symm, r, e.2, hr, ho, hcore, .inl hcomp⟩,
          ⟨hne, e.2, r, ho, hr, hcore.symm, .inr hcomp⟩⟩
      split at hx
      · -- the task is ahead of its rivals, and they are denied
        by_cases hmem : ∃ e ∈ a.rivals r, e.1 = x
        · obtain ⟨e, he, rfl⟩ := hmem
          exact .inl ⟨name, (hrival he).2.2⟩
        · rw [get?_foldl_permit fun e he heq => hmem ⟨e, he, heq⟩] at hx
          exact .inr (denied_of_permit hx hdenied)
      · -- one of the rivals is ahead, and the task is denied
        rename_i winner _ hwinner
        obtain ⟨o, hmem⟩ := mem_of_leader? hwinner
        obtain ⟨hwin, hx⟩ := denied_of_permit hx hdenied
        by_cases heq : x = name
        · subst heq
          exact .inl ⟨winner, (hrival hmem).2.1⟩
        · exact .inr ⟨heq, by rwa [get?_permit_of_ne heq] at hx⟩

end Arbiter

end RealTime
