import Mathlib.Logic.ExistsUnique
import RealTime.Proofs.Arbiter.Consistency
import RealTime.Proofs.Arbiter.Decisions

/-! # Who is permitted after a decision

A decision about a task looks at the tasks that it `Faces`: its competitors on its own core.  What
it does is a ruling (`Ruled`), which permits some tasks, denies some others and changes nothing
else.  There are three outcomes.

* `ruled_of_keeps`     nobody is ahead of the task: it is permitted, and all that it faces are denied
* `ruled_of_passes`    its successor is permitted, and the task is denied
* `ruled_of_unopposed` the task faces nobody: it is permitted, unless another task faces it

When the permission is passed on, the other competitors keep what earlier decisions gave them.  So
one of the task and its competitors is permitted after each decision, but it need not be the only
one (`exists_permitted`). -/

namespace RealTime.Arbiter

variable {a b : Arbiter} {x y z w n : String} {r : Record} {yes no : String → Prop}

/-! ### Tasks that face each other -/

/-- A task names another one on its core as a competitor. -/
def Faces (a : Arbiter) (x y : String) : Prop :=
  ∃ r o, a.tasks.get? x = some r ∧ a.tasks.get? y = some o ∧ o.core = r.core ∧ y ∈ r.competitors

instance (a : Arbiter) (x y : String) : Decidable (a.Faces x y) :=
  match hx : a.tasks.get? x, hy : a.tasks.get? y with
  | none, _ => isFalse fun ⟨_, _, hr, _⟩ => nomatch hx.symm.trans hr
  | some _, none => isFalse fun ⟨_, _, _, ho, _⟩ => nomatch hy.symm.trans ho
  | some r, some o =>
    decidable_of_iff (o.core = r.core ∧ y ∈ r.competitors)
      ⟨fun h => ⟨r, o, hx, hy, h⟩, fun ⟨_, _, hr, ho, h⟩ => by
        rw [hx] at hr
        rw [hy] at ho
        cases hr
        cases ho
        exact h⟩

/-- A task itself, and those that it faces. -/
def Contends (a : Arbiter) (x y : String) : Prop := y = x ∨ a.Faces x y

theorem faces_iff (hr : a.tasks.get? x = some r) : a.Faces x y ↔ ∃ o, (y, o) ∈ a.rivals r := by
  constructor
  · intro ⟨r', o, hr', ho, hcore, hcomp⟩
    obtain rfl := Option.some.inj (hr.symm.trans hr')
    exact ⟨o, mem_rivals.2 ⟨hcomp, ho, hcore⟩⟩
  · intro ⟨o, hmem⟩
    obtain ⟨hcomp, ho, hcore⟩ := mem_rivals.1 hmem
    exact ⟨r, o, hr, ho, hcore, hcomp⟩

theorem rivals_eq_nil_iff (hr : a.tasks.get? x = some r) :
    a.rivals r = [] ↔ ∀ y, ¬ a.Faces x y := by
  rw [List.eq_nil_iff_forall_not_mem]
  constructor
  · intro h y hy
    obtain ⟨o, hmem⟩ := (faces_iff hr).1 hy
    exact h _ hmem
  · exact fun h e he => h e.1 ((faces_iff hr).2 ⟨e.2, he⟩)

/-- A claim is made by a task that faces the claimed one. -/
theorem isClaimed_iff_faces (hr : a.tasks.get? x = some r) (hself : ¬ a.Faces x x) :
    a.isClaimed x = true ↔ ∃ z, a.Faces z x := by
  rw [isClaimed_iff hr]
  constructor
  · intro ⟨z, o, _, ho, hcore, hcomp⟩
    exact ⟨z, o, r, ho, hr, hcore.symm, hcomp⟩
  · intro ⟨z, o, r', ho, hr', hcore, hcomp⟩
    have hne : z ≠ x := by
      intro heq
      subst heq
      exact hself ⟨o, r', ho, hr', hcore, hcomp⟩
    obtain rfl := Option.some.inj (hr.symm.trans hr')
    exact ⟨z, o, hne, ho, hcore.symm, hcomp⟩

/-- No task is its own competitor. -/
theorem Consistent.not_faces_self (h : a.Consistent) (x : String) : ¬ a.Faces x x := by
  intro ⟨r, _, hr, _, _, hcomp⟩
  exact (h.competitor hr hcomp).1 rfl

theorem Faces.get?_right (h : a.Faces x y) : ∃ o, a.tasks.get? y = some o := by
  obtain ⟨_, o, _, ho, _⟩ := h
  exact ⟨o, ho⟩

theorem Contends.get? (h : a.Contends x y) (hr : a.tasks.get? x = some r) :
    ∃ o, a.tasks.get? y = some o := by
  cases h with
  | inl heq => exact ⟨r, heq ▸ hr⟩
  | inr hfaces => exact hfaces.get?_right

/-! ### Rulings -/

/-- Some tasks have been permitted and some others denied, and nothing else has changed. -/
structure Ruled (a b : Arbiter) (yes no : String → Prop) : Prop where
  rest : { b with tasks := a.tasks } = a
  permitted : ∀ {n}, yes n →
    b.tasks.get? n = (a.tasks.get? n).map fun r => { r with allowed := true }
  denied : ∀ {n}, no n →
    b.tasks.get? n = (a.tasks.get? n).map fun r => { r with allowed := false }
  untouched : ∀ {n}, ¬ yes n → ¬ no n → b.tasks.get? n = a.tasks.get? n

theorem isAllowed_eq_ok_iff {v : Bool} :
    a.isAllowed n = .ok v ↔ (a.tasks.get? n).map Record.allowed = some v := by
  unfold isAllowed
  cases a.tasks.get? n with
  | none => simp
  | some r => simp

instance (a : Arbiter) (n : String) (v : Bool) : Decidable (a.isAllowed n = .ok v) :=
  decidable_of_iff _ isAllowed_eq_ok_iff.symm

/-- What the answer about a supervised task is after a ruling. -/
theorem Ruled.isAllowed_eq (h : Ruled a b yes no) (hr : a.tasks.get? n = some r) :
    (yes n → b.isAllowed n = .ok true) ∧ (no n → b.isAllowed n = .ok false) ∧
      (¬ yes n → ¬ no n → b.isAllowed n = a.isAllowed n) := by
  refine ⟨fun hyes => ?_, fun hno => ?_, fun hyes hno => ?_⟩
  · rw [isAllowed, h.permitted hyes, hr]
    rfl
  · rw [isAllowed, h.denied hno, hr]
    rfl
  · rw [isAllowed, isAllowed, h.untouched hyes hno, hr]

/-! ### The outcomes of a decision -/

/-- Everyone on a list is permitted, or everyone denied. -/
theorem get?_foldl_permit_of_mem {rivals : List (String × Record)} (hn : ∃ e ∈ rivals, e.1 = n)
    (a : Arbiter) (allowed : Bool) :
    (rivals.foldl (fun a e => a.permit e.1 allowed) a).tasks.get? n =
      (a.tasks.get? n).map fun r => { r with allowed } := by
  induction rivals generalizing a with
  | nil =>
    obtain ⟨e, he, _⟩ := hn
    cases he
  | cons e rivals ih =>
    rw [List.foldl_cons]
    by_cases hlater : ∃ e ∈ rivals, e.1 = n
    · rw [ih hlater, get?_permit]
      split
      · rw [Option.map_map]
        rfl
      · rfl
    · -- nobody after `e` has this name, so `e` has it
      have hout : ∀ e ∈ rivals, e.1 ≠ n := fun e he heq => hlater ⟨e, he, heq⟩
      have he : n = e.1 := by
        obtain ⟨e', he', rfl⟩ := hn
        cases List.mem_cons.1 he' with
        | inl heq => rw [heq]
        | inr hmem => exact absurd rfl (hout e' hmem)
      rw [get?_foldl_permit hout, get?_permit, if_pos he]

theorem rest_foldl_permit (rivals : List (String × Record)) (a : Arbiter) (allowed : Bool)
    (tasks : OrderedMap String Record) :
    { rivals.foldl (fun a e => a.permit e.1 allowed) a with tasks } = { a with tasks } := by
  induction rivals generalizing a with
  | nil => rfl
  | cons e rivals ih =>
    rw [List.foldl_cons, ih]
    rfl

/-- The competitor that takes over the permission of a task. -/
def successor? (a : Arbiter) (x : String) : Option String :=
  match a.tasks.get? x with
  | none => none
  | some r =>
    match a.config.goal.metric r with
    | none => none
    | some own => (leader? a.config.goal (own.plus a.config.acceptance) (a.rivals r)).map (·.1)

theorem successor?_eq {own : Metric} (hr : a.tasks.get? x = some r)
    (hown : a.config.goal.metric r = some own) :
    a.successor? x =
      (leader? a.config.goal (own.plus a.config.acceptance) (a.rivals r)).map (·.1) := by
  simp only [successor?, hr, hown]

/-- The successor is one of those that the task faces. -/
theorem faces_of_successor? (h : a.successor? x = some w) : a.Faces x w := by
  unfold successor? at h
  split at h
  · cases h
  · rename_i r hr
    split at h
    · cases h
    · obtain ⟨winner, hwinner, rfl⟩ := Option.map_eq_some_iff.1 h
      exact (faces_iff hr).2 (mem_of_leader? hwinner)

/-- The decision about a task that faces another one. -/
theorem arbitrate_of_rivals {own : Metric} (hr : a.tasks.get? x = some r)
    (hown : a.config.goal.metric r = some own) (hne : a.rivals r ≠ []) :
    a.arbitrate x =
      match a.successor? x with
      | none => (a.rivals r).foldl (fun a e => a.permit e.1 false) (a.permit x true)
      | some w => (a.permit x false).permit w true := by
  rw [successor?_eq hr hown]
  unfold arbitrate
  simp only [hr, hown]
  cases hrivals : a.rivals r with
  | nil => exact absurd hrivals hne
  | cons e rivals =>
    cases leader? a.config.goal (own.plus a.config.acceptance) (e :: rivals) with
    | none => rfl
    | some winner => rfl

/-- Without a successor a task keeps its permission, and all that it faces are denied. -/
theorem ruled_of_keeps (hactive : a.config.goal.isActive = true) (hself : ¬ a.Faces x x)
    (hfaces : ∃ y, a.Faces x y) (hkeeps : a.successor? x = none) :
    Ruled a (a.arbitrate x) (· = x) (a.Faces x) := by
  obtain ⟨y, hy⟩ := hfaces
  obtain ⟨r, -, hr, -⟩ := id hy
  obtain ⟨own, hown⟩ := metric_of_isActive hactive r
  have hne : a.rivals r ≠ [] := fun hnil => (rivals_eq_nil_iff hr).1 hnil y hy
  have hmem : ∀ {n}, a.Faces x n ↔ ∃ e ∈ a.rivals r, e.1 = n := by
    intro n
    rw [faces_iff hr]
    simp only [Prod.exists, exists_and_right, exists_eq_right]
  rw [arbitrate_of_rivals hr hown hne, hkeeps]
  refine ⟨rest_foldl_permit _ _ _ _, ?permitted, ?denied, ?untouched⟩
  case permitted =>
    intro n hn
    have hout : ∀ e ∈ a.rivals r, e.1 ≠ n := fun e he heq =>
      hself (hmem.2 ⟨e, he, heq.trans hn⟩)
    simp only [get?_foldl_permit hout, get?_permit, if_pos hn]
  case denied =>
    intro n hn
    have hnx : n ≠ x := by
      intro heq
      exact hself (heq ▸ hn)
    simp only [get?_foldl_permit_of_mem (hmem.1 hn), get?_permit_of_ne hnx]
  case untouched =>
    intro n hnx hn
    have hout : ∀ e ∈ a.rivals r, e.1 ≠ n := fun e he heq => hn (hmem.2 ⟨e, he, heq⟩)
    simp only [get?_foldl_permit hout, get?_permit_of_ne hnx]

/-- The permission passes to the successor. -/
theorem ruled_of_passes (hself : ¬ a.Faces x x) (hpasses : a.successor? x = some w) :
    Ruled a (a.arbitrate x) (· = w) (· = x) := by
  have hw := faces_of_successor? hpasses
  have hwx : w ≠ x := by
    intro heq
    exact hself (heq ▸ hw)
  obtain ⟨r, -, hr, -⟩ := id hw
  have hne : a.rivals r ≠ [] := fun hnil => (rivals_eq_nil_iff hr).1 hnil w hw
  obtain ⟨own, hown⟩ : ∃ own, a.config.goal.metric r = some own := by
    cases hown : a.config.goal.metric r with
    | none => simp [successor?, hr, hown] at hpasses
    | some own => exact ⟨own, rfl⟩
  rw [arbitrate_of_rivals hr hown hne, hpasses]
  refine ⟨rfl, ?permitted, ?denied, ?untouched⟩
  case permitted =>
    intro n hn
    have hnx : n ≠ x := hn ▸ hwx
    simp only [get?_permit, if_pos hn, if_neg hnx]
  case denied =>
    intro n hn
    have hnw : n ≠ w := hn ▸ hwx.symm
    simp only [get?_permit, if_neg hnw, if_pos hn]
  case untouched =>
    intro n hnw hnx
    simp only [get?_permit, if_neg hnw, if_neg hnx]

/-- A task that faces nobody is permitted, unless another task faces it and decides about it. -/
theorem ruled_of_unopposed (hactive : a.config.goal.isActive = true) (hself : ¬ a.Faces x x)
    (hr : a.tasks.get? x = some r) (hnone : ∀ y, ¬ a.Faces x y) :
    ((∃ z, a.Faces z x) → a.arbitrate x = a) ∧
      ((¬ ∃ z, a.Faces z x) → Ruled a (a.arbitrate x) (· = x) fun _ => False) := by
  obtain ⟨own, hown⟩ := metric_of_isActive hactive r
  have hdecision : a.arbitrate x = if a.isClaimed x then a else a.permit x true := by
    simp only [arbitrate, hr, hown, (rivals_eq_nil_iff hr).2 hnone]
  rw [hdecision, ← isClaimed_iff_faces hr hself]
  constructor
  · intro hclaimed
    rw [if_pos hclaimed]
  · intro hfree
    rw [if_neg hfree]
    refine ⟨rfl, ?permitted, False.elim, ?untouched⟩
    case permitted =>
      intro n hn
      rw [get?_permit, if_pos hn]
    case untouched =>
      intro n hn _
      exact get?_permit_of_ne hn a true

/-! ### Contenders that are permitted -/

/-- A task that keeps the permission is the only contender that is permitted. -/
theorem isAllowed_of_keeps (hactive : a.config.goal.isActive = true) (hself : ¬ a.Faces x x)
    (hfaces : ∃ y, a.Faces x y) (hkeeps : a.successor? x = none) (hy : a.Contends x y) :
    (a.arbitrate x).isAllowed y = .ok true ↔ y = x := by
  have hruled := ruled_of_keeps hactive hself hfaces hkeeps
  obtain ⟨_, r, _, hr, _⟩ := id hfaces
  obtain ⟨o, ho⟩ := hy.get? hr
  have hanswer := hruled.isAllowed_eq ho
  constructor
  · intro hallowed
    cases hy with
    | inl heq => exact heq
    | inr hfaces =>
      rw [hanswer.2.1 hfaces] at hallowed
      cases hallowed
  · exact hanswer.1

/-- When the permission passes to a successor, the other competitors keep theirs. -/
theorem isAllowed_of_passes (hself : ¬ a.Faces x x) (hpasses : a.successor? x = some w)
    (hy : a.Contends x y) :
    (a.arbitrate x).isAllowed y = .ok true ↔ y = w ∨ y ≠ x ∧ a.isAllowed y = .ok true := by
  have hruled := ruled_of_passes hself hpasses
  obtain ⟨r, _, hr, _⟩ := faces_of_successor? hpasses
  obtain ⟨o, ho⟩ := hy.get? hr
  have hanswer := hruled.isAllowed_eq ho
  by_cases hyw : y = w
  · exact iff_of_true (hanswer.1 hyw) (.inl hyw)
  · by_cases hyx : y = x
    · rw [hanswer.2.1 hyx]
      exact iff_of_false (by simp) fun h => h.elim hyw fun h => h.1 hyx
    · rw [hanswer.2.2 hyw hyx]
      simp [hyw, hyx]

/-- A task that keeps the permission has it alone. -/
theorem existsUnique_of_keeps (hactive : a.config.goal.isActive = true) (hself : ¬ a.Faces x x)
    (hfaces : ∃ y, a.Faces x y) (hkeeps : a.successor? x = none) :
    ∃! y, a.Contends x y ∧ (a.arbitrate x).isAllowed y = .ok true := by
  have hiff : ∀ y, a.Contends x y → ((a.arbitrate x).isAllowed y = .ok true ↔ y = x) :=
    fun y => isAllowed_of_keeps hactive hself hfaces hkeeps
  have hx : a.Contends x x := .inl rfl
  exact ⟨x, ⟨hx, (hiff x hx).2 rfl⟩, fun y ⟨hy, hallowed⟩ => (hiff y hy).1 hallowed⟩

/-- A successor is permitted. -/
theorem contends_of_successor? (hself : ¬ a.Faces x x) (hpasses : a.successor? x = some w) :
    a.Contends x w ∧ (a.arbitrate x).isAllowed w = .ok true := by
  have hw : a.Contends x w := .inr (faces_of_successor? hpasses)
  exact ⟨hw, (isAllowed_of_passes hself hpasses hw).2 (.inl rfl)⟩

/-- A successor has the permission alone if nobody else has been left with one. -/
theorem existsUnique_iff_of_passes (hself : ¬ a.Faces x x) (hpasses : a.successor? x = some w) :
    (∃! y, a.Contends x y ∧ (a.arbitrate x).isAllowed y = .ok true) ↔
      ∀ z, a.Faces x z → z ≠ w → a.isAllowed z = .ok false := by
  have hiff : ∀ y, a.Contends x y →
      ((a.arbitrate x).isAllowed y = .ok true ↔ y = w ∨ y ≠ x ∧ a.isAllowed y = .ok true) :=
    fun y => isAllowed_of_passes hself hpasses
  have hw := contends_of_successor? hself hpasses
  constructor
  · -- whoever else was permitted before still is
    intro ⟨u, _, hunique⟩ z hz hzw
    obtain ⟨o, ho⟩ := hz.get?_right
    cases hallowed : o.allowed with
    | false => exact isAllowed_eq_ok_iff.2 (by rw [ho, Option.map_some, hallowed])
    | true =>
      have hold : a.isAllowed z = .ok true :=
        isAllowed_eq_ok_iff.2 (by rw [ho, Option.map_some, hallowed])
      have hzx : z ≠ x := by
        intro heq
        exact hself (heq ▸ hz)
      have hzu : z = u := hunique z ⟨.inr hz, (hiff z (.inr hz)).2 (.inr ⟨hzx, hold⟩)⟩
      exact absurd (hzu.trans (hunique w hw).symm) hzw
  · intro hdenied
    refine ⟨w, hw, fun y ⟨hy, hallowed⟩ => ?_⟩
    cases (hiff y hy).1 hallowed with
    | inl heq => exact heq
    | inr hold =>
      refine Decidable.byContradiction fun hyw => ?_
      have hfalse := hdenied y (hy.resolve_left hold.1) hyw
      rw [hold.2] at hfalse
      cases hfalse

/-- Under an active goal, one of a task and its competitors on the core is permitted right after the
decision about the task.  It is the only one exactly if, where the permission passes to a successor,
all other competitors have been denied before. -/
theorem exists_permitted {cores : Nat} {rs : List Request}
    (hactive : (run { cores } rs).config.goal.isActive = true)
    (hfaces : ∃ y, (run { cores } rs).Faces x y) :
    (∃ y, (run { cores } rs).Contends x y ∧
      ((run { cores } rs).arbitrate x).isAllowed y = .ok true) ∧
    ((∃! y, (run { cores } rs).Contends x y ∧
        ((run { cores } rs).arbitrate x).isAllowed y = .ok true) ↔
      ∀ w z, (run { cores } rs).successor? x = some w → (run { cores } rs).Faces x z → z ≠ w →
        (run { cores } rs).isAllowed z = .ok false) := by
  have hself := (run_consistent cores rs).not_faces_self x
  cases hsucc : (run { cores } rs).successor? x with
  | none =>
    have hunique := existsUnique_of_keeps hactive hself hfaces hsucc
    refine ⟨hunique.exists, iff_of_true hunique ?_⟩
    intro w z hw
    cases hw
  | some w =>
    refine ⟨⟨w, contends_of_successor? hself hsucc⟩, ?_⟩
    rw [existsUnique_iff_of_passes hself hsucc]
    constructor
    · intro hdenied w' z hw' hz hzw
      obtain rfl := Option.some.inj hw'
      exact hdenied z hz hzw
    · exact fun hdenied z => hdenied w z rfl

/-! Three tasks on one core.  The deadlines of two jobs of `a` pass, the first because of `b` and the
second because of `c`. -/

/-- The first jobs of `a` and `b`. -/
def firstJobs : List JobRecord :=
  [{ id := 1, task := "a", core := 0, arrival := 1000, exit := 0, execution := 0 },
    { id := 2, task := "b", core := 0, arrival := 500, exit := 5000, execution := 4500 }]

/-- The next job of `a`, and a job of `c`. -/
def nextJobs : List JobRecord :=
  [{ id := 3, task := "a", core := 0, arrival := 11000, exit := 0, execution := 0 },
    { id := 4, task := "c", core := 0, arrival := 10500, exit := 15000, execution := 3000 }]

/-- The jobs are judged in two polls. -/
def contest (goal : Goal) : List Request :=
  [.setGoal { goal },
    .add 0 { name := "a", deadline := 10000, interArrival := 10000 },
    .add 0 { name := "b", deadline := 10000, interArrival := 10000 },
    .add 0 { name := "c", deadline := 10000, interArrival := 10000 },
    .poll { now := 12000, jobs := firstJobs, terminated := [] },
    .poll { now := 25000, jobs := firstJobs ++ nextJobs, terminated := [] }]

/-- The arbiter after these requests. -/
def contested (goal : Goal) : Arbiter := run { cores := 1 } (contest goal)

/-- Under fairness `a` keeps the permission, and both others are denied. -/
theorem exists_permitted_contested :
    (contested .fairness).config.goal.isActive = true ∧
      (∃ y, (contested .fairness).Faces "a" y) ∧
      ∃! y, (contested .fairness).Contends "a" y ∧
        ((contested .fairness).arbitrate "a").isAllowed y = .ok true := by
  have hactive : (contested .fairness).config.goal.isActive = true := by decide +kernel
  have hfaces : ∃ y, (contested .fairness).Faces "a" y := ⟨"b", by decide +kernel⟩
  have hkeeps : (contested .fairness).successor? "a" = none := by decide +kernel
  refine ⟨hactive, hfaces, (exists_permitted hactive hfaces).2.2 ?_⟩
  intro w z hw
  exact absurd (hkeeps.symm.trans hw) nofun

/-- Without the condition the statement is false: under utilization the permission of `a` passes to
`b`, and nobody denies `c`. -/
theorem permitted_twice :
    ¬ ∀ (cores : Nat) (rs : List Request) (x : String),
      (run { cores } rs).config.goal.isActive = true →
      (∃ y, (run { cores } rs).Faces x y) →
      ∃! y, (run { cores } rs).Contends x y ∧
        ((run { cores } rs).arbitrate x).isAllowed y = .ok true := by
  intro h
  obtain ⟨u, _, hunique⟩ := h 1 (contest .utilization) "a" (by decide +kernel)
    ⟨"b", by decide +kernel⟩
  have hb : "b" = u := hunique "b" ⟨.inr (by decide +kernel), by decide +kernel⟩
  have hc : "c" = u := hunique "c" ⟨.inr (by decide +kernel), by decide +kernel⟩
  exact absurd (hb.trans hc.symm) (by decide)

end RealTime.Arbiter
