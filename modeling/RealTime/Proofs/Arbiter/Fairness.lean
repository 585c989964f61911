import Mathlib.Data.List.Induction
import RealTime.Proofs.Arbiter.Rulings

/-! # Decisions under fairness

Under fairness the debts on the common core are compared.  One pass over the competitors of a task
finds the first one with the largest debt, as long as that debt exceeds the bar: the task's own debt
and the accepted margin (`foremost_leader?`).  Competitors are visited in the order of their names,
so among equal debts the first name wins.

* `Leads`               the largest debt of all that a task faces, the first by name among equals
* `successor?_eq_none`  when the task keeps the permission
* `leads_of_successor?` who takes it over
* `fairness_decision`   what a decision does after every history of requests -/

namespace RealTime.Arbiter

variable {a : Arbiter} {x y w : String} {r o : Record} {bar : Nat} {l : List (String × Record)}

/-- The debt of a task on its own core. -/
def debtOf (a : Arbiter) (n : String) : Nat :=
  match a.tasks.get? n with
  | some r => r.debt
  | none => 0

theorem debtOf_eq (hr : a.tasks.get? x = some r) : a.debtOf x = r.debt := by
  simp only [debtOf, hr]

/-- A task has the largest debt of all that another task faces, and the first name among those who
have it. -/
structure Leads (a : Arbiter) (x w : String) : Prop where
  faces : a.Faces x w
  debt_le : ∀ {y}, a.Faces x y → a.debtOf y ≤ a.debtOf w
  first : ∀ {y}, a.Faces x y → a.debtOf y = a.debtOf w → w ≤ y

/-- There is only one such task. -/
theorem Leads.unique {w' : String} (h : a.Leads x w) (h' : a.Leads x w') : w = w' := by
  have hdebt : a.debtOf w = a.debtOf w' := Nat.le_antisymm (h'.debt_le h.faces) (h.debt_le h'.faces)
  exact Std.le_antisymm (h.first h'.faces hdebt.symm) (h'.first h.faces hdebt)

/-! ### One pass over some tasks -/

/-- What a pass over some tasks has found: nobody, if no debt exceeds the bar, and otherwise a task
with a larger debt than all before it and no smaller one than all behind it. -/
def Foremost (bar : Nat) (l : List (String × Record)) : Option (String × Metric) → Prop
  | none => ∀ e ∈ l, e.2.debt ≤ bar
  | some (w, m) => ∃ pre o post, l = pre ++ (w, o) :: post ∧ m = .debt o.debt ∧ bar < o.debt ∧
      (∀ e ∈ pre, e.2.debt < o.debt) ∧ ∀ e ∈ post, e.2.debt ≤ o.debt

/-- One more task is visited. -/
theorem Foremost.visit {best : Option (String × Metric)} (h : Foremost bar l best)
    (e : String × Record) :
    Foremost bar (l ++ [e])
      (if (Metric.debt e.2.debt).exceeds (.debt bar) &&
          (best.all fun (_, m) => (Metric.debt e.2.debt).exceeds m) then
        some (e.1, .debt e.2.debt) else best) := by
  cases best with
  | none =>
    simp only [Metric.exceeds, Option.all_none, Bool.and_true, decide_eq_true_eq]
    split
    · rename_i hlt
      refine ⟨l, e.2, [], rfl, rfl, hlt, fun e' he' => ?_, nofun⟩
      have hle : e'.2.debt ≤ bar := h e' he'
      omega
    · rename_i hle
      intro e' he'
      cases List.mem_append.1 he' with
      | inl hold => exact h e' hold
      | inr hnew =>
        rw [List.mem_singleton.1 hnew]
        omega
  | some best =>
    obtain ⟨w, m⟩ := best
    obtain ⟨pre, o, post, rfl, rfl, hbar, hpre, hpost⟩ := h
    simp only [Metric.exceeds, Option.all_some, Bool.and_eq_true, decide_eq_true_eq]
    split
    · -- the new debt is larger than the largest so far, and so than all of them
      rename_i hlt
      refine ⟨pre ++ (w, o) :: post, e.2, [], rfl, rfl, hlt.1, fun e' he' => ?_, nofun⟩
      have hle : e'.2.debt ≤ o.debt := by
        rcases List.mem_append.1 he' with hmem | hmem
        · exact Nat.le_of_lt (hpre e' hmem)
        · rcases List.mem_cons.1 hmem with rfl | hmem
          · exact Nat.le_refl _
          · exact hpost e' hmem
      omega
    · rename_i hnot
      refine ⟨pre, o, post ++ [e], by simp, rfl, hbar, hpre, fun e' he' => ?_⟩
      cases List.mem_append.1 he' with
      | inl hold => exact hpost e' hold
      | inr hnew =>
        rw [List.mem_singleton.1 hnew]
        omega

/-- The whole pass. -/
theorem foremost_leader? (bar : Nat) (l : List (String × Record)) :
    Foremost bar l (leader? .fairness (.debt bar) l) := by
  induction l using List.reverseRecOn with
  | nil => exact nofun
  | append_singleton l e ih =>
    rw [leader?, List.foldl_append]
    exact ih.visit e

/-! ### The successor -/

/-- Competitors are visited in the order of their names. -/
theorem pairwise_rivals (a : Arbiter) (r : Record) :
    (a.rivals r).Pairwise fun e e' => e.1 < e'.1 := by
  unfold rivals
  refine List.Pairwise.filterMap _ ?_ r.competitors.ordered
  have hname : ∀ {n : String} {e : String × Record},
      (match a.tasks.get? n with
        | some other => if other.core = r.core then some (n, other) else none
        | none => none) = some e → e.1 = n := by
    intro n e he
    split at he
    · split at he
      · cases he
        rfl
      · cases he
    · cases he
  intro n n' hlt e he e' he'
  rw [hname he, hname he']
  exact hlt

/-- The pass that looks for the successor of a task. -/
theorem foremost_successor (hgoal : a.config.goal = .fairness) (hr : a.tasks.get? x = some r) :
    ∃ best, a.successor? x = best.map (·.1) ∧
      Foremost (a.debtOf x + a.config.acceptance) (a.rivals r) best := by
  have hown : a.config.goal.metric r = some (.debt r.debt) := by rw [hgoal]; rfl
  refine ⟨_, successor?_eq hr hown, ?_⟩
  rw [hgoal, debtOf_eq hr]
  exact foremost_leader? _ _

/-- A task keeps the permission if nobody that it faces has a larger debt, by more than the accepted
margin. -/
theorem successor?_eq_none (hgoal : a.config.goal = .fairness) (hr : a.tasks.get? x = some r) :
    a.successor? x = none ↔
      ∀ y, a.Faces x y → a.debtOf y ≤ a.debtOf x + a.config.acceptance := by
  obtain ⟨best, hbest, hforemost⟩ := foremost_successor hgoal hr
  cases best with
  | none =>
    refine iff_of_true hbest fun y hy => ?_
    obtain ⟨o, hmem⟩ := (faces_iff hr).1 hy
    rw [debtOf_eq (mem_rivals.1 hmem).2.1]
    exact hforemost _ hmem
  | some best =>
    obtain ⟨w, m⟩ := best
    obtain ⟨pre, o, post, hsplit, -, hbar, -, -⟩ := hforemost
    have hmem : (w, o) ∈ a.rivals r := hsplit ▸ List.mem_append_right _ List.mem_cons_self
    refine iff_of_false (fun hnone => nomatch hbest.symm.trans hnone) fun hall => ?_
    have hle := hall w ((faces_iff hr).2 ⟨o, hmem⟩)
    rw [debtOf_eq (mem_rivals.1 hmem).2.1] at hle
    exact absurd hbar (Nat.not_lt.2 hle)

/-- Who takes the permission over has the largest debt, and the first name among equals. -/
theorem leads_of_successor? (hgoal : a.config.goal = .fairness) (h : a.successor? x = some w) :
    a.Leads x w := by
  have hw := faces_of_successor? h
  obtain ⟨r, -, hr, -⟩ := id hw
  obtain ⟨best, hbest, hforemost⟩ := foremost_successor hgoal hr
  obtain ⟨⟨w', m⟩, rfl, heq⟩ := Option.map_eq_some_iff.1 (hbest.symm.trans h)
  obtain rfl : w' = w := heq
  obtain ⟨pre, o, post, hsplit, -, -, hpre, hpost⟩ := hforemost
  have hmem : (w', o) ∈ a.rivals r := hsplit ▸ List.mem_append_right _ List.mem_cons_self
  rw [← debtOf_eq (mem_rivals.1 hmem).2.1] at hpre hpost
  have hsorted := pairwise_rivals a r
  rw [hsplit] at hsorted
  have hbehind := (List.pairwise_cons.1 (List.pairwise_append.1 hsorted).2.1).1
  -- whoever is faced stands before the winner, is the winner, or stands behind it
  have hplace : ∀ {y}, a.Faces x y →
      a.debtOf y < a.debtOf w' ∨ y = w' ∨ w' < y ∧ a.debtOf y ≤ a.debtOf w' := by
    intro y hy
    obtain ⟨p, hp⟩ := (faces_iff hr).1 hy
    rw [debtOf_eq (mem_rivals.1 hp).2.1]
    rw [hsplit] at hp
    rcases List.mem_append.1 hp with hp | hp
    · exact .inl (hpre _ hp)
    · rcases List.mem_cons.1 hp with heq | hp
      · exact .inr (.inl (congrArg Prod.fst heq))
      · exact .inr (.inr ⟨hbehind _ hp, hpost _ hp⟩)
  refine ⟨hw, fun hy => ?debt_le, fun hy heq => ?first⟩
  case debt_le =>
    rcases hplace hy with hlt | rfl | ⟨-, hle⟩
    · exact Nat.le_of_lt hlt
    · exact Nat.le_refl _
    · exact hle
  case first =>
    rcases hplace hy with hlt | rfl | ⟨hlt, -⟩
    · omega
    · exact Std.le_refl _
    · exact Std.le_of_lt hlt

/-! ### All decisions -/

/-- What a decision under fairness does, after every history of requests.

If nobody that the task faces has a larger debt by more than the accepted margin, the task is
permitted, and all that it faces are denied.  Otherwise the one among them with the largest debt, the
first by name among equals, is permitted, and the task is denied.  A task that faces nobody is
permitted, unless another task faces it.  Nothing else changes. -/
theorem fairness_decision {cores : Nat} {rs : List Request}
    (hgoal : (run { cores } rs).config.goal = .fairness)
    (hx : (run { cores } rs).tasks.contains x = true) :
    let a := run { cores } rs
    ((∃ y, a.Faces x y) →
      (∀ y, a.Faces x y → a.debtOf y ≤ a.debtOf x + a.config.acceptance) →
      Ruled a (a.arbitrate x) (· = x) (a.Faces x)) ∧
    ((∃ y, a.Faces x y ∧ a.debtOf x + a.config.acceptance < a.debtOf y) →
      ∃ w, a.Leads x w ∧ Ruled a (a.arbitrate x) (· = w) (· = x)) ∧
    ((∀ y, ¬ a.Faces x y) →
      ((∃ z, a.Faces z x) → a.arbitrate x = a) ∧
      ((¬ ∃ z, a.Faces z x) → Ruled a (a.arbitrate x) (· = x) fun _ => False)) := by
  intro a
  have hactive : a.config.goal.isActive = true := by
    rw [show a.config.goal = .fairness from hgoal]
    rfl
  have hself : ¬ a.Faces x x := (run_consistent cores rs).not_faces_self x
  obtain ⟨r, hr⟩ : ∃ r, a.tasks.get? x = some r := OrderedMap.contains_iff.1 hx
  refine ⟨fun hfaces hle => ?keeps, fun ⟨y, hy, hlt⟩ => ?passes, fun hnone => ?unopposed⟩
  case keeps =>
    exact ruled_of_keeps hactive hself hfaces ((successor?_eq_none hgoal hr).2 hle)
  case passes =>
    cases hw : a.successor? x with
    | none =>
      have hle := (successor?_eq_none hgoal hr).1 hw y hy
      exact absurd hlt (Nat.not_lt.2 hle)
    | some w => exact ⟨w, leads_of_successor? hgoal hw, ruled_of_passes hself hw⟩
  case unopposed => exact ruled_of_unopposed hactive hself hr hnone

/-! A task on whose account two others are denied until they have equal debts, while it makes up for
its own. -/

/-- A job of `a`. -/
def jobOf (id arrival exit : Nat) : JobRecord :=
  { id, task := "a", core := 0, arrival, exit, execution := 0 }

/-- The jobs of `b` and `c` on whose account `a` is late. -/
def culprits : List JobRecord :=
  [{ id := 5, task := "b", core := 0, arrival := 500, exit := 5000, execution := 0 },
    { id := 6, task := "c", core := 0, arrival := 500, exit := 15000, execution := 0 }]

/-- Two jobs of `a` are late, the next two end in time. -/
def recovery : List Request :=
  [.setGoal { goal := .fairness },
    .add 0 { name := "a", deadline := 10000, interArrival := 10000 },
    .add 0 { name := "b", deadline := 20000, interArrival := 20000 },
    .add 0 { name := "c", deadline := 20000, interArrival := 20000 },
    .poll { now := 12000, jobs := jobOf 1 1000 0 :: culprits, terminated := [] },
    .poll { now := 22000, jobs := jobOf 2 11000 0 :: culprits, terminated := [] },
    .poll { now := 32000, jobs := [jobOf 3 21000 22500], terminated := [] },
    .poll { now := 42000, jobs := [jobOf 4 31000 32500], terminated := [] }]

/-- The arbiter after these requests. -/
def recovered : Arbiter := run { cores := 1 } recovery

/-- Tasks `b` and `c` owe the same, and `b` takes the permission over. -/
theorem fairness_decision_tie :
    recovered.config.goal = .fairness ∧ recovered.tasks.contains "a" = true ∧
      (recovered.debtOf "a" = 0 ∧ recovered.debtOf "b" = 1 ∧ recovered.debtOf "c" = 1) ∧
      recovered.Leads "a" "b" ∧
      Ruled recovered (recovered.arbitrate "a") (· = "b") (· = "a") := by
  have hgoal : recovered.config.goal = .fairness := by decide +kernel
  have ha : recovered.tasks.contains "a" = true := by decide +kernel
  have hb : recovered.Leads "a" "b" := leads_of_successor? hgoal (by decide +kernel)
  obtain ⟨w, hw, hruled⟩ := (fairness_decision hgoal ha).2.1
    ⟨"b", by decide +kernel, by decide +kernel⟩
  obtain rfl : w = "b" := hw.unique hb
  exact ⟨hgoal, ha, by decide +kernel, hb, hruled⟩

end RealTime.Arbiter
