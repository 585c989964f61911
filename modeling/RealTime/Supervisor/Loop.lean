import RealTime.Arbiter.Poll

/-! # Poll loops

A `Loop` polls the arbiter again and again.  It reads the goal, sleeps for the interval that
belongs to it, and polls if there still is a goal; without a goal it ends.  Loops share one
arbiter and run one after the other, each until it sleeps or ends.

* `lt_wake_of_run`     a loop that has run sleeps beyond the present
* `lt_wake_of_runAll`  so do all loops after each of them has had its turn -/

namespace RealTime

/-- Where a loop is. -/
inductive Phase where
  /-- It is about to read the goal. -/
  | ready
  /-- It sleeps until an instant. -/
  | asleep (wake : Nat)
  deriving DecidableEq, Repr

/-- A loop that has not ended. -/
structure Loop where
  id : Nat
  phase : Phase := .ready
  deriving DecidableEq, Repr

theorem GoalConfig.interval_pos (c : GoalConfig) : 0 < c.interval := by
  unfold GoalConfig.interval; omega

namespace Loop

/-- When a sleeping loop wakes. -/
def wake? (l : Loop) : Option Nat :=
  match l.phase with
  | .ready => none
  | .asleep wake => some wake

/-- Read the goal, then go to sleep or end. -/
def rest (l : Loop) (now : Nat) (a : Arbiter) : Option Loop :=
  if a.config.goal.isActive then some { l with phase := .asleep (now + a.config.interval) }
  else none

/-- Run a loop as far as it can at an instant. -/
def run (l : Loop) (now : Nat) (m : Monitor) (a : Arbiter) : Arbiter × Option Loop :=
  match l.phase with
  | .ready => (a, l.rest now a)
  | .asleep wake =>
    if now < wake then (a, some l)
    else if a.config.goal.isActive then
      let a := (a.poll (m.snapshot now)).2
      (a, l.rest now a)
    else (a, none)

/-- Run several loops, one after the other. -/
def runAll (now : Nat) (m : Monitor) (a : Arbiter) : List Loop → Arbiter × List Loop
  | [] => (a, [])
  | l :: ls =>
    let (a, l) := l.run now m a
    let (a, ls) := runAll now m a ls
    (a, l.toList ++ ls)

/-- When the first of some sleeping loops wakes. -/
def firstWake? (ls : List Loop) : Option Nat := (ls.filterMap wake?).min?

theorem lt_wake_of_rest {l l' : Loop} {now : Nat} {a : Arbiter} (h : l.rest now a = some l') :
    ∃ wake, l'.phase = .asleep wake ∧ now < wake := by
  rw [rest] at h
  split at h
  · cases h
    exact ⟨_, rfl, Nat.lt_add_of_pos_right a.config.interval_pos⟩
  · cases h

/-- A loop that has run and not ended sleeps beyond the present. -/
theorem lt_wake_of_run {l l' : Loop} {now : Nat} {m : Monitor} {a : Arbiter}
    (h : (l.run now m a).2 = some l') : ∃ wake, l'.phase = .asleep wake ∧ now < wake := by
  rw [run] at h
  split at h
  · exact lt_wake_of_rest h
  · rename_i wake hp
    split at h
    · rename_i hlt
      cases h
      exact ⟨wake, hp, hlt⟩
    · split at h
      · exact lt_wake_of_rest h
      · cases h

/-- After all loops have run, those that have not ended sleep beyond the present. -/
theorem lt_wake_of_runAll {ls : List Loop} {now : Nat} {m : Monitor} {a : Arbiter} {l : Loop}
    (h : l ∈ (runAll now m a ls).2) : ∃ wake, l.phase = .asleep wake ∧ now < wake := by
  induction ls generalizing a with
  | nil => simp [runAll] at h
  | cons k ks ih =>
    rcases List.mem_append.1 h with h | h
    · exact lt_wake_of_run (Option.mem_toList.1 h)
    · exact ih h

theorem lt_firstWake_runAll {ls : List Loop} {now wake : Nat} {m : Monitor} {a : Arbiter}
    (h : firstWake? (runAll now m a ls).2 = some wake) : now < wake := by
  obtain ⟨l, hl, hw⟩ := List.mem_filterMap.1 (List.min?_mem h)
  obtain ⟨w, hp, hlt⟩ := lt_wake_of_runAll hl
  rw [wake?, hp] at hw
  cases hw
  exact hlt

end Loop

end RealTime
