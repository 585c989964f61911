import RealTime.Proofs.Arbiter.Examinations
import RealTime.Proofs.Supervisor.Names

/-! # One poll loop

The goal, the handle of the loop started last and the loops are changed at different times: a request
may be between its two halves when a loop wakes, a loop may wake late, and a loop that has been aborted
is there until it has been waited for.  A `Course` is what can be seen of a supervisor between any two
waits, and an `Act` is what runs from one wait to the next without interruption.  Acts may come in any
order.

What carries the proof is that there is no loop, or a single one that the handle points to (`Single`).
Then a second one is never started, as the handle tells that there is a loop, and a goal that is set
finds a loop or starts one; from then on the loop can only end when it reads that there is no goal.

* `Single.step`       no act makes a second loop, and no loop polls without a goal
* `Pursuing.step`     a loop goes on as long as the goal stays and nobody aborts it
* `Single.exists_run` whole requests, one after the other, are acts in one of the orders
* `one_loop`          all of it, in every order and for every history of requests -/

namespace RealTime

/-! ### Who changes the goal -/

namespace Arbiter

variable (a : Arbiter) (name : String)

theorem config_examine (s : Snapshot) : (a.examine name s).config = a.config := by
  rw [examine]
  split
  · rfl
  · rename_i r hr
    -- what the examination leaves of another task tells the goal as well
    obtain ⟨n, hn⟩ : ∃ n, n ≠ name := ⟨name.push 'a', by simp [String.ext_iff]⟩
    have hobserve : (a.observeOthers name s).config = a.config :=
      (agree_observeOthers (f := fun _ => ()) a name s).config
    exact (agree_conclusions hn calm_supervised _ r s _).config.trans hobserve

theorem config_poll (s : Snapshot) : (a.poll s).2.config = a.config :=
  poll_keeps (P := fun b => b.config = a.config) (fun name h => (config_examine _ name s).trans h) rfl

theorem config_add (core : Nat) (t : Task) : (a.add core t).2.config = a.config := by
  rw [add]
  split
  · rfl
  · split <;> rfl

theorem config_lastJobStarted : (a.lastJobStarted name).2.config = a.config := by
  rw [lastJobStarted]
  split <;> rfl

theorem config_move (core : Nat) : (a.move name core).2.config = a.config := by
  rw [move]
  split
  · rfl
  · split
    · exact (agree_arbitrateAll (f := fun _ => ()) (n := name) (fun _ _ => rfl) _ _).config
    · rfl

end Arbiter

namespace Supervisor

/-! ### The halves of requests -/

/-- The first half of setting a goal. -/
def aim (s : Supervisor) (config : GoalConfig) : Supervisor :=
  { s with arbiter := s.arbiter.setGoal config }

/-- The second half: a goal needs a loop. -/
def ensure (s : Supervisor) (config : GoalConfig) : Supervisor :=
  if config.goal.isActive && !s.isPolling then s.startLoop else s

theorem setGoal_eq (s : Supervisor) (config : GoalConfig) :
    s.setGoal config = (s.aim config).ensure config := rfl

/-! ### Acts -/

/-- A supervisor between two waits. -/
structure Course where
  supervisor : Supervisor
  /-- Loops that have been aborted and are not gone yet.  Whoever waits for them has locked the
  handle. -/
  aborted : List Loop := []
  /-- The goals at the polls so far. -/
  polls : List Goal := []

/-- What runs from one wait to the next. -/
inductive Act where
  /-- Anything that concerns admission, tasks and monitoring data. -/
  | other (admission : Admission) (arbiter : Arbiter) (monitor : Monitor)
  /-- A goal is set, but no loop has been looked for. -/
  | aim (config : GoalConfig)
  /-- A loop is looked for, and started if there is none. -/
  | ensure (config : GoalConfig)
  /-- The loop started last is aborted. -/
  | abort
  /-- The loop that has been aborted is gone. -/
  | reap
  /-- The loop at a place has its turn. -/
  | turn (place : Nat)
  /-- Time passes, and no loop gets its turn. -/
  | pass (duration : Nat)

namespace Course

variable {c c' : Course} {l : Loop} {act : Act} {acts : List Act} {config : GoalConfig}

/-- The goal that is pursued. -/
def goal (c : Course) : Goal := c.supervisor.arbiter.config.goal

/-- Number of loops that are not gone. -/
def alive (c : Course) : Nat := c.supervisor.loops.length + c.aborted.length

/-- Poll the arbiter, and note the goal. -/
def poll (c : Course) : Course :=
  let snapshot := c.supervisor.monitor.snapshot c.supervisor.now
  { c with
    supervisor := { c.supervisor with arbiter := (c.supervisor.arbiter.poll snapshot).2 }
    polls := c.polls ++ [c.goal] }

/-- The loop at a place goes on in some way, or ends. -/
def replace (c : Course) (place : Nat) (l : Option Loop) : Course :=
  let loops := match l with
    | some l => c.supervisor.loops.set place l
    | none => c.supervisor.loops.eraseIdx place
  { c with supervisor := { c.supervisor with loops } }

/-- Let the loop at a place run up to its next wait. -/
def turn (c : Course) (place : Nat) : Course :=
  match c.supervisor.loops[place]? with
  | none => c
  | some l =>
    match l.phase with
    | .ready => c.replace place (l.rest c.supervisor.now c.supervisor.arbiter)
    | .asleep wake =>
      if c.supervisor.now < wake then c
      else if c.goal.isActive then c.poll.replace place (some { l with phase := .ready })
      else c.replace place none

/-- Carry out an act, unless it has to wait for the handle. -/
def step (c : Course) : Act → Option Course
  | .other admission arbiter monitor =>
    let arbiter := { arbiter with config := c.supervisor.arbiter.config }
    some { c with supervisor := { c.supervisor with admission, arbiter, monitor } }
  | .aim config => some { c with supervisor := c.supervisor.aim config }
  | .ensure config =>
    if c.aborted = [] then some { c with supervisor := c.supervisor.ensure config } else none
  | .abort =>
    if c.aborted = [] then
      some { c with
        supervisor := c.supervisor.shutdown
        aborted := c.supervisor.loops.filter fun l => c.supervisor.handle = some l.id }
    else none
  | .reap => some { c with aborted := [] }
  | .turn place => some (c.turn place)
  | .pass duration =>
    some { c with supervisor := { c.supervisor with now := c.supervisor.now + duration } }

/-- Carry out acts, one after the other. -/
def follow (c : Course) (acts : List Act) : Option Course := acts.foldlM step c

theorem step_ensure_eq_some_iff : c.step (.ensure config) = some c' ↔
    c.aborted = [] ∧ c' = { c with supervisor := c.supervisor.ensure config } := by
  rw [step, Option.ite_none_right_eq_some, Option.some.injEq, eq_comm (a := c')]

theorem step_abort_eq_some_iff : c.step .abort = some c' ↔
    c.aborted = [] ∧ c' = { c with
      supervisor := c.supervisor.shutdown
      aborted := c.supervisor.loops.filter fun l => c.supervisor.handle = some l.id } := by
  rw [step, Option.ite_none_right_eq_some, Option.some.injEq, eq_comm (a := c')]

theorem follow_cons : c.follow (act :: acts) = (c.step act).bind (·.follow acts) := rfl

theorem follow_append {acts' : List Act} :
    c.follow (acts ++ acts') = (c.follow acts).bind (·.follow acts') := by
  rw [follow, List.foldlM_append]
  rfl

/-- What none of some acts breaks holds after them. -/
theorem follow_keeps {P : Course → Prop}
    (hstep : ∀ act ∈ acts, ∀ {c c' : Course}, P c → c.step act = some c' → P c')
    (h : P c) (hfollow : c.follow acts = some c') : P c' := by
  induction acts generalizing c with
  | nil =>
    cases hfollow
    exact h
  | cons act acts ih =>
    rw [follow_cons] at hfollow
    obtain ⟨c₁, hc₁, hrest⟩ := Option.bind_eq_some_iff.1 hfollow
    exact ih (fun act hact => hstep act (List.mem_cons_of_mem _ hact))
      (hstep act List.mem_cons_self h hc₁) hrest

/-! ### One loop at most -/

/-- There is no loop, or a single one, which the handle points to; only when there is none, one may not
be gone yet.  All polls have had a goal. -/
structure Single (c : Course) : Prop where
  loops : c.supervisor.loops = [] ∧ c.aborted.length ≤ 1 ∨
    ∃ l, c.supervisor.loops = [l] ∧ c.supervisor.handle = some l.id ∧ c.aborted = []
  polls : ∀ goal ∈ c.polls, goal.isActive = true

theorem Single.alive_le (h : c.Single) : c.alive ≤ 1 := by
  rcases h.loops with ⟨hnil, haborted⟩ | ⟨l, hl, -, haborted⟩
  · rw [alive, hnil]
    simpa using haborted
  · rw [alive, hl, haborted]
    exact Nat.le_refl 1

/-- The only loop counts. -/
theorem Single.alive_eq (h : c.Single) (hloop : c.supervisor.loops ≠ []) : c.alive = 1 := by
  rcases h.loops with ⟨hnil, -⟩ | ⟨l, hl, -, haborted⟩
  · exact absurd hnil hloop
  · rw [alive, hl, haborted]
    rfl

/-- The handle tells whether there is a loop. -/
theorem Single.isPolling_eq (h : c.Single) :
    c.supervisor.isPolling = !c.supervisor.loops.isEmpty := by
  rcases h.loops with ⟨hnil, -⟩ | ⟨l, hl, hhandle, -⟩
  · rw [isPolling, hnil]
    split <;> rfl
  · simp [isPolling, hhandle, hl]

/-- What comes of a turn when there is one loop: nothing, as the loop sleeps or has not been meant; or
the loop has read the goal, or polled. -/
inductive Turned (c : Course) (l : Loop) : Course → Prop
  | waits : Turned c l c
  | ends (hgoal : c.goal.isActive = false) :
      Turned c l { c with supervisor := { c.supervisor with loops := [] } }
  | sleeps (hgoal : c.goal.isActive = true) (wake : Nat) :
      Turned c l { c with
        supervisor := { c.supervisor with loops := [{ l with phase := .asleep wake }] } }
  | polls (hgoal : c.goal.isActive = true) :
      Turned c l { c.poll with
        supervisor := { c.poll.supervisor with loops := [{ l with phase := .ready }] } }

theorem turned (hl : c.supervisor.loops = [l]) (place : Nat) : Turned c l (c.turn place) := by
  rw [turn, hl]
  cases place with
  | succ place => exact .waits
  | zero =>
    cases hphase : l.phase with
    | ready =>
      simp only [List.getElem?_cons_zero, hphase, Loop.rest]
      split
      · rename_i hgoal
        simpa [replace, hl] using Turned.sleeps (l := l) hgoal _
      · rename_i hgoal
        simpa [replace, hl] using Turned.ends (l := l) (eq_false_of_ne_true hgoal)
    | asleep wake =>
      simp only [List.getElem?_cons_zero, hphase]
      split
      · exact .waits
      · split
        · rename_i hgoal
          simpa [replace, poll, hl] using Turned.polls (l := l) hgoal
        · rename_i hgoal
          simpa [replace, hl] using Turned.ends (l := l) (eq_false_of_ne_true hgoal)

theorem turn_of_loops_eq_nil (hnil : c.supervisor.loops = []) (place : Nat) :
    c.turn place = c := by
  rw [turn, hnil]
  rfl

theorem Single.turn (h : c.Single) (place : Nat) : (c.turn place).Single := by
  rcases h.loops with ⟨hnil, -⟩ | ⟨l, hl, hhandle, haborted⟩
  · rwa [turn_of_loops_eq_nil hnil]
  · have hturned := turned hl place
    generalize c.turn place = c' at hturned ⊢
    cases hturned with
    | waits => exact h
    | ends hgoal => exact ⟨.inl ⟨rfl, by simp [haborted]⟩, h.polls⟩
    | sleeps hgoal wake => exact ⟨.inr ⟨_, rfl, hhandle, haborted⟩, h.polls⟩
    | polls hgoal =>
      refine ⟨.inr ⟨_, rfl, hhandle, haborted⟩, fun goal hmem => ?_⟩
      rcases List.mem_append.1 hmem with hmem | hmem
      · exact h.polls goal hmem
      · rwa [List.mem_singleton.1 hmem]

/-- A loop is started only if there is none. -/
theorem Single.ensure (h : c.Single) (haborted : c.aborted = []) (config : GoalConfig) :
    Single { c with supervisor := c.supervisor.ensure config } := by
  rw [Supervisor.ensure, h.isPolling_eq]
  split
  · rename_i hstart
    -- a loop that slept through the change of the goal would still be found
    have hnil : c.supervisor.loops = [] := by
      simpa using (Bool.and_eq_true_iff.1 hstart).2
    exact ⟨.inr ⟨_, by rw [startLoop, hnil]; rfl, rfl, haborted⟩, h.polls⟩
  · exact h

/-- The only loop is aborted. -/
theorem Single.abort (h : c.Single) :
    Single { c with
      supervisor := c.supervisor.shutdown
      aborted := c.supervisor.loops.filter fun l => c.supervisor.handle = some l.id } := by
  rcases h.loops with ⟨hnil, -⟩ | ⟨l, hl, hhandle, -⟩
  · refine ⟨.inl ⟨?_, by simp [hnil]⟩, h.polls⟩
    rw [shutdown]
    split
    · simp [hnil]
    · exact hnil
  · refine ⟨.inl ⟨?_, by simp [hl, hhandle]⟩, h.polls⟩
    simp [shutdown, hhandle, hl]

/-- No act makes a second loop. -/
theorem Single.step (h : c.Single) (hstep : c.step act = some c') : c'.Single := by
  cases act with
  | other | aim | pass =>
    cases hstep
    exact ⟨h.loops, h.polls⟩
  | ensure config =>
    obtain ⟨haborted, rfl⟩ := step_ensure_eq_some_iff.1 hstep
    exact h.ensure haborted config
  | abort =>
    obtain ⟨-, rfl⟩ := step_abort_eq_some_iff.1 hstep
    exact h.abort
  | reap =>
    -- one loop less is not gone yet
    cases hstep
    refine ⟨h.loops.imp (fun hnone => ⟨hnone.1, Nat.zero_le 1⟩) ?_, h.polls⟩
    rintro ⟨l, hl, hhandle, -⟩
    exact ⟨l, hl, hhandle, rfl⟩
  | turn place =>
    cases hstep
    exact h.turn place

/-- No sequence of acts makes a second loop. -/
theorem Single.follow (h : c.Single) (hfollow : c.follow acts = some c') : c'.Single :=
  follow_keeps (fun _ _ _ _ h hstep => h.step hstep) h hfollow

/-! ### One loop at least -/

/-- A turn changes neither the goal nor what has been aborted. -/
theorem turn_keeps (c : Course) (place : Nat) :
    (c.turn place).supervisor.arbiter.config = c.supervisor.arbiter.config ∧
      (c.turn place).aborted = c.aborted := by
  rw [turn]
  split
  · exact ⟨rfl, rfl⟩
  · split
    · exact ⟨rfl, rfl⟩
    · split
      · exact ⟨rfl, rfl⟩
      · split
        · exact ⟨Arbiter.config_poll _ _, rfl⟩
        · exact ⟨rfl, rfl⟩

/-- Only who sets a goal changes it. -/
theorem config_step (haim : ∀ config, act ≠ .aim config) (hstep : c.step act = some c') :
    c'.supervisor.arbiter.config = c.supervisor.arbiter.config := by
  cases act with
  | aim config => exact absurd rfl (haim config)
  | other | pass | reap =>
    cases hstep
    rfl
  | ensure config =>
    obtain ⟨-, rfl⟩ := step_ensure_eq_some_iff.1 hstep
    rw [Supervisor.ensure]
    split <;> rfl
  | abort =>
    obtain ⟨-, rfl⟩ := step_abort_eq_some_iff.1 hstep
    rw [shutdown]
    split <;> rfl
  | turn place =>
    cases hstep
    exact (turn_keeps c place).1

/-- There is a goal, and the only loop pursues it. -/
structure Pursuing (c : Course) : Prop extends Single c where
  goal : c.goal.isActive = true
  loop : c.supervisor.loops ≠ []

/-- Whoever sets a goal and looks for a loop has one in the end. -/
theorem Single.pursuing (h : c.Single) (hgoal : c.goal.isActive = true)
    (hconfig : c.supervisor.arbiter.config = config) (hstep : c.step (.ensure config) = some c') :
    c'.Pursuing := by
  have haim : ∀ config', Act.ensure config ≠ .aim config' := nofun
  have hsame := config_step haim hstep
  refine ⟨h.step hstep, by rwa [Course.goal, hsame], ?_⟩
  obtain ⟨-, rfl⟩ := step_ensure_eq_some_iff.1 hstep
  rw [Course.goal, hconfig] at hgoal
  rw [Supervisor.ensure, hgoal, h.isPolling_eq]
  cases hl : c.supervisor.loops with
  | nil => simp [startLoop]
  | cons l ls => simp [hl]

/-- The loop goes on as long as the goal stays and nobody aborts it. -/
theorem Pursuing.step (h : c.Pursuing) (haim : ∀ config, act ≠ .aim config) (habort : act ≠ .abort)
    (hstep : c.step act = some c') : c'.Pursuing := by
  have hgoal : c'.goal.isActive = true := by
    rw [Course.goal, config_step haim hstep]
    exact h.goal
  refine ⟨h.toSingle.step hstep, hgoal, ?_⟩
  cases act with
  | aim config => exact absurd rfl (haim config)
  | abort => exact absurd rfl habort
  | other | pass | reap =>
    cases hstep
    exact h.loop
  | ensure config =>
    obtain ⟨-, rfl⟩ := step_ensure_eq_some_iff.1 hstep
    rw [Supervisor.ensure]
    split
    · simp [startLoop]
    · exact h.loop
  | turn place =>
    cases hstep
    obtain ⟨l, hl, -⟩ := h.loops.resolve_left fun hnone => h.loop hnone.1
    have hturned := turned hl place
    generalize c.turn place = c' at hturned hgoal ⊢
    cases hturned with
    | waits => exact h.loop
    | ends hnone =>
      -- only a loop that reads that there is no goal ends
      have hread : false = true := hnone.symm.trans hgoal
      cases hread
    | sleeps | polls => exact List.cons_ne_nil _ _

end Course

/-- The last goal that has been set is one to pursue, a loop has been looked for since, and none has
been aborted after that. -/
def Pursued (acts : List Act) : Prop :=
  ∃ before config between after,
    acts = before ++ .aim config :: (between ++ .ensure config :: after) ∧
    config.goal.isActive = true ∧ (∀ config', .aim config' ∉ between ++ after) ∧ .abort ∉ after

/-- Then there is a loop. -/
theorem Pursued.pursuing {acts : List Act} {c c' : Course} (hacts : Pursued acts) (h : c.Single)
    (hfollow : c.follow acts = some c') : c'.Pursuing := by
  obtain ⟨before, config, between, after, rfl, hgoal, haim, habort⟩ := hacts
  simp only [Course.follow_append, Course.follow_cons, Option.bind_eq_some_iff] at hfollow
  obtain ⟨c₁, hbefore, c₂, hset, c₃, hbetween, c₄, hensure, hafter⟩ := hfollow
  -- a loop may still end before one is looked for, but the goal is the one that has been set
  have hsingle₃ := ((h.follow hbefore).step hset).follow hbetween
  have hconfig₃ : c₃.supervisor.arbiter.config = config := by
    refine Course.follow_keeps (P := fun c => c.supervisor.arbiter.config = config)
      (fun act hact c c' hc hstep => (Course.config_step ?_ hstep).trans hc) ?_ hbetween
    · rintro config' rfl
      exact haim config' (List.mem_append_left _ hact)
    · cases hset
      rfl
  have hpursuing₄ := hsingle₃.pursuing (by rwa [Course.goal, hconfig₃]) hconfig₃ hensure
  refine Course.follow_keeps (fun act hact c c' hc hstep => hc.step ?_ ?_ hstep) hpursuing₄ hafter
  · rintro config' rfl
    exact haim config' (List.mem_append_right _ hact)
  · rintro rfl
    exact habort hact

/-! ### Whole requests -/

/-- Loops have their turns, or time passes. -/
def Act.drifts : Act → Bool
  | .turn _ | .pass _ => true
  | _ => false

/-- Which acts a request consists of. -/
def Consists (acts : List Act) : Request → Prop
  | .setGoal config => acts = [.aim config, .ensure config]
  | .shutdown => acts = [.abort, .reap]
  | .wait | .sleep _ => ∀ act ∈ acts, act.drifts = true
  | .newTask .. | .flush .. | .enqueue .. | .dequeue _ | .lock _ | .unlock _ | .report _
  | .isAllowed _ | .lastJobStarted _ | .move .. =>
    ∃ admission arbiter monitor, acts = [.other admission arbiter monitor]

/-- Which acts requests consist of, one after the other. -/
inductive Consist : List Request → List Act → Prop
  | nil : Consist [] []
  | cons {q : Request} {rs : List Request} {acts acts' : List Act} (hq : Consists acts q)
      (h : Consist rs acts') : Consist (q :: rs) (acts ++ acts')

/-- The last goal that has been asked for is one to pursue, and no shutdown has been asked for since. -/
def Asked (rs : List Request) : Prop :=
  ∃ before config after, rs = before ++ .setGoal config :: after ∧
    config.goal.isActive = true ∧ (∀ config', .setGoal config' ∉ after) ∧ .shutdown ∉ after

section Consist

variable {rs rs' : List Request} {acts : List Act}

theorem Consist.of_append (h : Consist (rs ++ rs') acts) :
    ∃ acts₁ acts₂, acts = acts₁ ++ acts₂ ∧ Consist rs acts₁ ∧ Consist rs' acts₂ := by
  induction rs generalizing acts with
  | nil => exact ⟨[], acts, rfl, .nil, h⟩
  | cons q rs ih =>
    cases h with
    | cons hq hrest =>
      obtain ⟨acts₁, acts₂, rfl, h₁, h₂⟩ := ih hrest
      exact ⟨_, acts₂, (List.append_assoc ..).symm, .cons hq h₁, h₂⟩

/-- Goals are set and loops are aborted by request only. -/
theorem Consists.of_mem {q : Request} (h : Consists acts q) :
    (∀ config, .aim config ∈ acts → q = .setGoal config) ∧ (.abort ∈ acts → q = .shutdown) := by
  cases q with
  | setGoal config =>
    obtain rfl := h
    simp
  | shutdown =>
    obtain rfl := h
    simp
  | wait | sleep =>
    -- turns and passing time are neither
    refine ⟨fun config hmem => ?_, fun hmem => ?_⟩ <;> cases h _ hmem
  | newTask | flush | enqueue | dequeue | lock | unlock | report | isAllowed | lastJobStarted | move =>
    obtain ⟨admission, arbiter, monitor, rfl⟩ := h
    simp

theorem Consist.of_mem (h : Consist rs acts) :
    (∀ config, .aim config ∈ acts → .setGoal config ∈ rs) ∧ (.abort ∈ acts → .shutdown ∈ rs) := by
  induction h with
  | nil => exact ⟨nofun, nofun⟩
  | cons hq _ ih =>
    refine ⟨fun config hmem => ?_, fun hmem => ?_⟩
    · rcases List.mem_append.1 hmem with hmem | hmem
      · rw [hq.of_mem.1 config hmem]
        exact List.mem_cons_self
      · exact List.mem_cons_of_mem _ (ih.1 config hmem)
    · rcases List.mem_append.1 hmem with hmem | hmem
      · rw [hq.of_mem.2 hmem]
        exact List.mem_cons_self
      · exact List.mem_cons_of_mem _ (ih.2 hmem)

/-- A goal that has been asked for is pursued. -/
theorem Consist.pursued (h : Consist rs acts) (hasked : Asked rs) : Pursued acts := by
  obtain ⟨before, config, after, rfl, hgoal, hset, hshutdown⟩ := hasked
  obtain ⟨acts₁, acts₂, rfl, -, hrest⟩ := h.of_append
  cases hrest with
  | @cons _ _ halves acts' hhalves hafter =>
    obtain rfl := hhalves
    exact ⟨acts₁, config, [], acts', rfl, hgoal,
      fun config' hmem => hset config' (hafter.of_mem.1 config' hmem),
      fun hmem => hshutdown (hafter.of_mem.2 hmem)⟩

end Consist

namespace Course

variable {c c' : Course}

/-- Turns of loops and time lead from one state to another when no loop is being shut down. -/
def Drifts (c c' : Course) : Prop :=
  ∃ acts, (∀ act ∈ acts, act.drifts = true) ∧ c.follow acts = some c' ∧ c'.aborted = []

theorem Drifts.trans {c₁ : Course} (h : c.Drifts c₁) (h' : c₁.Drifts c') : c.Drifts c' := by
  obtain ⟨acts, hacts, hfollow, -⟩ := h
  obtain ⟨acts', hacts', hfollow', haborted⟩ := h'
  refine ⟨acts ++ acts', fun act hmem => ?_, ?_, haborted⟩
  · exact (List.mem_append.1 hmem).elim (hacts act) (hacts' act)
  · rw [follow_append, hfollow, Option.bind_some, hfollow']

theorem Drifts.aborted_eq (h : c.Drifts c') : c'.aborted = [] := by
  obtain ⟨-, -, -, haborted⟩ := h
  exact haborted

theorem Drifts.single (h : c.Drifts c') (hc : c.Single) : c'.Single := by
  obtain ⟨acts, -, hfollow, -⟩ := h
  exact hc.follow hfollow

theorem drifts_turn (haborted : c.aborted = []) (place : Nat) : c.Drifts (c.turn place) :=
  ⟨[.turn place], by simp [Act.drifts], rfl, (turn_keeps c place).2.trans haborted⟩

/-- Time passes up to an instant. -/
theorem drifts_pass (haborted : c.aborted = []) {now : Nat} (hnow : c.supervisor.now ≤ now) :
    c.Drifts { c with supervisor := { c.supervisor with now } } :=
  ⟨[.pass (now - c.supervisor.now)], by simp [Act.drifts],
    by simp [follow, Course.step, Nat.add_sub_cancel' hnow], haborted⟩

/-- Two turns take the only loop as far as it can get: it may poll, and it reads the goal. -/
theorem Single.turn_turn (h : c.Single) :
    ((c.turn 0).turn 0).supervisor = c.supervisor.settle := by
  obtain ⟨s, aborted, polls⟩ := c
  obtain ⟨admission, a, m, now, loops, handle, nextLoop⟩ := s
  rcases h.loops with ⟨hnil, -⟩ | ⟨l, hl, -⟩
  · cases hnil
    rfl
  · cases hl
    have hlater : now < now + a.config.interval := Nat.lt_add_of_pos_right a.config.interval_pos
    have hpolled := Arbiter.config_poll a (m.snapshot now)
    cases hphase : l.phase with
    | ready =>
      by_cases hgoal : a.config.goal.isActive = true <;>
        simp [Course.turn, settle, Loop.runAll, Loop.run, Loop.rest, replace, hphase, hgoal, hlater]
    | asleep wake =>
      by_cases hwake : now < wake
      · simp [Course.turn, settle, Loop.runAll, Loop.run, hphase, hwake]
      · by_cases hgoal : a.config.goal.isActive = true <;>
          simp [Course.turn, settle, Loop.runAll, Loop.run, Loop.rest, replace, poll, goal, hphase,
            hwake, hgoal, hpolled]

/-- The loops run as far as they can. -/
theorem Single.drifts_settle (h : c.Single) (haborted : c.aborted = []) :
    ∃ c', c.Drifts c' ∧ c'.supervisor = c.supervisor.settle := by
  have hfirst := drifts_turn haborted 0
  exact ⟨_, hfirst.trans (drifts_turn hfirst.aborted_eq 0), h.turn_turn⟩

/-- Time passes up to an instant, and whenever a loop wakes it has its turn. -/
theorem Single.drifts_advance (h : c.Single) (haborted : c.aborted = []) (target : Nat)
    (hnow : c.supervisor.now ≤ target)
    (hwake : ∀ wake, Loop.firstWake? c.supervisor.loops = some wake → c.supervisor.now < wake) :
    ∃ c', c.Drifts c' ∧ c'.supervisor = c.supervisor.advance target := by
  generalize hs : c.supervisor = s at hnow hwake
  -- by the instants at which a loop wakes; each of them lies ahead, so that time only passes
  fun_induction Supervisor.advance s target generalizing c with
  | case1 s hnone =>
    subst hs
    exact ⟨_, drifts_pass haborted hnow, rfl⟩
  | case2 s wake hfirst hle ih =>
    subst hs
    have hpass := drifts_pass haborted (Nat.le_of_lt (hwake wake hfirst))
    obtain ⟨c₁, hc₁, hs₁⟩ := (hpass.single h).drifts_settle haborted
    have hdrift := hpass.trans hc₁
    obtain ⟨c', hc', hs'⟩ := ih (hdrift.single h) hc₁.aborted_eq hs₁ hle fun later hlater =>
      Loop.lt_firstWake_runAll hlater
    exact ⟨c', hdrift.trans hc', hs'⟩
  | case3 s wake hfirst hlt =>
    subst hs
    exact ⟨_, drifts_pass haborted hnow, rfl⟩

/-- Setting a goal is its two halves. -/
theorem follow_setGoal (haborted : c.aborted = []) (config : GoalConfig) :
    c.follow [.aim config, .ensure config] =
      some { c with supervisor := c.supervisor.setGoal config } := by
  rw [Supervisor.setGoal_eq]
  simp [follow, Course.step, haborted]

/-- A shutdown is its two halves. -/
theorem follow_shutdown (haborted : c.aborted = []) :
    c.follow [.abort, .reap] =
      some { c with supervisor := c.supervisor.shutdown, aborted := [] } := by
  simp [follow, Course.step, haborted]

/-- Nothing else changes the goal or the loops. -/
theorem exists_other (haborted : c.aborted = []) {s : Supervisor}
    (hs : s = { c.supervisor with
      admission := s.admission, arbiter := s.arbiter, monitor := s.monitor })
    (hconfig : s.arbiter.config = c.supervisor.arbiter.config) :
    ∃ acts c', (∃ admission arbiter monitor, acts = [.other admission arbiter monitor]) ∧
      c.follow acts = some c' ∧ c'.supervisor = s ∧ c'.aborted = [] := by
  refine ⟨_, { c with supervisor := s }, ⟨s.admission, s.arbiter, s.monitor, rfl⟩, ?_, rfl, haborted⟩
  have hsame : { s.arbiter with config := c.supervisor.arbiter.config } = s.arbiter := by
    rw [← hconfig]
  simp only [follow, List.foldlM_cons, List.foldlM_nil, Course.step, hsame, ← hs]
  rfl

/-- A request consists of acts. -/
theorem Single.exists_perform (h : c.Single) (haborted : c.aborted = []) (q : Request) :
    ∃ acts c', Consists acts q ∧ c.follow acts = some c' ∧
      c'.supervisor = (c.supervisor.perform q).2 ∧ c'.aborted = [] := by
  cases q with
  | newTask t slot intruder =>
    apply exists_other haborted
    · simp only [perform, newTask_eq]
      split
      · rfl
      · split <;> rfl
    · simp only [perform, newTask_eq]
      split
      · rfl
      · split
        · rfl
        · exact Arbiter.config_add _ _ _
  | flush | enqueue | dequeue | lock | unlock | report | isAllowed =>
    exact exists_other haborted rfl rfl
  | lastJobStarted name =>
    exact exists_other haborted rfl (Arbiter.config_lastJobStarted _ name)
  | move name core =>
    have hconfig := Arbiter.config_move c.supervisor.arbiter name core
    simp only [perform]
    split
    · rename_i heq
      rw [heq] at hconfig
      exact exists_other haborted rfl hconfig
    · rename_i heq
      rw [heq] at hconfig
      exact exists_other haborted rfl hconfig
  | setGoal config => exact ⟨_, _, rfl, follow_setGoal haborted config, rfl, haborted⟩
  | shutdown => exact ⟨_, _, rfl, follow_shutdown haborted, rfl, rfl⟩
  | wait =>
    obtain ⟨c', ⟨acts, hacts, hfollow, haborted'⟩, hs'⟩ := h.drifts_settle haborted
    exact ⟨acts, c', hacts, hfollow, hs', haborted'⟩
  | sleep ms =>
    obtain ⟨c₁, hc₁, hs₁⟩ := h.drifts_settle haborted
    have hle : c₁.supervisor.now ≤ c.supervisor.now + ms * 1000 := by
      rw [hs₁]
      exact Nat.le_add_right _ _
    obtain ⟨c', hc', hs'⟩ := (hc₁.single h).drifts_advance hc₁.aborted_eq _ hle fun wake hwake => by
      rw [hs₁] at hwake ⊢
      exact Loop.lt_firstWake_runAll hwake
    obtain ⟨acts, hacts, hfollow, haborted'⟩ := hc₁.trans hc'
    rw [hs₁] at hs'
    exact ⟨acts, c', hacts, hfollow, hs', haborted'⟩

/-- Requests, one after the other, consist of acts. -/
theorem Single.exists_run (h : c.Single) (haborted : c.aborted = []) (rs : List Request) :
    ∃ acts c', Consist rs acts ∧ c.follow acts = some c' ∧ c'.supervisor = run c.supervisor rs ∧
      c'.aborted = [] := by
  induction rs generalizing c with
  | nil => exact ⟨[], c, .nil, rfl, rfl, haborted⟩
  | cons q rs ih =>
    obtain ⟨acts, c₁, hacts, hc₁, hs₁, haborted₁⟩ := h.exists_perform haborted q
    obtain ⟨acts', c', hacts', hc', hs', haborted'⟩ := ih (h.follow hc₁) haborted₁
    rw [hs₁] at hs'
    exact ⟨acts ++ acts', c', .cons hacts hacts',
      by rw [follow_append, hc₁, Option.bind_some, hc'], hs', haborted'⟩

end Course

/-- Whatever the order in which requests, loops and the clock take their steps from one wait to the next,
at most one loop of a supervisor that has started without one is there, also while another one is being
shut down; whenever a loop polls there is a goal; and if the last goal that has been set is one to
pursue and no shutdown has followed, there is a loop.  A history of whole requests is one such order. -/
theorem one_loop (s : Supervisor) (hnew : s.loops = []) :
    (∀ (acts : List Act) (c : Course), Course.follow { supervisor := s } acts = some c →
      c.alive ≤ 1 ∧ (∀ goal ∈ c.polls, goal.isActive = true) ∧ (Pursued acts → c.alive = 1)) ∧
    ∀ rs : List Request, ∃ (acts : List Act) (c : Course),
      Consist rs acts ∧ (Asked rs → Pursued acts) ∧
        Course.follow { supervisor := s } acts = some c ∧ c.supervisor = run s rs ∧
          c.aborted = [] := by
  have hsingle : Course.Single { supervisor := s } := ⟨.inl ⟨hnew, Nat.zero_le 1⟩, nofun⟩
  refine ⟨fun acts c hfollow => ?_, fun rs => ?_⟩
  · have hc := hsingle.follow hfollow
    refine ⟨hc.alive_le, hc.polls, fun hpursued => ?_⟩
    exact hc.alive_eq (hpursued.pursuing hsingle hfollow).loop
  · obtain ⟨acts, c, hacts, hrest⟩ := hsingle.exists_run rfl rs
    exact ⟨acts, c, hacts, hacts.pursued, hrest⟩

/-- The goal is taken back and set again while the loop sleeps.  The loop goes on as if nothing had
happened, and it is the only one, whether the requests come in two halves or as a whole. -/
theorem one_loop_switched :
    let fairness : GoalConfig := { goal := .fairness, intervalMs := 5 }
    let acts : List Act := [.aim fairness, .ensure fairness, .turn 0, .aim {}, .pass 3000,
      .ensure {}, .aim fairness, .ensure fairness, .pass 4000, .turn 0]
    let rs : List Request := [.setGoal fairness, .sleep 3, .setGoal {}, .setGoal fairness, .sleep 4]
    start singleCore ⟨[]⟩ = .ok single ∧ single.loops = [] ∧
      (∃ c, Course.follow { supervisor := single } acts = some c ∧
        c.alive = 1 ∧ c.polls = [.fairness]) ∧
      (run single rs).loops.length = 1 := by
  intro fairness acts rs
  have hone := one_loop single rfl
  refine ⟨start_singleCore, rfl, ?_, ?_⟩
  · obtain ⟨c, hc⟩ : ∃ c, Course.follow { supervisor := single } acts = some c := ⟨_, rfl⟩
    have hpolls : (Course.follow { supervisor := single } acts).map Course.polls =
        some [.fairness] := by decide +kernel
    rw [hc] at hpolls
    have hpursued : Pursued acts := ⟨acts.take 6, fairness, [], acts.drop 8, rfl, rfl,
      by simp [acts], by simp [acts]⟩
    exact ⟨c, hc, (hone.1 acts c hc).2.2 hpursued, Option.some.inj hpolls⟩
  · have hasked : Asked rs := ⟨rs.take 3, fairness, [.sleep 4], rfl, rfl, by simp, by simp⟩
    obtain ⟨acts, c, -, hpursued, hc, hs, haborted⟩ := hone.2 rs
    have halive := (hone.1 acts c hc).2.2 (hpursued hasked)
    rwa [Course.alive, hs, haborted] at halive

end Supervisor

end RealTime
