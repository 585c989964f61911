import RealTime.Proofs.Admission.Sound
import RealTime.Proofs.Arbiter.Consistency
import RealTime.Proofs.Hosting
import RealTime.Supervisor.Basic

/-! # States that a supervisor can reach

A supervisor starts with new queues and a platform that has been set up by any operations.  It goes
on by requests, and by operations on the platform at any time.  In all states that it reaches, the
run queues that cores host are registered, every region of the bank is a queue, and the arbiter has
one core for each slot of the bank.

* `Invariant.supervise`      what holds of arbiters holds of the supervisor's
* `fresh_start`              settings lead to such a start
* `sound_of_reachable`       all of it in all states -/

namespace RealTime

/-! ### The arbiter -/

namespace Arbiter.Invariant

variable {P : Arbiter → Prop} (inv : Invariant P) {s : Supervisor}

include inv

theorem loop {a : Arbiter} (h : P a) (l : Loop) (now : Nat) (m : Monitor) :
    P (l.run now m a).1 := by
  rw [Loop.run]
  split
  · exact h
  · split
    · exact h
    · split
      · exact inv.poll h _
      · exact h

theorem loops {a : Arbiter} (h : P a) (ls : List Loop) (now : Nat) (m : Monitor) :
    P (Loop.runAll now m a ls).1 := by
  induction ls generalizing a with
  | nil => exact h
  | cons l ls ih => exact ih (inv.loop h l now m)

theorem settle (h : P s.arbiter) : P s.settle.arbiter := inv.loops h s.loops s.now s.monitor

/-- Loops that run while time passes keep the property. -/
theorem advance (h : P s.arbiter) (target : Nat) : P (s.advance target).arbiter := by
  fun_induction Supervisor.advance s target with
  | case1 s => exact h
  | case2 s wake hwake hle ih => exact ih (inv.loops h s.loops wake s.monitor)
  | case3 s => exact h

/-- What holds of an arbiter whatever it is asked holds of a supervisor's. -/
theorem supervise (h : P s.arbiter) (q : Supervisor.Request) : P (s.perform q).2.arbiter := by
  cases q with
  | newTask t slot intruder =>
    simp only [Supervisor.perform, Supervisor.newTask]
    split
    · exact h
    · split
      · exact h
      · exact inv.perform h (.add _ t)
  | flush | enqueue | dequeue | lock | unlock | report | isAllowed => exact h
  | lastJobStarted name => exact inv.perform h (.lastJobStarted name)
  | move name core =>
    have hmove := inv.move h name core
    simp only [Supervisor.perform]
    split
    · rename_i heq
      rwa [heq] at hmove
    · rename_i heq
      rwa [heq] at hmove
  | setGoal config =>
    have hgoal : P (s.arbiter.setGoal config) := inv.perform h (.setGoal config)
    simp only [Supervisor.perform, Supervisor.setGoal]
    split <;> exact hgoal
  | shutdown =>
    simp only [Supervisor.perform, Supervisor.shutdown]
    split <;> exact h
  | wait => exact inv.settle h
  | sleep ms => exact inv.advance (inv.settle h) _

end Arbiter.Invariant

/-! ### All states -/

namespace Supervisor

/-- A supervisor that has not been asked for anything: its queues are new, and its platform has been
set up from cores without run queues. -/
inductive Fresh : Supervisor → Prop
  | ofParts {tree : FileTree} {directory : String} {count : Nat} {capacity : UInt64} {bank : Bank}
      (hcreate : Bank.create tree directory count capacity = .ok bank)
      (cores : List (Nat × CoreState)) (slots : Nat) (ops : List Platform.Operation) :
      Fresh (.ofParts ((Platform.ofCores cores slots).run ops) bank)

/-- Carry out an operation on the platform. -/
def operate (s : Supervisor) (op : Platform.Operation) : Supervisor :=
  { s with admission := { s.admission with platform := (s.admission.platform.operate op).2 } }

/-- States that a supervisor reaches by requests and by operations on its platform. -/
inductive Reachable : Supervisor → Prop
  | start {s : Supervisor} (h : Fresh s) : Reachable s
  | request {s : Supervisor} (h : Reachable s) (q : Request) : Reachable (s.perform q).2
  | operate {s : Supervisor} (h : Reachable s) (op : Platform.Operation) :
      Reachable (s.operate op)

/-- Admission is sound, and the arbiter has a core for each slot. -/
def Sound (s : Supervisor) : Prop := s.admission.Sound s.arbiter.cores

variable {s : Supervisor}

/-- A run queue of settings is registered and hosted by operations on the platform. -/
private theorem run_of_addQueue {p p' : Platform} {q : QueueSetting} {index : Nat}
    (hadd : Settings.addQueue p q index = .ok p') : ∃ ops, p' = p.run ops := by
  simp only [Settings.addQueue] at hadd
  split at hadd
  · cases hadd
  · rename_i slot _
    split at hadd
    · cases hadd
    · rename_i queue p₁ hregister
      split at hadd
      · cases hadd
      · rename_i hallocate
        cases hadd
        refine ⟨[.register { taskClass := q.taskClass, strategy := q.strategy, slot },
          .change (.allocate q.core queue)], ?_⟩
        simp only [Platform.run, List.foldl_cons, List.foldl_nil, Platform.operate, hregister,
          Platform.andThen, Platform.step, hallocate]

private theorem run_of_addQueues {p p' : Platform} {qs : List (QueueSetting × Nat)}
    (hadd : qs.foldlM (fun p (q, index) => Settings.addQueue p q index) p = .ok p') :
    ∃ ops, p' = p.run ops := by
  induction qs generalizing p with
  | nil =>
    cases hadd
    exact ⟨[], rfl⟩
  | cons e qs ih =>
    rw [List.foldlM_cons] at hadd
    cases hq : Settings.addQueue p e.1 e.2 with
    | error e =>
      simp only [hq] at hadd
      cases hadd
    | ok p₁ =>
      simp only [hq] at hadd
      obtain ⟨ops, rfl⟩ := run_of_addQueue hq
      obtain ⟨ops', rfl⟩ := ih hadd
      exact ⟨ops ++ ops', by rw [Platform.run, Platform.run, Platform.run, List.foldl_append]⟩

/-- A supervisor that starts with settings has not been asked for anything. -/
theorem fresh_start {settings : Settings} {tree : FileTree}
    (hstart : start settings tree = .ok s) : Fresh s := by
  simp only [start] at hstart
  split at hstart
  · cases hstart
  · rename_i platform hplatform
    split at hstart
    · cases hstart
    · rename_i bank hcreate
      cases hstart
      obtain ⟨ops, rfl⟩ := run_of_addQueues hplatform
      exact .ofParts hcreate settings.cores settings.slots ops

/-- An attempt to place a task, on the slot that is asked for or where it suits. -/
def attempt (s : Supervisor) (t : Task) (slot intruder : Option Nat) : Attempt Placement :=
  match slot with
  | some slot => s.admission.placeOn t slot intruder
  | none => s.admission.place t intruder

theorem newTask_eq (s : Supervisor) (t : Task) (slot intruder : Option Nat) :
    s.newTask t slot intruder =
      if s.arbiter.tasks.contains t.name then (.refused (.duplicate t.name) false, s)
      else
        match (s.attempt t slot intruder).result with
        | .error e =>
          (.refused e (s.attempt t slot intruder).lockTaken,
            { s with admission := (s.attempt t slot intruder).state })
        | .ok placement =>
          (.placed placement (s.attempt t slot intruder).lockTaken,
            { s with
              admission := (s.attempt t slot intruder).state
              arbiter := (s.arbiter.add placement.slot t).2 }) := rfl

/-- Every attempt is refused or does all of it. -/
theorem placed_attempt (hreg : s.admission.platform.Registered) (t : Task)
    (slot intruder : Option Nat) : Admission.Placed s.admission t (s.attempt t slot intruder) := by
  cases slot with
  | none => exact Admission.placed_place hreg t intruder
  | some slot => exact Admission.placed_placeOn s.admission t slot intruder

/-- Time passes without admissions. -/
theorem advance_admission (s : Supervisor) (target : Nat) :
    (s.advance target).admission = s.admission := by
  fun_induction Supervisor.advance s target with
  | case1 s => rfl
  | case2 s wake hwake hle ih => exact ih
  | case3 s => rfl

/-- What a request asks of admission, unless it is about a new task. -/
def Request.ofAdmission? : Request → Option Admission.Request
  | .flush slot intruder => some (.flush slot intruder)
  | .enqueue slot t => some (.enqueue slot t)
  | .dequeue slot => some (.dequeue slot)
  | .lock slot => some (.lock slot)
  | .unlock slot => some (.unlock slot)
  | _ => none

/-- Requests that ask nothing of admission leave it as it is. -/
theorem perform_admission (s : Supervisor) {q : Request}
    (hq : ∀ t slot intruder, q ≠ .newTask t slot intruder) :
    (s.perform q).2.admission =
      match q.ofAdmission? with
      | some request => (s.admission.perform request).2
      | none => s.admission := by
  cases q with
  | newTask t slot intruder => exact absurd rfl (hq t slot intruder)
  | flush | enqueue | dequeue | lock | unlock => rfl
  | report | isAllowed | lastJobStarted | wait => rfl
  | move name core =>
    simp only [perform]
    split <;> rfl
  | setGoal config =>
    simp only [perform, setGoal]
    split <;> rfl
  | shutdown =>
    simp only [perform, shutdown]
    split <;> rfl
  | sleep ms => exact advance_admission s.settle _

/-- No request makes a supervisor unsound. -/
theorem Sound.perform (h : s.Sound) (q : Request) : (s.perform q).2.Sound := by
  -- the number of cores is an invariant of the arbiter, whoever asks it
  have hcores : (s.perform q).2.arbiter.cores = s.arbiter.cores :=
    (Arbiter.invariant_cores s.arbiter.cores).supervise rfl q
  rw [Sound, hcores]
  by_cases hnew : ∃ t slot intruder, q = .newTask t slot intruder
  · obtain ⟨t, slot, intruder, rfl⟩ := hnew
    have hafter := Admission.Sound.placed h (placed_attempt h.registered t slot intruder)
    simp only [Supervisor.perform, newTask_eq]
    split
    · exact h
    · split <;> exact hafter
  · rw [perform_admission s fun t slot intruder heq => hnew ⟨t, slot, intruder, heq⟩]
    cases q.ofAdmission? with
    | none => exact h
    | some request => exact Admission.Sound.perform h request

theorem sound_of_fresh (h : Fresh s) : s.Sound := by
  obtain ⟨hcreate, cores, slots, ops⟩ := h
  obtain ⟨rfl, rfl, hempty⟩ := Bank.holds_of_create hcreate
  have hosting := (Platform.hosting_ofCores cores slots).run ops
  exact ⟨hosting.toRegistered, ⟨fun hr => ⟨[], hempty hr⟩⟩, rfl⟩

/-- All states that a supervisor reaches are sound. -/
theorem sound_of_reachable (h : Reachable s) : s.Sound := by
  induction h with
  | start h => exact sound_of_fresh h
  | request _ q ih => exact ih.perform q
  | operate _ op ih => exact ⟨ih.registered.operate op, ih.bank, ih.count_eq⟩

end Supervisor

end RealTime
