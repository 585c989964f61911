import RealTime.Admission.Basic
import RealTime.Settings.Basic
import RealTime.Supervisor.Loop

/-! # The supervisor

A `Supervisor` joins the parts: it admits tasks to the shared queues, has the arbiter watch over
every admitted task under the slot it was put on, and keeps a loop that polls the arbiter while
there is a goal.

Time passes only in `sleep`; between two waits, requests and loops run without interruption.  A
loop is started when a goal is set and the loop started last has ended; it is never stopped but
by `shutdown` or by itself. -/

namespace RealTime

/-- Admission, arbitration, monitoring data, the clock and the poll loops. -/
structure Supervisor where
  admission : Admission
  arbiter : Arbiter
  monitor : Monitor := {}
  now : Nat := 0
  /-- The loops that have not ended. -/
  loops : List Loop := []
  /-- The loop started last, unless it has been shut down. -/
  handle : Option Nat := none
  /-- Number of the next loop. -/
  nextLoop : Nat := 0

/-- Why a supervisor cannot start. -/
inductive StartError where
  | settings (error : SettingsError)
  | queues (directory : String) (error : RingError)
  deriving DecidableEq, Repr

/-- The wording of a failure, outermost cause first. -/
def StartError.message : StartError → String
  | settings error => error.message
  | queues directory error => s!"Cannot create run queues in {directory}: {error.message}"

namespace Supervisor

/-- A supervisor of a platform and of shared queues.  No task is watched yet, and no loop runs. -/
def ofParts (platform : Platform) (bank : Bank) : Supervisor :=
  { admission := { platform, bank }, arbiter := { cores := bank.count } }

/-- Build the platform and the shared queues that settings describe. -/
def start (s : Settings) (tree : FileTree) : Except StartError Supervisor :=
  match s.platform with
  | .error e => .error (.settings e)
  | .ok platform =>
    match Bank.create tree s.directory s.slots s.capacity.toUInt64 with
    | .error e => .error (.queues s.directory e)
    | .ok bank => .ok (ofParts platform bank)

/-! ### Admission -/

/-- Admit a task, to a given slot or to a run queue that suits it, and watch over it from then
on.  A name that is watched already is refused. -/
def newTask (s : Supervisor) (t : Task) (slot intruder : Option Nat) :
    Admission.Reply × Supervisor :=
  if s.arbiter.tasks.contains t.name then (.refused (.duplicate t.name) false, s)
  else
    let attempt := match slot with
      | some slot => s.admission.placeOn t slot intruder
      | none => s.admission.place t intruder
    let s := { s with admission := attempt.state }
    match attempt.result with
    | .error e => (.refused e attempt.lockTaken, s)
    | .ok placement =>
      (.placed placement attempt.lockTaken,
        { s with arbiter := (s.arbiter.add placement.slot t).2 })

/-! ### Poll loops -/

/-- Whether the loop started last has not ended. -/
def isPolling (s : Supervisor) : Bool :=
  match s.handle with
  | some id => s.loops.any (·.id == id)
  | none => false

/-- Start a loop. -/
def startLoop (s : Supervisor) : Supervisor :=
  { s with
    loops := s.loops ++ [{ id := s.nextLoop }]
    handle := some s.nextLoop
    nextLoop := s.nextLoop + 1 }

/-- Pursue another goal, and start a loop if that needs one and there is none. -/
def setGoal (s : Supervisor) (config : GoalConfig) : Supervisor :=
  let s := { s with arbiter := s.arbiter.setGoal config }
  if config.goal.isActive && !s.isPolling then s.startLoop else s

/-- End the loop started last. -/
def shutdown (s : Supervisor) : Supervisor :=
  match s.handle with
  | some id => { s with loops := s.loops.filter (·.id != id), handle := none }
  | none => s

/-- Let all loops run as far as they can now. -/
def settle (s : Supervisor) : Supervisor :=
  let (arbiter, loops) := Loop.runAll s.now s.monitor s.arbiter s.loops
  { s with arbiter, loops }

/-- Let time pass up to an instant.  Loops run whenever they wake, up to and at its end. -/
def advance (s : Supervisor) (target : Nat) : Supervisor :=
  match _h : Loop.firstWake? s.loops with
  | none => { s with now := target }
  | some wake =>
    if wake ≤ target then advance ({ s with now := wake }.settle) target
    else { s with now := target }
termination_by (Loop.firstWake? s.loops).elim 0 (target + 1 - ·)
decreasing_by
  -- a loop that has run wakes later than before, and the end does not move
  simp only [_h, Option.elim_some]
  cases h' : Loop.firstWake? (settle { s with now := wake }).loops with
  | none => simp; omega
  | some later =>
    have : wake < later := Loop.lt_firstWake_runAll h'
    simp; omega

/-- Let some milliseconds pass. -/
def sleep (s : Supervisor) (ms : Nat) : Supervisor := s.settle.advance (s.now + ms * 1000)

/-! ### Requests -/

/-- Whether the next job of a task may start; not if the task is not watched. -/
def isAllowed (s : Supervisor) (name : String) : Bool :=
  match s.arbiter.isAllowed name with
  | .ok allowed => allowed
  | .error _ => false

/-- What can be asked of a supervisor. -/
inductive Request where
  | newTask (task : Task) (slot intruder : Option Nat)
  /-- Enter the waiting tasks of a slot. -/
  | flush (slot : Nat) (intruder : Option Nat)
  | enqueue (slot : Nat) (task : Task)
  | dequeue (slot : Nat)
  /-- Another process takes the lock of a slot. -/
  | lock (slot : Nat)
  /-- The process that has the lock of a slot frees it. -/
  | unlock (slot : Nat)
  | report (event : Monitor.Event)
  | isAllowed (name : String)
  | lastJobStarted (name : String)
  | move (name : String) (core : Nat)
  | setGoal (config : GoalConfig)
  | shutdown
  /-- Give the loops a chance to run. -/
  | wait
  | sleep (ms : Nat)

/-- The answer to a request. -/
inductive Reply where
  | admission (reply : Admission.Reply)
  | flag (value : Bool)
  | done
  | clock (now : Nat)

/-- Carry out a request about admission. -/
def toAdmission (s : Supervisor) (request : Admission.Request) : Reply × Supervisor :=
  let (reply, admission) := s.admission.perform request
  (.admission reply, { s with admission })

/-- Answer one request. -/
def perform (s : Supervisor) : Request → Reply × Supervisor
  | .newTask task slot intruder =>
    let (reply, s) := s.newTask task slot intruder
    (.admission reply, s)
  | .flush slot intruder => s.toAdmission (.flush slot intruder)
  | .enqueue slot task => s.toAdmission (.enqueue slot task)
  | .dequeue slot => s.toAdmission (.dequeue slot)
  | .lock slot => s.toAdmission (.lock slot)
  | .unlock slot => s.toAdmission (.unlock slot)
  | .report event =>
    let (known, monitor) := s.monitor.take event
    (.flag known, { s with monitor })
  | .isAllowed name => (.flag (s.isAllowed name), s)
  | .lastJobStarted name => (.done, { s with arbiter := (s.arbiter.lastJobStarted name).2 })
  | .move name core =>
    match s.arbiter.move name core with
    | (.ok (), arbiter) => (.flag true, { s with arbiter })
    | (.error _, arbiter) => (.flag false, { s with arbiter })
  | .setGoal config => (.done, s.setGoal config)
  | .shutdown => (.done, s.shutdown)
  | .wait => (.done, s.settle)
  | .sleep ms =>
    let s := s.sleep ms
    (.clock s.now, s)

end Supervisor

end RealTime
