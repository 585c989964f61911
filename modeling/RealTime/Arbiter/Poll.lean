import RealTime.Arbiter.Basic

/-! # Polls

At a poll the arbiter examines every task whose current job must have ended by now, and every
task none of whose jobs has been seen.  What an examination finds is fixed by the record of the
task and the monitoring data alone (`Finding.of`); what follows from it changes the arbiter
(`examine`).

A job that has missed its deadline makes the task that caused the miss a competitor: the other
supervised task whose job ended last between the release of the late job and its deadline. -/

namespace RealTime

/-- What the examination of a task finds. -/
inductive Finding where
  /-- No job of the task has been seen, now or before. -/
  | unseen
  /-- No new job, as expected: it was denied. -/
  | denied
  /-- No new job, and none will come. -/
  | finished
  /-- No new job, although it was permitted. -/
  | missing
  /-- No new job, and the newest known one is older than the current release. -/
  | outdated
  /-- The newest job is neither recorded nor terminated. -/
  | vanished
  /-- The newest job was terminated before its deadline. -/
  | killed
  /-- The newest job was terminated at its deadline or later. -/
  | terminatedLate
  /-- One new job whose deadline is ahead. -/
  | running (job : JobRecord)
  /-- One new job whose deadline has passed. -/
  | due (job : JobRecord)
  /-- Several new jobs; the deadline of the latest is ahead. -/
  | overtaken (earlier latest : JobRecord)
  /-- Several new jobs; the deadline of the latest has passed. -/
  | bothDue (earlier latest : JobRecord)
  deriving DecidableEq, Repr

namespace Finding

/-- The recorded jobs of a task that arrived at or after its current release and before now. -/
def newJobs (name : String) (r : Record) (s : Snapshot) : List JobRecord :=
  s.jobs.filter fun j => j.task = name && r.arrival ≤ j.arrival && j.arrival < s.now

/-- What it means that there is no new job. -/
def ofAbsence (r : Record) (s : Snapshot) : Finding :=
  if r.arrival = 0 then unseen
  else if !r.allowed then denied
  else if r.newest.handled then (if r.lastJobStarted then finished else missing)
  else if r.newest.arrival < r.arrival then outdated
  else
    match s.terminated.find? (·.id == r.newest.id) with
    | none => vanished
    | some t =>
      if Clock.after r.newest.arrival r.deadline ≤ t.exit then terminatedLate else killed

/-- What the examination of a task finds. -/
def of (name : String) (r : Record) (s : Snapshot) : Finding :=
  let isDue (j : JobRecord) : Bool := Clock.after j.arrival r.deadline ≤ s.now
  -- the job that arrived last comes first
  match (newJobs name r s).mergeSort (fun i j => j.arrival ≤ i.arrival) with
  | [] => ofAbsence r s
  | [job] => if isDue job then due job else running job
  | latest :: earlier :: _ =>
    if isDue latest then bothDue earlier latest else overtaken earlier latest

/-- The recorded jobs that are judged upon a finding, in the order of their judgement. -/
def judged : Finding → List JobRecord
  | due job => [job]
  | overtaken earlier _ => [earlier]
  | bothDue earlier latest => [earlier, latest]
  | _ => []

end Finding

/-- Whether a job ended within a duration after its arrival. -/
def JobRecord.metDeadline (j : JobRecord) (deadline : Nat) : Bool :=
  0 < j.exit && j.exit ≤ Clock.after j.arrival deadline

namespace Arbiter

/-! ### Causes of missed deadlines -/

/-- Prefer a later exit to the best one so far. -/
def laterExit (best : Option (Nat × String)) (exit : Nat) (owner : String) :
    Option (Nat × String) :=
  match best with
  | none => some (exit, owner)
  | some (t, _) => if t < exit then some (exit, owner) else best

/-- The other supervised task whose newest job has a given number. -/
def ownerOf? (a : Arbiter) (name : String) (job : Nat) : Option String :=
  (a.tasks.entries.find? fun (other, r) => other != name && r.newest.id == job).map (·.1)

/-- The other supervised task whose job ended last between the release of a job and its
deadline.  Recorded jobs count before terminated ones, and earlier entries before later ones
that ended at the same time. -/
def cause? (a : Arbiter) (name : String) (released : Nat) (s : Snapshot) : Option String :=
  match a.tasks.get? name with
  | none => none
  | some r =>
    let inWindow (t : Nat) : Bool :=
      0 < t && released ≤ t && t ≤ Clock.after released r.deadline
    let recorded := s.jobs.foldl (fun best j =>
      if j.task != name && inWindow j.exit && a.tasks.contains j.task then
        laterExit best j.exit j.task
      else best) none
    -- a terminated job tells only its number, so its task is looked up by the newest jobs
    let all := s.terminated.foldl (fun best t =>
      if t.id != 0 && inWindow t.exit then
        match a.ownerOf? name t.id with
        | some owner => laterExit best t.exit owner
        | none => best
      else best) recorded
    all.map (·.2)

/-- Put two tasks into one group. -/
def relate (a : Arbiter) (name cause : String) : Arbiter :=
  let g := a.groupOf name
  let h := a.groupOf cause
  if g = 0 ∧ h = 0 then
    let (id, groups) := a.groups.create name cause
    ({ a with groups }.setGroup name id).setGroup cause id
  else if g = 0 then { a with groups := a.groups.addMember h name }.setGroup name h
  else if h = 0 then { a with groups := a.groups.addMember g cause }.setGroup cause g
  else
    match a.groups.merge g h with
    | none => a
    | some (m, groups) => m.moved.foldl (·.setGroup · m.survivor) { a with groups }

/-- Make the cause of a miss a competitor of the task that missed. -/
def blame (a : Arbiter) (name cause : String) : Arbiter :=
  let a := a.modify name fun r => { r with competitors := r.competitors.insert cause }
  -- the task counts along with its competitors
  let needed := match a.tasks.get? name with
    | some r => r.competitors.size + 1
    | none => 0
  let a := a.relate name cause
  { a with groups := a.groups.raiseThreshold (a.groupOf name) needed }

/-- A job of a task, released at a given instant, has missed its deadline. -/
def miss (a : Arbiter) (name : String) (released : Nat) (s : Snapshot) : Arbiter :=
  if a.tasks.contains name then
    let a := match a.cause? name released s with
      | none => a
      | some cause => a.blame name cause
    a.charge name
  else a

/-! ### Judging jobs -/

/-- Take note of a job as the newest of its task. -/
def observe (a : Arbiter) (job : JobRecord) : Arbiter := a.modify job.task (·.observe job)

/-- Take note of the jobs of all other tasks. -/
def observeOthers (a : Arbiter) (name : String) (s : Snapshot) : Arbiter :=
  s.jobs.foldl (fun a j => if j.task = name then a else a.observe j) a

/-- Record that a job kept its deadline. -/
def reward (r : Record) (job : JobRecord) : Record :=
  let r := r.modifyDebt r.core (· - 1)
  if r.interArrival = 0 then r
  else
    { r with utilization := job.execution.toUInt64.toFloat / r.interArrival.toUInt64.toFloat }

/-- Judge a recorded job of a task whose deadline counts as passed. -/
def judge (a : Arbiter) (name : String) (job : JobRecord) (s : Snapshot) : Arbiter :=
  let a := a.modify name (·.follow job.core a.cores)
  match a.tasks.get? name with
  | none => a
  | some r =>
    if job.metDeadline r.deadline then a.modify name (reward · job)
    else a.miss name job.arrival s

/-- Decide after the last of the judged jobs, and mark it as handled. -/
def conclude (a : Arbiter) (name : String) (job : JobRecord) : Arbiter :=
  ((a.arbitrate name).modify name (·.observe job)).modify name fun r =>
    if r.newest.id = job.id then { r with newest := { r.newest with handled := true } } else r

/-- Move the current release of a task to the arrival of a job. -/
def setArrival (a : Arbiter) (name : String) (job : JobRecord) : Arbiter :=
  a.modify name fun r => { r with arrival := job.arrival }

/-- Move the current release of a task to one period after the arrival of a job. -/
def setNextArrival (a : Arbiter) (name : String) (job : JobRecord) : Arbiter :=
  a.modify name fun r => { r with arrival := Clock.after job.arrival r.interArrival }

/-! ### Ends of tasks -/

/-- Take a task out of its group.  A group of one is dissolved; the threshold of a larger group
is derived anew if the task may have been the reason for it. -/
def leaveGroup (a : Arbiter) (name : String) (r : Record) : Arbiter :=
  match a.groups.get? r.group with
  | none => a
  | some g =>
    let members := g.members.erase name
    if members.size ≤ 1 then
      let a := { a with groups := a.groups.erase r.group }
      match members.elems.head? with
      | some last => a.setGroup last 0
      | none => a
    else
      let threshold :=
        -- with fewer competitors the task cannot have set the threshold
        if g.threshold ≤ r.competitors.size + 1 then
          let counts := members.elems.filterMap fun m =>
            (a.tasks.get? m).map (·.competitors.size)
          counts.foldl max 0 + 1
        else g.threshold
      { a with groups := a.groups.modify r.group fun _ => { threshold, members } }

/-- End the supervision of a task.  Nobody competes with it any more, and all decisions that it
had a part in are made again. -/
def remove (a : Arbiter) (name : String) (lastJob : Nat) (cause : EndCause) : Arbiter :=
  match a.tasks.get? name with
  | none => a
  | some r =>
    let ended := if a.ended.contains name then a.ended else a.ended.insert name ⟨lastJob, cause⟩
    let tasks := a.tasks.erase name
    -- those that lose a competitor are decided about while the group still stands
    let affected := (tasks.filter fun _ o => name ∈ o.competitors).keys
    let tasks := tasks.mapValues fun _ o => { o with competitors := o.competitors.erase name }
    let a := { a with tasks, ended }.arbitrateAll affected
    let relatives := match a.groups.get? r.group with
      | some g => (g.members.erase name).elems
      | none => []
    (a.leaveGroup name r).arbitrateAll relatives

/-! ### Examinations -/

/-- Draw the consequences of a finding about a task. -/
def conclusions (a : Arbiter) (name : String) (r : Record) (s : Snapshot) : Finding → Arbiter
  | .unseen | .missing | .outdated | .vanished => a
  | .denied =>
    (a.modify name fun r => { r with arrival := Clock.after r.arrival r.interArrival }).charge name
  | .finished => a.remove name r.newest.id .finished
  | .killed => a.remove name r.newest.id .killed
  | .terminatedLate =>
    let a := a.modify name (·.follow r.newest.core a.cores)
    (a.miss name r.newest.arrival s).modify name fun r =>
      { r with newest := { r.newest with handled := true } }
  | .running job => (a.modify name (·.observe job)).setArrival name job
  | .due job => ((a.judge name job s).conclude name job).setNextArrival name job
  | .overtaken earlier latest =>
    let a := a.modify name (·.observe latest)
    ((a.judge name earlier s).conclude name earlier).setArrival name latest
  | .bothDue earlier latest =>
    let a := a.judge name earlier s
    ((a.judge name latest s).conclude name latest).setNextArrival name latest

/-- Examine a task. -/
def examine (a : Arbiter) (name : String) (s : Snapshot) : Arbiter :=
  match a.tasks.get? name with
  | none => a
  | some r => (a.observeOthers name s).conclusions name r s (.of name r s)

/-- Whether a task is to be examined at an instant. -/
def isDue (now : Nat) (r : Record) : Bool := r.arrival = 0 || r.absoluteDeadline ≤ now

/-- The tasks that are to be examined at an instant. -/
def dueTasks (a : Arbiter) (now : Nat) : List String := (a.tasks.filter fun _ r => isDue now r).keys

/-- Examine the tasks that are due and still supervised when their turn comes.  The answer is
how many have been examined. -/
def poll (a : Arbiter) (s : Snapshot) : Nat × Arbiter :=
  if a.config.goal.isActive then
    (a.dueTasks s.now).foldl (fun (n, a) name =>
      -- the examination of another task may have ended this one
      if a.tasks.contains name then (n + 1, a.examine name s) else (n, a)) (0, a)
  else (0, a)

/-! ### Requests -/

/-- What can be asked of the arbiter. -/
inductive Request where
  | setGoal (config : GoalConfig)
  | add (core : Nat) (task : Task)
  | lastJobStarted (name : String)
  | move (name : String) (core : Nat)
  | poll (snapshot : Snapshot)

/-- Carry out a request.  The answer to a poll is the number of tasks examined, to others 0. -/
def perform (a : Arbiter) : Request → Except ArbiterError Nat × Arbiter
  | .setGoal config => (.ok 0, a.setGoal config)
  | .add core task =>
    let (result, a) := a.add core task
    (result.map fun () => 0, a)
  | .lastJobStarted name =>
    let (result, a) := a.lastJobStarted name
    (result.map fun () => 0, a)
  | .move name core =>
    let (result, a) := a.move name core
    (result.map fun () => 0, a)
  | .poll s =>
    let (n, a) := a.poll s
    (.ok n, a)

end Arbiter

end RealTime
