/-! # Monitoring data

A `Monitor` holds what is known about jobs: the records of jobs that have been seen, in the
order in which they were first seen, and the list of jobs that ended without finishing.  All
times are instants of the controller clock. -/

namespace RealTime

/-- One execution of a task. -/
structure JobRecord where
  id : Nat
  task : String
  core : Nat
  arrival : Nat
  /-- End of the job; 0 while it is running. -/
  exit : Nat
  execution : Nat
  deriving DecidableEq, Repr

/-- The end of a job that left the record list. -/
structure Termination where
  id : Nat
  exit : Nat
  deriving DecidableEq, Repr

/-- Jobs that have been seen and jobs that were terminated. -/
structure Monitor where
  jobs : List JobRecord := []
  terminated : List Termination := []

namespace Monitor

/-- Replace the first job with a given number, if there is one. -/
def replace (id : Nat) (f : JobRecord → JobRecord) : List JobRecord → Option (List JobRecord)
  | [] => none
  | j :: js => if j.id = id then some (f j :: js) else (replace id f js).map (j :: ·)

/-- Enter a job.  It takes the place of a job with the same number. -/
def record (m : Monitor) (job : JobRecord) : Monitor :=
  { m with jobs := (replace job.id (fun _ => job) m.jobs).getD (m.jobs ++ [job]) }

/-- Set the end and the execution time of a job; the answer is whether the job is known. -/
def finish (m : Monitor) (id exit execution : Nat) : Bool × Monitor :=
  match replace id (fun j => { j with exit, execution }) m.jobs with
  | some jobs => (true, { m with jobs })
  | none => (false, m)

/-- Move a job to the terminated ones. -/
def terminate (m : Monitor) (id exit : Nat) : Monitor where
  jobs := m.jobs.filter (·.id != id)
  terminated := m.terminated ++ [⟨id, exit⟩]

/-- What can be reported to a monitor. -/
inductive Event where
  | record (job : JobRecord)
  | finish (id exit execution : Nat)
  | terminate (id exit : Nat)
  | clear

/-- Take in a report.  The answer is whether the report was about something known. -/
def take (m : Monitor) : Event → Bool × Monitor
  | .record job => (true, m.record job)
  | .finish id exit execution => m.finish id exit execution
  | .terminate id exit => (true, m.terminate id exit)
  | .clear => (true, {})

end Monitor

/-- Monitoring data as one poll sees it. -/
structure Snapshot where
  now : Nat
  jobs : List JobRecord
  terminated : List Termination

/-- The data of a monitor at an instant. -/
def Monitor.snapshot (m : Monitor) (now : Nat) : Snapshot := ⟨now, m.jobs, m.terminated⟩

end RealTime
