import RealTime.ResponseTime

/-! # Admission analysis

A candidate may join the tasks of a run queue if no task that it can delay, itself included,
can then miss its deadline.  Tasks are told apart by their position in the combined list, so
that two equal tasks delay each other.  An empty queue takes any candidate. -/

namespace RealTime

/-- Why a candidate is refused. -/
inductive RejectReason where
  /-- The named task would no longer keep its deadline. -/
  | responseTimeExceeded (task : String) (responseTime deadline : Nat)
  /-- The named task may release jobs without a pause, so its demand has no bound. -/
  | zeroInterArrival (task : String)
  deriving DecidableEq, Repr

/-- The wording of a refusal. -/
def RejectReason.message : RejectReason → String
  | responseTimeExceeded task r d =>
    s!"response time of '{task}' would reach {r}us, deadline is {d}us"
  | zeroInterArrival task => s!"task '{task}' has a zero inter-arrival time"

/-- Outcome of the analysis. -/
inductive Verdict where
  | accept
  | reject (reason : RejectReason)
  deriving DecidableEq, Repr

namespace Schedulability

/-- The tasks of a list, other than the one at position `k`, that can delay it. -/
def interferers (tasks : List Task) (k : Nat) (t : Task) : List Task :=
  (tasks.eraseIdx k).filter (·.interferesWith t)

/-- What speaks against a task among its interferers. -/
def objection (t : Task) (interferers : List Task) : Option RejectReason :=
  match interferers.find? (·.interArrival == 0) with
  | some z => some (.zeroInterArrival z.name)
  | none =>
    match t.responseTime interferers with
    | .ok _ => none
    | .error r => some (.responseTimeExceeded t.name r t.deadline.toNat)

/-- Whether the candidate at the head of a list can delay the task at position `k`.  The
candidate affects itself and every task that is not more urgent. -/
def affects (candidate : Task) (k : Nat) (t : Task) : Bool := k == 0 || !t.outranks candidate

/-- The first objection of an affected task, in the order of the list. -/
def firstObjection (candidate : Task) (queued : List Task) : Option RejectReason :=
  let tasks := candidate :: queued
  tasks.zipIdx.findSome? fun (t, k) =>
    if affects candidate k t then objection t (interferers tasks k t) else none

end Schedulability

/-- Whether a candidate can join a run queue that holds the given tasks. -/
def analyze (candidate : Task) (queued : List Task) : Verdict :=
  if queued.isEmpty then .accept
  else
    match Schedulability.firstObjection candidate queued with
    | none => .accept
    | some reason => .reject reason

end RealTime
