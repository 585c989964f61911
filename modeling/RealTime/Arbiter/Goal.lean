import RealTime.Arbiter.Record

/-! # Goals

The goal selects the measure by which competing tasks are compared.  Without a goal nothing is
compared and no permission changes. -/

namespace RealTime

/-- What the arbiter strives for. -/
inductive Goal where
  | none
  /-- Equal debts. -/
  | fairness
  /-- The most used task first. -/
  | utilization
  deriving DecidableEq, Repr, Inhabited

namespace Goal

/-- The name of the goal in files. -/
def name : Goal → String
  | .none => "none"
  | .fairness => "fairness"
  | .utilization => "utilization"

/-- The goal with a given name. -/
def ofName? : String → Option Goal
  | "none" => some .none
  | "fairness" => some .fairness
  | "utilization" => some .utilization
  | _ => Option.none

/-- The goals in their fixed order. -/
def all : List Goal := [.none, .fairness, .utilization]

/-- Whether the arbiter has something to do. -/
def isActive (g : Goal) : Bool := g != .none

theorem ofName?_name (g : Goal) : ofName? g.name = some g := by cases g <;> rfl

end Goal

/-- A goal and how it is pursued. -/
structure GoalConfig where
  goal : Goal := .none
  /-- Debt by which a competitor must lead before it takes the permission. -/
  acceptance : Nat := 0
  /-- Time between two polls, in milliseconds. -/
  intervalMs : Nat := 100
  deriving DecidableEq, Repr

/-- Time between two polls: at least one millisecond. -/
def GoalConfig.interval (c : GoalConfig) : Nat := max c.intervalMs 1 * 1000

/-- What a task has to show under a goal: a debt, or a utilization. -/
inductive Metric where
  | debt (d : Nat)
  | load (u : Float)

namespace Metric

/-- The metric as a number. -/
def toFloat : Metric → Float
  | debt d => d.toUInt64.toFloat
  | load u => u

/-- Whether a metric is larger than another one. -/
def exceeds : Metric → Metric → Bool
  | debt d, debt e => e < d
  | load u, load v => v < u
  | _, _ => false

/-- A metric with a margin on top. -/
def plus : Metric → Nat → Metric
  | debt d, margin => debt (d + margin)
  | load u, _ => load u

end Metric

/-- The metric of a task under a goal. -/
def Goal.metric (g : Goal) (r : Record) : Option Metric :=
  match g with
  | .none => Option.none
  | .fairness => some (.debt r.debt)
  | .utilization => some (.load r.utilization)

/-- The margin by which a competitor must lead, as a number. -/
def GoalConfig.threshold (c : GoalConfig) : Float :=
  match c.goal with
  | .fairness => c.acceptance.toUInt64.toFloat
  | _ => 0.0

end RealTime
