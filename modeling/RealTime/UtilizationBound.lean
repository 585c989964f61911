import RealTime.Task.Basic

/-! # Utilization bound

A cheap sufficient test: a prefix of `n` tasks, most urgent first, surely keeps its deadlines
while its total utilization stays within `n · (2^(1/n) − 1)`.  The test only advises; a failed
level proves nothing. -/

namespace RealTime

/-- Total utilization up to which `n` tasks under fixed priorities are schedulable. -/
def utilizationBound (n : Nat) : Float :=
  if n = 0 then 0.0
  else
    let x := n.toUInt64.toFloat
    x * (Float.pow 2.0 (1.0 / x) - 1.0)

/-- The first prefix of tasks whose utilization exceeds its bound. -/
structure Overload where
  /-- Number of tasks in the prefix. -/
  level : Nat
  /-- Name of the least urgent task of the prefix. -/
  task : String
  utilization : Float
  bound : Float

namespace Overload

/-- Slack that rounding may add to a sum of utilizations. -/
def tolerance : Float := 1e-12

/-- Search the prefixes of a list from the prefix of length `level` with utilization `total`. -/
def search (level : Nat) (total : Float) : List Task → Option Overload
  | [] => none
  | t :: ts =>
    let total := total + t.utilization
    let bound := utilizationBound (level + 1)
    if total > bound + tolerance then some ⟨level + 1, t.name, total, bound⟩
    else search (level + 1) total ts

/-- The first overloaded prefix of the given tasks, most urgent first.  Tasks without a
distance between releases have no utilization and are left out. -/
def find? (tasks : List Task) : Option Overload :=
  let periodic := tasks.filter (fun t => t.interArrival != 0)
  search 0 0.0 (periodic.mergeSort (fun t u => t.prio ≤ u.prio))

end Overload

end RealTime
