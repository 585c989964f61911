import RealTime.Clock
import RealTime.Task.Basic

/-! # Worst-case response times

Under fixed priorities a job of a task is delayed by every release of an interfering task
while it is pending.  `demand` is the work that has to be done within a window of length `r`,
and the response time is the least window that its own demand fits into:

* `demand_mono`       a longer window holds at least as much work
* `wcet_le_demand`    a window always holds the job itself
* `ascend`            climbs from a window to the windows its demand asks for, and stops at a
                      window that holds its demand or at the first demand past the deadline -/

namespace RealTime

namespace ResponseTime

/-- Number of releases, a period apart, that a window of length `r` can hold.  A period of
zero counts as one. -/
def releases (r period : Nat) : Nat := (r + (max period 1 - 1)) / max period 1

/-- Work of `wcet` and of all releases of the interfering tasks in a window of length `r`. -/
def demand (wcet : Nat) (interferers : List Task) (r : Nat) : Nat :=
  interferers.foldl
    (fun acc j => Clock.add acc (Clock.mul (releases r j.interArrival.toNat) j.wcet.toNat)) wcet

theorem releases_mono {r s : Nat} (h : r ≤ s) (period : Nat) :
    releases r period ≤ releases s period :=
  Nat.div_le_div_right (by omega)

theorem demand_mono {r s : Nat} (h : r ≤ s) (wcet : Nat) (interferers : List Task) :
    demand wcet interferers r ≤ demand wcet interferers s := by
  suffices ∀ a b, a ≤ b → demand a interferers r ≤ demand b interferers s from
    this wcet wcet (Nat.le_refl _)
  induction interferers with
  | nil => exact fun _ _ hab => hab
  | cons j js ih =>
    intro a b hab
    exact ih _ _ (Clock.add_le_add hab (Clock.mul_le_mul (releases_mono h _) (Nat.le_refl _)))

theorem wcet_le_demand {wcet : Nat} (h : wcet ≤ Clock.limit) (interferers : List Task) (r : Nat) :
    wcet ≤ demand wcet interferers r := by
  induction interferers generalizing wcet with
  | nil => exact Nat.le_refl _
  | cons j js ih => exact Nat.le_trans (Clock.le_add h) (ih (Clock.add_le_limit _ _))

/-- Climb from the window `r` until a window holds its own demand, which is the answer, or
until a demand exceeds `deadline`, which is then the error.  Each step lengthens the window, so
there are at most as many steps as microseconds up to the deadline. -/
def ascend (f : Nat → Nat) (mono : ∀ r s, r ≤ s → f r ≤ f s) (deadline r : Nat) (h : r ≤ f r) :
    Except Nat Nat :=
  if deadline < f r then .error (f r)
  else if f r = r then .ok r
  else ascend f mono deadline (f r) (mono _ _ h)
termination_by deadline - r

end ResponseTime

open ResponseTime in
/-- Worst-case response time of a task among interfering tasks: the least window that holds its
demand, or else the first demand found that exceeds the deadline. -/
def Task.responseTime (t : Task) (interferers : List Task) : Except Nat Nat :=
  ascend (demand t.wcet.toNat interferers) (fun _ _ h => demand_mono h _ _) t.deadline.toNat
    t.wcet.toNat
    (wcet_le_demand (Nat.le_sub_one_of_lt t.wcet.toNat_lt) _ _)

end RealTime
