/-! # The microsecond clock

Instants and durations are counted in microseconds up to `Clock.limit`, the largest value of
a 64-bit word.  Sums and products that would pass the limit stop there.

An instant is moved by `Clock.after`, which neither passes the limit nor goes back:

* `le_after`        `t ≤ after t d`
* `after_le_after`  later instants and longer durations end later
* `lt_after`        below the limit a positive duration moves the instant -/

namespace RealTime.Clock

/-- The largest instant and the longest duration. -/
def limit : Nat := 0xFFFFFFFFFFFFFFFF

/-- Sum of two durations, at most `limit`. -/
def add (a b : Nat) : Nat := min (a + b) limit

/-- A duration taken `n` times, at most `limit`. -/
def mul (n a : Nat) : Nat := min (n * a) limit

/-- The instant that is `d` after `t`, at most `limit` and never before `t`. -/
def after (t d : Nat) : Nat := max t (min (t + d) limit)

theorem add_le_limit (a b : Nat) : add a b ≤ limit := Nat.min_le_right _ _

theorem mul_le_limit (n a : Nat) : mul n a ≤ limit := Nat.min_le_right _ _

theorem add_le_add {a b c d : Nat} (h : a ≤ c) (h' : b ≤ d) : add a b ≤ add c d := by
  unfold add; omega

theorem mul_le_mul {n m a b : Nat} (h : n ≤ m) (h' : a ≤ b) : mul n a ≤ mul m b := by
  have := Nat.mul_le_mul h h'
  unfold mul; omega

theorem le_add {a b : Nat} (h : a ≤ limit) : a ≤ add a b := by
  unfold add; omega

theorem le_after (t d : Nat) : t ≤ after t d := Nat.le_max_left _ _

theorem after_le_after {t u d e : Nat} (h : t ≤ u) (h' : d ≤ e) : after t d ≤ after u e := by
  unfold after; omega

theorem lt_after {t d : Nat} (h : t < limit) (h' : 0 < d) : t < after t d := by
  unfold after; omega

/-- Within the limit, `after` is the plain sum. -/
theorem after_eq_add {t d : Nat} (h : t + d ≤ limit) : after t d = t + d := by
  unfold after; omega

end RealTime.Clock
