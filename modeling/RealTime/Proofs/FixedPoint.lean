import Mathlib.Algebra.Order.Floor.Div
import Mathlib.GroupTheory.GroupAction.Ring
import Mathlib.Order.Iterate
import RealTime.Proofs.Schedulability

/-! # Response times as fixed points

The response time of a task is found by iteration.  The first window is the time that the job itself
takes, and each window is followed by the work that it holds, until a window holds no more than
itself or the work exceeds the deadline.  Work is counted by a clock that stops at its limit, so
`Task.work`, which does not stop, says what the result is worth.

* `ascend_stops`      how a climb proceeds and where it stops
* `demand_eq_work`    the clock counts the work, up to its limit
* `responseTime_iterates`  the response time is the least fixed point, or some iterate is past the
                      deadline
* `responseTime_exact_or_limit`  it is a window that holds its work exactly, unless the deadline is
                      the limit of the clock -/

namespace RealTime

/-- One job of a task and all that its interferers release into a window of length `R`, however much
that is. -/
def Task.work (t : Task) (js : List Task) (R : Nat) : Nat :=
  t.wcet.toNat + (js.map fun j => R ⌈/⌉ j.interArrival.toNat * j.wcet.toNat).sum

namespace ResponseTime

/-- The sequence `r` grows for `n` steps, within the deadline, and then stops: at a value that is
followed by itself, or at one that is followed by the first value past the deadline. -/
structure Stops (r : Nat → Nat) (deadline n : Nat) (result : Except Nat Nat) : Prop where
  grows : ∀ m < n, r m < r (m + 1) ∧ r (m + 1) ≤ deadline
  result_eq : result = .ok (r n) ∧ r (n + 1) = r n ∧ r n ≤ deadline ∨
    result = .error (r (n + 1)) ∧ deadline < r (n + 1)

/-- A climb takes at most as many steps as there are microseconds from its start to the deadline. -/
theorem ascend_stops {f : Nat → Nat} (mono : ∀ r s, r ≤ s → f r ≤ f s) {deadline r : Nat}
    (h : r ≤ f r) :
    ∃ n ≤ deadline - r, Stops (fun m => f^[m] r) deadline n (ascend f mono deadline r h) := by
  fun_induction ascend f mono deadline r h with
  | case1 r h hlt =>
    exact ⟨0, Nat.zero_le _, fun m hm => absurd hm (Nat.not_lt_zero m), .inr ⟨rfl, hlt⟩⟩
  | case2 r h hle heq =>
    refine ⟨0, Nat.zero_le _, fun m hm => absurd hm (Nat.not_lt_zero m), .inl ⟨rfl, heq, ?_⟩⟩
    exact heq ▸ Nat.not_lt.1 hle
  | case3 r h hle hne ih =>
    -- one step from `r`, and then those from its demand
    obtain ⟨n, hn, hgrows, hresult⟩ := ih
    refine ⟨n + 1, by omega, fun m hm => ?_, hresult⟩
    cases m with
    | zero =>
      show r < f r ∧ f r ≤ deadline
      omega
    | succ m => exact hgrows m (Nat.lt_of_succ_lt_succ hm)

/-- A result past the deadline is the first iterate that is. -/
theorem Stops.first {r : Nat → Nat} {deadline n e : Nat} (h : Stops r deadline n (.error e)) :
    r (n + 1) = e ∧ deadline < e ∧ ∀ m < n, r (m + 1) ≤ deadline := by
  rcases h.result_eq with ⟨hok, -⟩ | ⟨herror, hlt⟩
  · cases hok
  · cases herror
    exact ⟨rfl, hlt, fun m hm => (h.grows m hm).2⟩

end ResponseTime

open ResponseTime

/-- The clock counts the work, up to its limit. -/
theorem demand_eq_work (t : Task) {js : List Task} (hpaused : ∀ j ∈ js, j.interArrival ≠ 0)
    (R : Nat) : demand t.wcet.toNat js R = min (t.work js R) Clock.limit := by
  have hreleases : ∀ j ∈ js, releases R j.interArrival.toNat * j.wcet.toNat =
      R ⌈/⌉ j.interArrival.toNat * j.wcet.toNat := by
    intro j hj
    have hne : j.interArrival.toNat ≠ 0 := fun h => hpaused j hj (UInt64.toNat_inj.1 h)
    rw [releases_eq_ceilDiv hne]
  rw [demand_eq_min t.wcet_le_limit, Task.work, List.map_congr_left hreleases]

/-- The search for the response time is a climb from the time that the job takes. -/
theorem responseTime_stops (t : Task) (js : List Task) :
    ∃ n ≤ t.deadline.toNat - t.wcet.toNat,
      Stops (fun m => (demand t.wcet.toNat js)^[m] t.wcet.toNat) t.deadline.toNat n
        (t.responseTime js) :=
  ascend_stops _ _

/-- The response time is found by iteration from the time that the job takes.  The iterates do not
decrease, and after finitely many of them the search is over.  It succeeds if there is a fixed point
up to the deadline, and finds the least one; otherwise it tells the first iterate past the deadline. -/
theorem responseTime_iterates (t : Task) {js : List Task}
    (hpaused : ∀ j ∈ js, j.interArrival ≠ 0) :
    let f R := min (t.work js R) Clock.limit
    let r n := f^[n] t.wcet.toNat
    let D := t.deadline.toNat
    (∀ R, demand t.wcet.toNat js R = f R) ∧ Monotone r ∧
      (∃ n ≤ D - t.wcet.toNat, Stops r D n (t.responseTime js)) ∧
      ((∃ R, t.responseTime js = .ok R) ↔ ∃ R ≤ D, f R = R) ∧
      (∀ R, t.responseTime js = .ok R → R ≤ D ∧ IsLeast {S | f S = S} R) ∧
      ∀ e, t.responseTime js = .error e → ∃ n, r (n + 1) = e ∧ D < e ∧ ∀ m < n, r (m + 1) ≤ D := by
  intro f r D
  have hf : demand t.wcet.toNat js = f := funext (demand_eq_work t hpaused)
  have hstops : ∃ n ≤ D - t.wcet.toNat, Stops r D n (t.responseTime js) := by
    have hclimb := responseTime_stops t js
    rwa [hf] at hclimb
  have hleast : ∀ R, t.responseTime js = .ok R → R ≤ D ∧ IsLeast {S | f S = S} R := by
    intro R hR
    obtain ⟨hfix, hd, hleast⟩ := responseTime_ok hR
    rw [hf] at hfix hleast
    exact ⟨hd, hfix, hleast⟩
  refine ⟨congrFun hf, ?mono, hstops, ?ok, hleast, ?error⟩
  case mono =>
    have hmono : Monotone f := hf ▸ fun R S h => demand_mono h _ _
    have hstart : t.wcet.toNat ≤ f t.wcet.toNat := hf ▸ wcet_le_demand t.wcet_le_limit js _
    exact hmono.monotone_iterate_of_le_map hstart
  case ok =>
    constructor
    · rintro ⟨R, hR⟩
      exact ⟨R, (hleast R hR).1, (hleast R hR).2.1⟩
    · rintro ⟨R, hd, hfix⟩
      exact responseTime_ok_iff.2 ⟨R, hd, hf ▸ Nat.le_of_eq hfix⟩
  case error =>
    intro e he
    obtain ⟨n, -, hn⟩ := hstops
    rw [he] at hn
    exact ⟨n, hn.first⟩

/-- The least urgent of three tasks has the windows 3, 6, 7, 9 and 10, and the last of them holds no
more work. -/
theorem responseTime_iterates_three_tasks :
    let t : Task := { wcet := 3, deadline := 12 }
    let js : List Task := [{ wcet := 1, interArrival := 4 }, { wcet := 2, interArrival := 6 }]
    (∀ j ∈ js, j.interArrival ≠ 0) ∧ t.responseTime js = .ok 10 ∧
      IsLeast {S | min (t.work js S) Clock.limit = S} 10 := by
  intro t js
  have hpaused : ∀ j ∈ js, j.interArrival ≠ 0 := by decide
  have hresponds : t.responseTime js = .ok 10 := by decide +kernel
  obtain ⟨-, -, -, -, hleast, -⟩ := responseTime_iterates t hpaused
  exact ⟨hpaused, hresponds, (hleast 10 hresponds).2⟩

/-- A response time is a window that holds exactly its work, unless the deadline is the limit of the
clock and the clock has stopped there.  Where there is no response time, no window up to the deadline
holds exactly its work. -/
theorem responseTime_exact_or_limit (t : Task) {js : List Task}
    (hpaused : ∀ j ∈ js, j.interArrival ≠ 0) :
    let D := t.deadline.toNat
    (∀ R, t.responseTime js = .ok R → R ≤ D ∧
      (R = t.work js R ∨ D = Clock.limit ∧ R = Clock.limit ∧ Clock.limit < t.work js R)) ∧
    ∀ e, t.responseTime js = .error e → ∀ R ≤ D, R ≠ t.work js R := by
  intro D
  have hlimit : D ≤ Clock.limit := Nat.le_sub_one_of_lt t.deadline.toNat_lt
  constructor
  · intro R hR
    obtain ⟨hfix, hd, -⟩ := responseTime_ok hR
    rw [demand_eq_work t hpaused] at hfix
    refine ⟨hd, ?_⟩
    rcases Nat.lt_or_ge Clock.limit (t.work js R) with hlt | hle
    · -- the clock shows its limit, and no deadline is larger
      rw [Nat.min_eq_right (Nat.le_of_lt hlt)] at hfix
      have hD : D = Clock.limit := Nat.le_antisymm hlimit (hfix ▸ hd)
      exact .inr ⟨hD, hfix.symm, hlt⟩
    · rw [Nat.min_eq_left hle] at hfix
      exact .inl hfix.symm
  · intro e he R hd hwork
    apply (responseTime_error he).2 R hd
    rw [demand_eq_work t hpaused, ← hwork]
    exact Nat.min_eq_left (Nat.le_trans hd hlimit)

/-- Two jobs that are done at the very moment at which the clock stops: the window is exact at the
limit, and a deadline that is a microsecond shorter leaves no window. -/
theorem responseTime_exact_at_limit :
    let t : Task := { wcet := 0x8000000000000000, deadline := 0xFFFFFFFFFFFFFFFF }
    let tight : Task := { t with deadline := 0xFFFFFFFFFFFFFFFE }
    let js : List Task := [{ wcet := 0x7FFFFFFFFFFFFFFF, interArrival := 0xFFFFFFFFFFFFFFFF }]
    (∀ j ∈ js, j.interArrival ≠ 0) ∧ t.responseTime js = .ok Clock.limit ∧
      Clock.limit = t.work js Clock.limit ∧
      tight.responseTime js = .error Clock.limit ∧
      ∀ R ≤ tight.deadline.toNat, R ≠ tight.work js R := by
  intro t tight js
  have hpaused : ∀ j ∈ js, j.interArrival ≠ 0 := by decide
  have hresponds : t.responseTime js = .ok Clock.limit := by decide +kernel
  have hlate : tight.responseTime js = .error Clock.limit := by decide +kernel
  obtain ⟨-, hexact | ⟨-, -, hpast⟩⟩ :=
    (responseTime_exact_or_limit t hpaused).1 _ hresponds
  · exact ⟨hpaused, hresponds, hexact, hlate,
      (responseTime_exact_or_limit tight hpaused).2 _ hlate⟩
  · exact absurd hpast (by decide)

/-- One job takes all the time that the clock can show, and a microsecond of another one comes on top
of it.  The clock stops, its limit is taken for the response time, and the task seems to keep a
deadline at the limit.  No window up to this deadline holds its work. -/
theorem responseTime_past_limit :
    let t : Task := { wcet := 0xFFFFFFFFFFFFFFFF, deadline := 0xFFFFFFFFFFFFFFFF }
    let j : Task := { wcet := 1, interArrival := 0xFFFFFFFFFFFFFFFF }
    j.interArrival ≠ 0 ∧ t.responseTime [j] = .ok Clock.limit ∧
      t.work [j] Clock.limit = Clock.limit + 1 ∧ ∀ R ≤ t.deadline.toNat, R ≠ t.work [j] R := by
  intro t j
  have hwork : t.work [j] Clock.limit = Clock.limit + 1 := by decide
  refine ⟨by decide, by decide +kernel, hwork, fun R hd hR => ?_⟩
  -- a window that holds the job is the longest one that the deadline allows
  have hle : Clock.limit ≤ R := hR ▸ Nat.le_add_right _ _
  obtain rfl : R = Clock.limit := Nat.le_antisymm hd hle
  omega

end RealTime
