import Mathlib.Data.Prod.Lex
import RealTime.Proofs.Hosting

/-! # The order of utilizations

Floating-point numbers are compared by sign, then by exponent, then by mantissa.  `rank` puts these
three into one key.  So all of them lie on one line, with the two zeros in one place of it.  What is
not a number is not smaller or larger than anything; it is put behind the numbers, where it is never
the smaller one of two.

* `lt_iff_rank`   a utilization is smaller than a number if its rank is
* `not_lt_of_isNaN`, `isNaN_of_lt`  what is not a number is on neither side of `<` -/

namespace RealTime.Platform

open Float.Model (UnpackedFloat)

/-- The place of a number in the order of all numbers.  Below zero, the larger in size is the
smaller.  What is not a number comes last. -/
def rank : UnpackedFloat → ℤ ×ₗ ℤ ×ₗ ℤ
  | .infinity .negative => toLex (-2, toLex (0, 0))
  | .finite .negative m e _ => toLex (-1, toLex (-e, -m))
  | .zero _ => toLex (0, toLex (0, 0))
  | .finite .positive m e _ => toLex (1, toLex (e, m))
  | .infinity .positive => toLex (2, toLex (0, 0))
  | .notANumber => toLex (3, toLex (0, 0))

private theorem then_eq_lt {e₁ e₂ : ℤ} {m₁ m₂ : ℕ} :
    (compare e₁ e₂).then (compare m₁ m₂) = .lt ↔ e₁ < e₂ ∨ e₁ = e₂ ∧ m₁ < m₂ := by
  rw [Ordering.then_eq_lt, compare_lt_iff_lt, compare_lt_iff_lt, compare_eq_iff_eq]

private theorem then_eq_gt {e₁ e₂ : ℤ} {m₁ m₂ : ℕ} :
    (compare e₁ e₂).then (compare m₁ m₂) = .gt ↔ e₂ < e₁ ∨ e₁ = e₂ ∧ m₂ < m₁ := by
  rw [Ordering.then_eq_gt, compare_gt_iff_gt, compare_gt_iff_gt, compare_eq_iff_eq]

theorem compare_eq_lt_iff_rank {x y : UnpackedFloat} (hy : y.isNaN = false) :
    x.compare y = some .lt ↔ rank x < rank y := by
  -- only two finite numbers of one sign are compared by more than their kinds
  cases x with
  | notANumber =>
    cases y with
    | notANumber => cases hy
    | infinity s' | zero s' | finite s' =>
      cases s' <;> dsimp only [UnpackedFloat.compare, rank] <;> simp [Prod.Lex.toLex_lt_toLex]
  | infinity s =>
    cases y with
    | notANumber => cases hy
    | infinity s' => cases s <;> cases s' <;> decide
    | zero s' | finite s' =>
      cases s <;> cases s' <;> dsimp only [UnpackedFloat.compare, rank] <;>
        simp [Prod.Lex.toLex_lt_toLex]
  | zero s =>
    cases y with
    | notANumber => cases hy
    | infinity s' | zero s' | finite s' =>
      cases s' <;> dsimp only [UnpackedFloat.compare, rank] <;> simp [Prod.Lex.toLex_lt_toLex]
  | finite s =>
    cases y with
    | notANumber => cases hy
    | infinity s' | zero s' =>
      cases s <;> cases s' <;> dsimp only [UnpackedFloat.compare, rank] <;>
        simp [Prod.Lex.toLex_lt_toLex]
    | finite s' =>
      cases s <;> cases s' <;> dsimp only [UnpackedFloat.compare, rank] <;>
        simp [Prod.Lex.toLex_lt_toLex, Ordering.swap_eq_lt, then_eq_lt, then_eq_gt]

/-- A utilization is smaller than a number if its rank is. -/
theorem lt_iff_rank {u v : Float} (hv : v.isNaN = false) :
    u < v ↔ rank u.toModel.unpack < rank v.toModel.unpack :=
  lt_iff_compare.trans (compare_eq_lt_iff_rank hv)

/-- Nothing is smaller than what is not a number. -/
theorem not_lt_of_isNaN {u v : Float} (hv : v.isNaN = true) : ¬ u < v := by
  rw [lt_iff_compare]
  cases hv' : v.toModel.unpack with
  | notANumber => cases u.toModel.unpack <;> nofun
  | infinity | zero | finite =>
    rw [show v.isNaN = v.toModel.unpack.isNaN from rfl, hv'] at hv
    cases hv

/-- Nor is it smaller than anything. -/
theorem isNaN_of_lt {u v : Float} (h : u < v) : u.isNaN = false := by
  rw [lt_iff_compare] at h
  show u.toModel.unpack.isNaN = false
  cases hu : u.toModel.unpack with
  | notANumber =>
    rw [hu] at h
    cases h
  | infinity | zero | finite => rfl

end RealTime.Platform
