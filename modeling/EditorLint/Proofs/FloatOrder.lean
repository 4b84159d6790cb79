import Mathlib.Order.Basic
import Mathlib.Data.Ordering.Basic

/-!
# The order of floating-point numbers

Two numbers can be compared unless one of them is not a number, and the comparison is turned
around with its sides (`compare_swap`).  So what is not at most a bound is above it, or one of
the two is not a number (`not_le_iff`, `not_lt_iff`); and what is not a number is on no side of
any bound.
-/

namespace EditorLint.FloatOrder

open Float.Model UnpackedFloat

theorem sign_swap (s t : Sign) : compare t s = (compare s t).swap := by
  cases s <;> cases t <;> rfl

theorem magnitude_swap (m₁ m₂ : Nat) (e₁ e₂ : Int) :
    (compare e₂ e₁).then (compare m₂ m₁) = ((compare e₁ e₂).then (compare m₁ m₂)).swap := by
  rw [Ordering.swap_then, ← Std.OrientedOrd.eq_swap, ← Std.OrientedOrd.eq_swap]

/-- A comparison is turned around with its sides. -/
theorem compare_swap (a b : UnpackedFloat) : b.compare a = (a.compare b).map Ordering.swap := by
  cases a with
  | notANumber => cases b <;> rfl
  | infinity s => cases b with
    | infinity t => exact congrArg some (sign_swap s t)
    | notANumber => cases s <;> rfl
    | zero t => cases s <;> rfl
    | finite t => cases s <;> rfl
  | zero s => cases b with
    | infinity t => cases t <;> rfl
    | notANumber => rfl
    | zero t => rfl
    | finite t => cases t <;> rfl
  | finite s m₁ e₁ => cases b with
    | infinity t => cases t <;> rfl
    | notANumber => cases s <;> rfl
    | zero t => cases s <;> rfl
    | finite t m₂ e₂ =>
      cases s <;> cases t
      · exact congrArg (fun o => some (Ordering.swap o)) (magnitude_swap m₁ m₂ e₁ e₂)
      · rfl
      · rfl
      · exact congrArg some (magnitude_swap m₁ m₂ e₁ e₂)

theorem isNone_compare (a b : UnpackedFloat) : (a.compare b).isNone = (a.isNaN || b.isNaN) := by
  cases a with
  | notANumber => cases b <;> rfl
  | infinity s => cases b <;> cases s <;> rfl
  | zero s =>
    cases b with
    | infinity t | finite t => cases t <;> rfl
    | notANumber | zero => rfl
  | finite s =>
    cases b with
    | infinity t | finite t => cases s <;> cases t <;> rfl
    | notANumber | zero => cases s <;> rfl

variable {x y : Float}

def order (x y : Float) : Option Ordering := x.toModel.unpack.compare y.toModel.unpack

theorem order_swap (x y : Float) : order y x = (order x y).map Ordering.swap :=
  compare_swap _ _

theorem order_eq_none : order x y = none ↔ x.isNaN = true ∨ y.isNaN = true := by
  rw [← Option.isNone_iff_eq_none, ← Bool.or_eq_true]
  exact Bool.eq_iff_iff.mp (isNone_compare _ _)

theorem le_iff : x ≤ y ↔ order x y = some .lt ∨ order x y = some .eq := by
  show (decide ((order x y).any (·.isLE) = true)) = true ↔ _
  rw [decide_eq_true_iff]
  cases order x y with
  | none => simp
  | some o => cases o <;> simp

theorem lt_iff : x < y ↔ order x y = some .lt := by
  show (decide ((order x y == some .lt) = true)) = true ↔ _
  rw [decide_eq_true_iff, beq_iff_eq]

/-- What is not at most a bound is above it, or cannot be compared. -/
theorem not_le_iff : ¬x ≤ y ↔ y < x ∨ x.isNaN = true ∨ y.isNaN = true := by
  rw [le_iff, lt_iff, order_swap x y, ← order_eq_none]
  cases order x y with
  | none => simp
  | some o => cases o <;> simp

/-- What is not below a bound is at least the bound, or cannot be compared. -/
theorem not_lt_iff : ¬x < y ↔ y ≤ x ∨ x.isNaN = true ∨ y.isNaN = true := by
  rw [le_iff, lt_iff, order_swap x y, ← order_eq_none]
  cases order x y with
  | none => simp
  | some o => cases o <;> simp

theorem isNaN_of_lt (h : y < x) : x.isNaN = false := by
  rw [lt_iff] at h
  cases hx : x.isNaN with
  | false => rfl
  | true => cases (order_eq_none.mpr (.inr hx)).symm.trans h

theorem isNaN_of_le (h : y ≤ x) : x.isNaN = false := by
  rw [le_iff] at h
  cases hx : x.isNaN with
  | false => rfl
  | true =>
    rw [order_eq_none.mpr (.inr hx)] at h
    rcases h with h | h <;> cases h

end EditorLint.FloatOrder
