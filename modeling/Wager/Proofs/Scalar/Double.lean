import Mathlib
import Wager.Fid
import Wager.Scalar.Double

/-!
# Facts about machine doubles

Of two doubles at most one is above the other, a double above one is not zero, and every rung of the
FID ladder is on its own rung.
-/

namespace Wager

open Float.Model

theorem compare_swap (a b : UnpackedFloat) : b.compare a = (a.compare b).map Ordering.swap := by
  have sizes (m n : Nat) (e f : Int) :
      (compare f e).then (compare n m) = ((compare e f).then (compare m n)).swap := by
    rw [Ordering.swap_then, ← Std.OrientedCmp.eq_swap, ← Std.OrientedCmp.eq_swap]
  cases a with
  | notANumber => cases b <;> rfl
  | infinity s => cases s <;> cases b with
    | infinity t => cases t <;> rfl
    | _ => rfl
  | zero s => cases b with
    | infinity t => cases t <;> rfl
    | finite t n f h => cases t <;> rfl
    | _ => rfl
  | finite s m e h => cases s <;> cases b with
    | infinity t => cases t <;> rfl
    | finite t n f h =>
      -- Numbers of one sign compare by size, the negative ones the other way around.
      cases t <;> first
        | rfl
        | exact congrArg some (sizes m n e f)
        | exact congrArg (some ∘ Ordering.swap) (sizes m n e f)
    | _ => rfl

theorem lt_eq_le_and_not_le (a b : UnpackedFloat) : a.lt b = (a.le b && !b.le a) := by
  rw [UnpackedFloat.lt, UnpackedFloat.le, UnpackedFloat.le, compare_swap a b]
  cases a.compare b with
  | none => rfl
  | some order => cases order <;> rfl

theorem beq_eq_le_and_le (a b : UnpackedFloat) : a.beq b = (a.le b && b.le a) := by
  rw [UnpackedFloat.beq, UnpackedFloat.le, UnpackedFloat.le, compare_swap a b]
  cases a.compare b with
  | none => rfl
  | some order => cases order <;> rfl

theorem beq_iff_le_and_le {x y : Float} : (x == y) = true ↔ x ≤ y ∧ y ≤ x := by
  have weak (x y : Float) : x ≤ y ↔ x.toModel.unpack.le y.toModel.unpack = true :=
    decide_eq_true_iff
  have equal : (x == y) = x.toModel.unpack.beq y.toModel.unpack := rfl
  rw [weak, weak, equal, beq_eq_le_and_le, Bool.and_eq_true]

instance lawfulOrderLT_float : Std.LawfulOrderLT Float where
  lt_iff a b := by
    have strict : a < b ↔ a.toModel.unpack.lt b.toModel.unpack = true := decide_eq_true_iff
    have weak (x y : Float) : x ≤ y ↔ x.toModel.unpack.le y.toModel.unpack = true :=
      decide_eq_true_iff
    rw [strict, weak, weak, lt_eq_le_and_not_le]
    simp

theorem Scalar.isZero_eq_false_of_pos {α : Type} [Scalar α] [Std.LawfulOrderLT α] {x : α}
    (h : 0.0 < x) : isZero x = false := by
  have above : ¬x ≤ 0.0 := ((Std.LawfulOrderLT.lt_iff 0.0 x).mp h).2
  simp [isZero, above]

/-- Between a positive number and zero there is no double, not even the undefined one. -/
theorem not_le_zero_of_finite_lt {m : Nat} {e : Int} {positive : 0 < m} {s : UnpackedFloat.Sign}
    {x : UnpackedFloat} (above : (UnpackedFloat.finite .positive m e positive).lt x = true) :
    x.le (.zero s) = false := by
  cases x with
  | notANumber => rfl
  | zero t => cases above
  | infinity t =>
    cases t with
    | positive => rfl
    | negative => cases above
  | finite t n f h =>
    cases t with
    | positive => rfl
    | negative => cases above

theorem Scalar.isZero_eq_false_of_one_lt {x : Float} (h : 1.0 < x) : isZero x = false := by
  have above : (1.0 : Float).toModel.unpack.lt x.toModel.unpack = true := of_decide_eq_true h
  have notBelow : x.toModel.unpack.le (0.0 : Float).toModel.unpack = false :=
    not_le_zero_of_finite_lt above
  have notLe : ¬x ≤ 0.0 := by
    intro below
    have model : x.toModel.unpack.le (0.0 : Float).toModel.unpack = true := of_decide_eq_true below
    rw [notBelow] at model
    cases model
  simp [isZero, notLe]

theorem Fid.rungOf?_of_mem_rungs : ∀ x ∈ (rungs : List Float), rungOf? x = some x := by
  decide

end Wager
