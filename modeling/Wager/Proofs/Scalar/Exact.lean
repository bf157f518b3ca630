import Mathlib
import Wager.Odds

/-!
# Exact numbers

Scalars that compute without rounding: an ordered field whose literals, readings and roundings mean
what they say.  Statements about exact arithmetic hold over every such field.
-/

namespace Wager

/-- Scalars without rounding errors.  Every scalar is a number, no integer is too large, and a
written number is read as what it spells. -/
class ExactScalar (α : Type) extends Scalar α, Field α, LinearOrder α, IsStrictOrderedRing α,
    FloorRing α where
  ofScientific_eq (mantissa : Nat) (negative : Bool) (exponent : Nat) :
    (OfScientific.ofScientific mantissa negative exponent : α) =
      if negative then (mantissa : α) / 10 ^ exponent else (mantissa : α) * 10 ^ exponent
  ofInt?_eq (n : Int) : ofInt? n = some (n : α)
  ofNumeral?_decimal (negative : Bool) (digits : Nat) (exponent : Int) :
    ofNumeral? (.decimal negative digits exponent) =
      some (if negative then -((digits : α) * 10 ^ exponent) else (digits : α) * 10 ^ exponent)
  ofNumeral?_infinite (negative : Bool) : ofNumeral? (.infinite negative) = none
  ofNumeral?_undefined : ofNumeral? .undefined = none
  isFinite_eq (a : α) : isFinite a = true
  scaled_near (places : Nat) (a : α) : |(scaled places a : α) - a * 10 ^ places| ≤ 1 / 2
  scaled_even (places : Nat) (a : α) :
    |(scaled places a : α) - a * 10 ^ places| = 1 / 2 → Even (scaled places a)

attribute [simp] ExactScalar.ofInt?_eq ExactScalar.isFinite_eq

variable {α : Type} [ExactScalar α]

namespace Scalar

@[simp] theorem zero_literal : (0.0 : α) = 0 := by
  simp [ExactScalar.ofScientific_eq]

@[simp] theorem one_literal : (1.0 : α) = 1 := by
  rw [ExactScalar.ofScientific_eq]
  norm_num

theorem literal_nonneg (mantissa : Nat) (negative : Bool) (exponent : Nat) :
    (0 : α) ≤ OfScientific.ofScientific mantissa negative exponent := by
  rw [ExactScalar.ofScientific_eq]
  split <;> positivity

theorem literal_pos {mantissa : Nat} (h : 0 < mantissa) (negative : Bool) (exponent : Nat) :
    (0 : α) < OfScientific.ofScientific mantissa negative exponent := by
  have digits : (0 : α) < mantissa := Nat.cast_pos.mpr h
  rw [ExactScalar.ofScientific_eq]
  split <;> positivity

@[simp] theorem ofNat_eq (n : Nat) : (Scalar.ofNat n : α) = n := by
  simp [Scalar.ofNat, ExactScalar.ofScientific_eq]

@[simp] theorem max_eq (a b : α) : Scalar.max a b = a ⊔ b := by
  unfold Scalar.max
  split
  next h => exact (max_eq_right h.le).symm
  next h => exact (max_eq_left (not_lt.mp h)).symm

@[simp] theorem min_eq (a b : α) : Scalar.min a b = a ⊓ b := by
  unfold Scalar.min
  split
  next h => exact (min_eq_right h.le).symm
  next h => exact (min_eq_left (not_lt.mp h)).symm

theorem clamp_eq (value low high : α) : clamp value low high = low ⊔ (high ⊓ value) := by
  simp [clamp]

theorem le_clamp (value low high : α) : low ≤ clamp value low high := by
  simp [clamp_eq]

theorem clamp_le {low high : α} (value : α) (h : low ≤ high) : clamp value low high ≤ high := by
  simp [clamp_eq, h]

theorem clamp_of_mem {value low high : α} (hl : low ≤ value) (hh : value ≤ high) :
    clamp value low high = value := by
  simp [clamp_eq, hl, hh]

theorem round_eq (a : α) : round a = .ok (scaled 0 a) := by
  rw [round, ExactScalar.isFinite_eq, if_pos rfl]

theorem scaled_mono (places : Nat) {a b : α} (h : a ≤ b) : scaled places a ≤ scaled places b := by
  by_contra above
  have gap : (scaled places b : α) + 1 ≤ scaled places a := by
    exact_mod_cast not_le.mp above
  have near_a := (abs_le.mp (ExactScalar.scaled_near places a)).2
  have near_b := (abs_le.mp (ExactScalar.scaled_near places b)).1
  have power : (0 : α) < 10 ^ places := by positivity
  -- Both lie half way between the same two integers, so they are equal.
  have tie : b * 10 ^ places ≤ a * 10 ^ places := by linarith
  rw [le_antisymm h (le_of_mul_le_mul_right tie power)] at above
  exact above le_rfl

theorem scaled_nonneg (places : Nat) {a : α} (h : 0 ≤ a) : 0 ≤ scaled places a := by
  have near := (abs_le.mp (ExactScalar.scaled_near places a)).1
  have size : 0 ≤ a * 10 ^ places := by positivity
  by_contra hneg
  have below : ((scaled places a : Int) : α) ≤ -1 := by
    exact_mod_cast Int.le_sub_one_of_lt (not_le.mp hneg)
  linarith

@[simp] theorem sum_eq (xs : List α) : Scalar.sum xs = xs.sum := by
  simp [Scalar.sum, List.sum_eq_foldl]

end Scalar

namespace Odds

theorem negligible_eq : (negligible : α) = 1 / 10 ^ 9 := by
  simp [negligible, ExactScalar.ofScientific_eq]

theorem negligible_pos : 0 < (negligible : α) := by
  rw [negligible_eq]
  positivity

theorem isUsable_iff {odds : α} : isUsable odds = true ↔ 1 < odds := by
  simp [isUsable]

theorem negligible_lt_implied (odds : α) : (negligible : α) < implied odds := by
  have low : (negligible : α) < impliedMin := by
    rw [negligible_eq]
    norm_num [impliedMin, ExactScalar.ofScientific_eq]
  exact low.trans_le (Scalar.le_clamp _ _ _)

end Odds

end Wager
