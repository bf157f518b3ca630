import Wager.Proofs.Scalar.Exact
import Wager.Check.Lax

/-!
# Rational numbers as scalars

The rationals are exact scalars: they run the rules of this library without rounding.  They have no
logarithms, and only perfect squares have roots and only whole exponents have powers; the rules on
payout distributions, the spread apart, use none of these.
-/

namespace Wager

namespace Decimal

/-- Rounding a quotient leaves the floor or goes one up, whichever is nearer; halves go to the even
one. -/
private theorem roundQuotient_cases (num den : Nat) :
    (roundQuotient num den = num / den ∧
      (2 * (num % den) < den ∨ 2 * (num % den) = den ∧ Even (roundQuotient num den))) ∨
    (roundQuotient num den = num / den + 1 ∧
      (den < 2 * (num % den) ∨ 2 * (num % den) = den ∧ Even (roundQuotient num den))) := by
  have hr : roundQuotient num den =
      if 2 * (num % den) < den ∨ 2 * (num % den) = den ∧ num / den % 2 = 0 then num / den
      else num / den + 1 := by
    simp [roundQuotient]
  rw [hr, Nat.even_iff]
  split
  · omega
  · omega

private theorem roundQuotient_sub (num den : Nat) (h : 0 < den) :
    (num : ℚ) / den = (num / den : Nat) + (num % den : Nat) / den := by
  have hd : (den : ℚ) ≠ 0 := by positivity
  have split := congrArg (Nat.cast : Nat → ℚ) (Nat.div_add_mod num den)
  push_cast at split
  field_simp
  linarith

theorem roundQuotient_near (num den : Nat) (h : 0 < den) :
    |(roundQuotient num den : ℚ) - num / den| ≤ 1 / 2 := by
  have hd : (0 : ℚ) < den := by positivity
  rw [roundQuotient_sub num den h, abs_le]
  have rest_nonneg : (0 : ℚ) ≤ (num % den : Nat) / den := by positivity
  have rest_lt : ((num % den : Nat) : ℚ) / den < 1 := by
    rw [div_lt_one hd]
    exact_mod_cast Nat.mod_lt num h
  rcases roundQuotient_cases num den with ⟨he, hc⟩ | ⟨he, hc⟩
  · have small : ((num % den : Nat) : ℚ) / den ≤ 1 / 2 := by
      have : 2 * (num % den) ≤ den := by omega
      rw [div_le_iff₀ hd]
      have := (Nat.cast_le (α := ℚ)).mpr this
      push_cast at this
      linarith
    rw [he]
    constructor <;> linarith
  · have large : 1 / 2 ≤ ((num % den : Nat) : ℚ) / den := by
      have : den ≤ 2 * (num % den) := by omega
      rw [le_div_iff₀ hd]
      have := (Nat.cast_le (α := ℚ)).mpr this
      push_cast at this
      linarith
    rw [he]
    push_cast
    constructor <;> linarith

theorem roundQuotient_even (num den : Nat) (h : 0 < den)
    (half : |(roundQuotient num den : ℚ) - num / den| = 1 / 2) : Even (roundQuotient num den) := by
  have hd : (den : ℚ) ≠ 0 := by positivity
  rw [roundQuotient_sub num den h] at half
  have tie (h2 : 2 * (num % den) ≠ den) : ((num % den : Nat) : ℚ) / den ≠ 1 / 2 := by
    intro he
    field_simp at he
    have whole : num % den * 2 = den := by exact_mod_cast he
    omega
  rcases roundQuotient_cases num den with ⟨he, hc | hc⟩ | ⟨he, hc | hc⟩
  · exfalso
    apply tie hc.ne
    rw [he, sub_add_cancel_left, abs_neg, abs_of_nonneg (by positivity)] at half
    exact half
  · exact hc.2
  · exfalso
    apply tie hc.ne'
    have rest_lt : ((num % den : Nat) : ℚ) / den < 1 := by
      rw [div_lt_one (by positivity)]
      exact_mod_cast Nat.mod_lt num h
    rw [he, Nat.cast_add, Nat.cast_one, add_sub_add_left_eq_sub, abs_of_pos (by linarith)] at half
    linarith
  · exact hc.2

end Decimal

namespace Rational

/-- The integer nearest to `x · 10 ^ places`; a half goes to the even neighbour. -/
def scaled (places : Nat) (x : ℚ) : Int :=
  let size := Decimal.roundQuotient (x.num.natAbs * 10 ^ places) x.den
  if x < 0 then -(size : Int) else size

private theorem size_eq (places : Nat) (x : ℚ) :
    ((x.num.natAbs * 10 ^ places : Nat) : ℚ) / x.den = |x| * 10 ^ places := by
  have habs : |x| = (x.num.natAbs : ℚ) / x.den := by
    conv_lhs => rw [← Rat.num_div_den x, abs_div]
    simp [Nat.cast_natAbs]
  rw [habs]
  push_cast
  ring

/-- Rounding the size of a number and restoring its sign is as far off as rounding its size. -/
private theorem scaled_sub (places : Nat) (x : ℚ) :
    |(scaled places x : ℚ) - x * 10 ^ places| =
      |(Decimal.roundQuotient (x.num.natAbs * 10 ^ places) x.den : ℚ) -
        (x.num.natAbs * 10 ^ places : Nat) / x.den| := by
  rw [size_eq]
  unfold scaled
  split
  next hx =>
    rw [abs_of_neg hx, ← abs_neg]
    push_cast
    ring_nf
  next hx => rw [abs_of_nonneg (not_lt.mp hx), Int.cast_natCast]

theorem scaled_near (places : Nat) (x : ℚ) :
    |(scaled places x : ℚ) - x * 10 ^ places| ≤ 1 / 2 := by
  rw [scaled_sub]
  exact Decimal.roundQuotient_near _ _ x.den_pos

theorem scaled_even (places : Nat) (x : ℚ)
    (half : |(scaled places x : ℚ) - x * 10 ^ places| = 1 / 2) : Even (scaled places x) := by
  rw [scaled_sub] at half
  have even := Decimal.roundQuotient_even _ _ x.den_pos half
  unfold scaled
  split
  · exact ((Int.even_coe_nat _).mpr even).neg
  · exact (Int.even_coe_nat _).mpr even

def ofNumeral? : Numeral → Option ℚ
  | .decimal negative digits exponent =>
    some (if negative then -((digits : ℚ) * 10 ^ exponent) else (digits : ℚ) * 10 ^ exponent)
  | .infinite _ => none
  | .undefined => none

def text (x : ℚ) : Text := Text.ofInt x.num ++ '/' :: Text.ofNat x.den

end Rational

instance : Scalar ℚ where
  decideLt := inferInstance
  decideLe := inferInstance
  ofInt? n := some n
  ofNumeral? := Rational.ofNumeral?
  isFinite _ := true
  floor := Int.floor
  scaled := Rational.scaled
  sqrt := Rat.sqrt
  log _ := 0
  pow x y := x ^ ⌊y⌋
  text := Rational.text

instance : ExactScalar ℚ where
  toScalar := inferInstance
  __ := (inferInstance : Field ℚ)
  __ := (inferInstance : LinearOrder ℚ)
  __ := (inferInstance : IsStrictOrderedRing ℚ)
  __ := (inferInstance : FloorRing ℚ)
  ofScientific_eq mantissa negative exponent := by
    change Rat.ofScientific mantissa negative exponent = _
    cases negative <;> simp [Rat.ofScientific, Rat.normalize_eq_mkRat, Rat.mkRat_eq_div]
  ofInt?_eq _ := rfl
  ofNumeral?_decimal _ _ _ := rfl
  ofNumeral?_infinite _ := rfl
  ofNumeral?_undefined := rfl
  isFinite_eq _ := rfl
  scaled_near := Rational.scaled_near
  scaled_even := Rational.scaled_even

instance : Coercion ℚ := .lax

end Wager
