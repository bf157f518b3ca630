import Wager.Proofs.Scalar.Rational

/-!
# Real numbers as scalars

The reals are exact scalars with the true logarithm: what the rules of this library mean before any
rounding.  Nothing here can be run; a real that is not rational has no text.
-/

namespace Wager

namespace Reals

/-- The integer nearest to `x · 10 ^ places`; a half goes to the even neighbour. -/
noncomputable def scaled (places : Nat) (x : ℝ) : Int :=
  let shifted := x * (10 ^ places : Nat)
  let below := Int.fract shifted
  let above := 1 - below
  if below < above ∨ below = above ∧ Even ⌊shifted⌋ then ⌊shifted⌋ else ⌊shifted⌋ + 1

/-- The floor is as far below as the fractional part says, its successor as far above as the
rest. -/
private theorem scaled_cases (places : Nat) (x : ℝ) :
    (|(scaled places x : ℝ) - x * 10 ^ places| = Int.fract (x * 10 ^ places) ∧
      (Int.fract (x * 10 ^ places) < 1 / 2 ∨
        Int.fract (x * 10 ^ places) = 1 / 2 ∧ Even (scaled places x))) ∨
    (|(scaled places x : ℝ) - x * 10 ^ places| = 1 - Int.fract (x * 10 ^ places) ∧
      (1 / 2 < Int.fract (x * 10 ^ places) ∨
        Int.fract (x * 10 ^ places) = 1 / 2 ∧ Even (scaled places x))) := by
  have shift : x * (10 ^ places : Nat) = x * 10 ^ places := by simp
  set shifted := x * 10 ^ places
  have whole := Int.floor_add_fract shifted
  have nonneg := Int.fract_nonneg shifted
  have less := Int.fract_lt_one shifted
  have choice : scaled places x =
      if Int.fract shifted < 1 - Int.fract shifted ∨
        Int.fract shifted = 1 - Int.fract shifted ∧ Even ⌊shifted⌋ then ⌊shifted⌋
      else ⌊shifted⌋ + 1 := by rw [scaled, shift]
  rw [choice]
  split
  next down =>
    left
    constructor
    · rw [abs_of_nonpos (by linarith)]
      linarith
    · rcases down with low | ⟨half, even⟩
      · exact .inl (by linarith)
      · exact .inr ⟨by linarith, even⟩
  next up =>
    right
    rw [not_or, not_and, not_lt] at up
    constructor
    · push_cast
      rw [abs_of_nonneg (by linarith)]
      linarith
    · rcases up.1.lt_or_eq with high | half
      · exact .inl (by linarith)
      · exact .inr ⟨by linarith, (Int.not_even_iff_odd.mp (up.2 half.symm)).add_one⟩

theorem scaled_near (places : Nat) (x : ℝ) :
    |(scaled places x : ℝ) - x * 10 ^ places| ≤ 1 / 2 := by
  rcases scaled_cases places x with ⟨distance, small | ⟨half, -⟩⟩ | ⟨distance, large | ⟨half, -⟩⟩
  all_goals linarith

theorem scaled_even (places : Nat) (x : ℝ)
    (half : |(scaled places x : ℝ) - x * 10 ^ places| = 1 / 2) : Even (scaled places x) := by
  rcases scaled_cases places x with ⟨distance, small | ⟨-, even⟩⟩ | ⟨distance, large | ⟨-, even⟩⟩
  · linarith
  · exact even
  · linarith
  · exact even

open Classical in
noncomputable def text (x : ℝ) : Text :=
  if h : ∃ q : ℚ, (q : ℝ) = x then Rational.text h.choose else []

end Reals

noncomputable instance : Scalar ℝ where
  decideLt := inferInstance
  decideLe := inferInstance
  ofInt? n := some n
  ofNumeral? n := (Rational.ofNumeral? n).map Rat.cast
  isFinite _ := true
  floor := Int.floor
  scaled := Reals.scaled
  sqrt := Real.sqrt
  log := Real.log
  pow := Real.rpow
  text := Reals.text

theorem Reals.ofScientific_eq (mantissa : Nat) (negative : Bool) (exponent : Nat) :
    (OfScientific.ofScientific mantissa negative exponent : ℝ) =
      if negative then (mantissa : ℝ) / 10 ^ exponent else (mantissa : ℝ) * 10 ^ exponent := by
  have rational : (OfScientific.ofScientific mantissa negative exponent : ℚ) = _ :=
    ExactScalar.ofScientific_eq mantissa negative exponent
  have cast := Rat.cast_ofScientific (K := ℝ) mantissa negative exponent
  rw [rational] at cast
  refine cast.symm.trans ?_
  cases negative <;> simp

theorem Reals.ofNumeral?_decimal (negative : Bool) (digits : Nat) (exponent : Int) :
    Scalar.ofNumeral? (.decimal negative digits exponent) =
      some (if negative then -((digits : ℝ) * 10 ^ exponent)
        else (digits : ℝ) * 10 ^ exponent) := by
  cases negative <;> simp [Scalar.ofNumeral?, Rational.ofNumeral?]

noncomputable instance : ExactScalar ℝ where
  toScalar := inferInstance
  __ := (inferInstance : Field ℝ)
  __ := (inferInstance : LinearOrder ℝ)
  __ := (inferInstance : IsStrictOrderedRing ℝ)
  __ := (inferInstance : FloorRing ℝ)
  ofScientific_eq := Reals.ofScientific_eq
  ofInt?_eq _ := rfl
  ofNumeral?_decimal := Reals.ofNumeral?_decimal
  ofNumeral?_infinite _ := rfl
  ofNumeral?_undefined := rfl
  isFinite_eq _ := rfl
  scaled_near := Reals.scaled_near
  scaled_even := Reals.scaled_even

end Wager
