import Wager.Proofs.Scalar.Exact

/-!
# Numbers with fixed places

Different numbers have different digits, so a number with fixed places shows the scaled integer it
was rounded to.
-/

namespace Wager

namespace Text

theorem ofNat_injective : Function.Injective Text.ofNat := by
  intro m n h
  have digits := congrArg (fun t => Nat.ofDigitChars 10 t 0) h
  simpa [Text.ofNat] using digits

theorem point_notMem_ofNat (n : Nat) : '.' ∉ Text.ofNat n := by
  intro h
  have digit := Nat.isDigit_of_mem_toDigits (by decide) (by decide) h
  exact absurd digit (by decide)

end Text

namespace Decimal

theorem ofDigitChars_padZeros (width n : Nat) :
    Nat.ofDigitChars 10 (padZeros width (Text.ofNat n)) 0 = n := by
  rw [padZeros, Nat.ofDigitChars_append, Nat.ofDigitChars_replicate_zero, Nat.mul_zero]
  exact Nat.ofDigitChars_ten_toDigits

private theorem point_notMem_padZeros (width n : Nat) :
    '.' ∉ padZeros width (Text.ofNat n) := by
  intro h
  rcases List.mem_append.mp h with h | h
  · exact absurd (List.eq_of_mem_replicate h) (by decide)
  · exact Text.point_notMem_ofNat n h

theorem fixedText_injective (places : Nat) : Function.Injective (fixedText places) := by
  intro m n h
  unfold fixedText at h
  split at h
  next => exact Text.ofNat_injective h
  next =>
    obtain ⟨whole, _, fraction⟩ := (List.append_cons_inj_of_notMem (Text.point_notMem_ofNat _)
      (point_notMem_padZeros _ _)).mp h
    have hq := Text.ofNat_injective whole
    have hr := congrArg (fun t => Nat.ofDigitChars 10 t 0) fraction
    simp only [ofDigitChars_padZeros] at hr
    rw [← Nat.div_add_mod m (Nat.pow 10 places), ← Nat.div_add_mod n (Nat.pow 10 places), hq, hr]

end Decimal

namespace Scalar

variable {α : Type} [ExactScalar α]

/-- Two numbers from zero on read the same exactly when they round to the same scaled integer. -/
theorem fixed_eq_iff (places : Nat) {a b : α} (ha : 0 ≤ a) (hb : 0 ≤ b) :
    fixed places a = fixed places b ↔ scaled places a = scaled places b := by
  have hfixed {c : α} (hc : 0 ≤ c) :
      fixed places c = Decimal.fixedText places (scaled places c).natAbs := by
    simp [fixed, not_lt.mpr hc]
  rw [hfixed ha, hfixed hb, (Decimal.fixedText_injective places).eq_iff]
  have sa := scaled_nonneg places ha
  have sb := scaled_nonneg places hb
  omega

theorem scaled_eq_zero_iff (places : Nat) {a : α} (h : 0 ≤ a) :
    scaled places a = 0 ↔ a * 10 ^ places ≤ 1 / 2 := by
  have near := ExactScalar.scaled_near places a
  constructor
  · intro zero
    rw [zero, Int.cast_zero, zero_sub, abs_neg] at near
    exact (le_abs_self _).trans near
  · intro small
    have nonneg := scaled_nonneg places h
    have below : ((scaled places a : Int) : α) < ((2 : Int) : α) := by
      have upper := (abs_le.mp near).2
      push_cast
      linarith
    have cases : scaled places a = 0 ∨ scaled places a = 1 := by
      have := Int.cast_lt.mp below
      omega
    rcases cases with zero | one
    · exact zero
    · -- one is half a unit away, and a tie goes to the even neighbour
      have tie : |((scaled places a : Int) : α) - a * 10 ^ places| = 1 / 2 := by
        rw [one, Int.cast_one] at near ⊢
        have upper := (abs_le.mp near).2
        rw [abs_of_nonneg (by linarith)]
        linarith
      have even := ExactScalar.scaled_even places a tie
      rw [one] at even
      exact absurd even (by decide)

theorem fixed_eq_fixed_zero_iff (places : Nat) {a : α} (h : 0 ≤ a) :
    fixed places a = fixed places (0 : α) ↔ a * 10 ^ places ≤ 1 / 2 := by
  have zero : scaled places (0 : α) = 0 := by
    rw [scaled_eq_zero_iff places le_rfl]
    norm_num
  rw [fixed_eq_iff places h le_rfl, zero, scaled_eq_zero_iff places h]

end Scalar

end Wager
