import Wager.Decimal.Shortest
import Wager.Proofs.Scalar.Rational

/-!
# The search for the shortest decimal

Grids are tried from coarse to fine.  A grid that is fine enough has a point in the interval, so the
search ends with a decimal that lies in it.
-/

namespace Wager.Decimal.RoundingInterval

variable (i : RoundingInterval) {power : Int} {k : Nat}

def point (n : Nat) : ℚ := n * 2 ^ i.unit

/-- What lies in the interval, its ends only where the interval is closed. -/
structure Contains (q : ℚ) : Prop where
  low_le : i.point i.low ≤ q
  le_high : q ≤ i.point i.high
  closed : q = i.point i.low ∨ q = i.point i.high → i.closed = true

private theorem zpow_eq_div {a : ℚ} (nonzero : a ≠ 0) (z : ℤ) :
    a ^ z = a ^ z.toNat / a ^ (-z).toNat := by
  rw [← zpow_natCast, ← zpow_natCast, ← zpow_sub₀ nonzero]
  congr 1
  omega

theorem gridDen_pos (power : Int) : 0 < i.gridDen power := by
  simp [gridDen, Nat.pow_eq]

theorem gridNum_div_gridDen (power : Int) (n : Nat) :
    (i.gridNum power n : ℚ) / i.gridDen power = i.point n / 10 ^ power := by
  rw [gridNum, gridDen, point, zpow_eq_div two_ne_zero i.unit, zpow_eq_div (by norm_num) power]
  push_cast [Nat.pow_eq]
  field_simp

/-- A point of the decimal grid is compared with one of the binary grid over the common
denominator. -/
private theorem gridNum_cmp (power : Int) (n k : Nat) :
    (i.gridNum power n ≤ k * i.gridDen power ↔ i.point n ≤ k * 10 ^ power) ∧
      (k * i.gridDen power ≤ i.gridNum power n ↔ k * 10 ^ power ≤ i.point n) := by
  have den : (0 : ℚ) < i.gridDen power := by
    exact_mod_cast i.gridDen_pos power
  have ten : (0 : ℚ) < 10 ^ power := by
    positivity
  have same := i.gridNum_div_gridDen power n
  constructor
  · rw [← Nat.cast_le (α := ℚ), Nat.cast_mul, ← div_le_iff₀ den, same, div_le_iff₀ ten]
  · rw [← Nat.cast_le (α := ℚ), Nat.cast_mul, ← le_div_iff₀ den, same, le_div_iff₀ ten]

theorem holds_iff (power : Int) (k : Nat) : i.holds power k = true ↔
    if i.closed then i.point i.low ≤ k * 10 ^ power ∧ k * 10 ^ power ≤ i.point i.high
    else i.point i.low < k * 10 ^ power ∧ k * 10 ^ power < i.point i.high := by
  have low := i.gridNum_cmp power i.low k
  have high := i.gridNum_cmp power i.high k
  unfold holds
  split
  next => simp [low.1, high.2]
  next =>
    rw [← not_le, ← not_le, ← low.2, ← high.1, not_le, not_le]
    simp [*]

theorem contains_of_holds (h : i.holds power k = true) : i.Contains (k * 10 ^ power) := by
  rw [holds_iff] at h
  split at h
  next closed => exact ⟨h.1, h.2, fun _ => closed⟩
  next =>
    refine ⟨h.1.le, h.2.le, ?_⟩
    rintro (low | high)
    · exact absurd low h.1.ne'
    · exact absurd high h.2.ne

theorem holds_of_between (low : i.point i.low < k * 10 ^ power)
    (high : k * 10 ^ power < i.point i.high) : i.holds power k = true := by
  rw [holds_iff]
  split
  · exact ⟨low.le, high.le⟩
  · exact ⟨low, high⟩

theorem contains_of_nearest? (h : i.nearest? power = some k) : i.Contains (k * 10 ^ power) := by
  unfold nearest? at h
  dsimp only at h
  generalize (if (_ : Nat) == _ then _ else (_ : Nat)) = far at h
  split at h
  next held => exact i.contains_of_holds (Option.some.inj h ▸ held)
  next =>
    split at h
    next held => exact i.contains_of_holds (Option.some.inj h ▸ held)
    next => cases h

/-- A grid whose points are closer together than twice the way to either end has a point in the
interval. -/
theorem nearest?_isSome (low : i.point i.low + 10 ^ power / 2 < i.point i.value)
    (high : i.point i.value + 10 ^ power / 2 < i.point i.high) :
    (i.nearest? power).isSome = true := by
  have ten : (0 : ℚ) < 10 ^ power := by
    positivity
  have near := abs_le.mp (roundQuotient_near (i.gridNum power i.value) _ (i.gridDen_pos power))
  rw [i.gridNum_div_gridDen] at near
  have value : i.point i.value / 10 ^ power * 10 ^ power = i.point i.value :=
    div_mul_cancel₀ _ ten.ne'
  have above := mul_le_mul_of_nonneg_right near.1 ten.le
  have below := mul_le_mul_of_nonneg_right near.2 ten.le
  rw [sub_mul, value] at above below
  have held : i.holds power (roundQuotient (i.gridNum power i.value) (i.gridDen power)) = true :=
    i.holds_of_between (by linarith) (by linarith)
  unfold nearest?
  dsimp only
  rw [if_pos held]
  rfl

/-- The search ends in the interval as soon as one of the grids it tries has a point there. -/
theorem contains_search {steps : Nat}
    (found : ∃ j < steps, (i.nearest? (power - j)).isSome = true) :
    i.Contains ((i.search steps power).1 * 10 ^ (i.search steps power).2) := by
  induction steps generalizing power with
  | zero =>
    obtain ⟨j, bound, -⟩ := found
    exact absurd bound (Nat.not_lt_zero j)
  | succ steps ih =>
    rw [search]
    cases h : i.nearest? power with
    | some k => exact i.contains_of_nearest? h
    | none =>
      apply ih
      obtain ⟨j, bound, some_j⟩ := found
      cases j with
      | zero => simp [h] at some_j
      | succ j =>
        refine ⟨j, Nat.lt_of_succ_lt_succ bound, ?_⟩
        have same : power - 1 - (j : Int) = power - (j + 1 : Nat) := by
          omega
        rwa [same]

end Wager.Decimal.RoundingInterval
