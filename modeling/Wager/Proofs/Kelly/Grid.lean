import Wager.Proofs.Scalar.Exact
import Wager.Kelly

/-!
# How dense a grid is

A grid stays within its ends and starts at the lower one.  Every number between the ends has a point
less than a step below it; and a point at most a step above it, unless it is next to the upper end,
which the grid meets up to a negligible distance.
-/

namespace Wager.Kelly

open Odds

variable {α : Type} [ExactScalar α] {low high step : α}

def stepCount (low high step : α) : Nat := ⌊(high - low) / step + negligible⌋₊

private theorem lt_stepCount (low high : α) (hs : 0 < step) :
    high - low < step * (stepCount low high step + 1) := by
  have floor : (high - low) / step + negligible < stepCount low high step + 1 :=
    Nat.lt_floor_add_one _
  calc high - low = step * ((high - low) / step) := (mul_div_cancel₀ _ hs.ne').symm
    _ < step * (stepCount low high step + 1) := by
      apply mul_lt_mul_of_pos_left _ hs
      linarith [negligible_pos (α := α)]

theorem grid_of_le (h : high ≤ low) : grid low high step = [low] := if_pos h

theorem mem_grid (h : low < high) (x : α) : x ∈ grid low high step ↔
    (∃ i ≤ stepCount low high step, min (low + step * i) high = x) ∨
      negligible < high - (low + step * stepCount low high step) ∧ x = high := by
  have count : (Scalar.floor ((high - low) / step + negligible)).toNat = stepCount low high step :=
    Int.floor_toNat ((high - low) / step + negligible)
  have unfolded : grid low high step =
      (if negligible < high - (low + step * stepCount low high step)
        then
          (List.range (stepCount low high step + 1)).map (fun i : Nat => low + step * i) ++ [high]
        else (List.range (stepCount low high step + 1)).map fun i : Nat => low + step * i).map
          (min · high) := by
    simp only [grid, if_neg h.not_ge, Scalar.ofNat_eq, Scalar.min_eq, count]
  rw [unfolded]
  split
  next gap => simp [gap, eq_comm]
  next gap => simp [gap]

theorem grid_eq_cons (h : low ≤ high) :
    grid low high step = low :: (grid low high step).tail := by
  rcases h.lt_or_eq with h | rfl
  · simp only [grid, if_neg h.not_ge, List.range_succ_eq_map]
    split <;> simp [h.le]
  · rw [grid_of_le le_rfl, List.tail_cons]

theorem low_mem_grid (h : low ≤ high) : low ∈ grid low high step := by
  rw [grid_eq_cons h]
  exact List.mem_cons_self

theorem mem_Icc_of_mem_grid (h : low ≤ high) (hs : 0 < step) {x : α}
    (hx : x ∈ grid low high step) : low ≤ x ∧ x ≤ high := by
  rcases h.lt_or_eq with h | rfl
  · rcases (mem_grid h x).mp hx with ⟨i, -, rfl⟩ | ⟨-, rfl⟩
    · have : 0 ≤ step * (i : α) := by positivity
      exact ⟨le_min (by linarith) h.le, min_le_right _ _⟩
    · exact ⟨h.le, le_rfl⟩
  · rw [grid_of_le le_rfl, List.mem_singleton] at hx
    exact ⟨hx.ge, hx.le⟩

private theorem exists_whole_steps (hs : 0 < step) {x : α} (hl : low ≤ x) :
    ∃ i : Nat, low + step * i ≤ x ∧ x < low + step * i + step := by
  have nonneg : 0 ≤ (x - low) / step := div_nonneg (sub_nonneg.mpr hl) hs.le
  have floor := (le_div_iff₀ hs).mp (Nat.floor_le nonneg)
  have next := (div_lt_iff₀ hs).mp (Nat.lt_floor_add_one ((x - low) / step))
  exact ⟨⌊(x - low) / step⌋₊, by linarith, by linarith⟩

theorem exists_mem_grid_le (hs : 0 < step) {x : α} (hl : low ≤ x) (hh : x ≤ high) :
    ∃ p ∈ grid low high step, p ≤ x ∧ x < p + step := by
  rcases (hl.trans hh).lt_or_eq with h | rfl
  · obtain ⟨i, below, next⟩ := exists_whole_steps hs hl
    have inside : i ≤ stepCount low high step := by
      by_contra more
      have : (stepCount low high step : α) + 1 ≤ i := by exact_mod_cast not_le.mp more
      have := mul_le_mul_of_nonneg_left this hs.le
      linarith [lt_stepCount low high hs]
    refine ⟨low + step * i, (mem_grid h _).mpr (.inl ⟨i, inside, ?_⟩), below, next⟩
    exact min_eq_left (below.trans hh)
  · exact ⟨low, low_mem_grid le_rfl, hl, by linarith⟩

/-- A number between the ends has a point at most a step above it, or it is next to the upper
end. -/
theorem exists_le_mem_grid (hs : 0 < step) {x : α} (hl : low ≤ x) (hh : x ≤ high) :
    (∃ q ∈ grid low high step, x ≤ q ∧ q ≤ x + step) ∨ high - x ≤ negligible := by
  rcases (hl.trans hh).lt_or_eq with h | rfl
  · obtain ⟨i, below, next⟩ := exists_whole_steps hs hl
    rcases Nat.lt_or_ge i (stepCount low high step) with inside | last
    · left
      have rest : low + step * (i + 1 : Nat) = low + step * i + step := by
        push_cast
        ring
      refine ⟨min (low + step * (i + 1 : Nat)) high, ?_, ?_, ?_⟩
      · exact (mem_grid h _).mpr (.inl ⟨i + 1, inside, rfl⟩)
      · rw [rest]
        exact le_min next.le hh
      · rw [rest]
        exact (min_le_left _ _).trans (by linarith)
    · have : (stepCount low high step : α) ≤ i := by exact_mod_cast last
      have := mul_le_mul_of_nonneg_left this hs.le
      rcases lt_or_ge negligible (high - (low + step * stepCount low high step)) with gap | close
      · left
        refine ⟨high, (mem_grid h _).mpr (.inr ⟨gap, rfl⟩), hh, ?_⟩
        linarith [lt_stepCount low high hs]
      · right
        linarith
  · right
    linarith [negligible_pos (α := α)]

theorem exists_mem_grid_high (h : low ≤ high) :
    ∃ p ∈ grid low high step, high - negligible ≤ p := by
  have small := negligible_pos (α := α)
  rcases h.lt_or_eq with h | rfl
  · rcases lt_or_ge negligible (high - (low + step * stepCount low high step)) with gap | close
    · exact ⟨high, (mem_grid h _).mpr (.inr ⟨gap, rfl⟩), by linarith⟩
    · refine ⟨_, (mem_grid h _).mpr (.inl ⟨_, le_rfl, rfl⟩), le_min ?_ ?_⟩
      · linarith
      · linarith
  · exact ⟨low, low_mem_grid le_rfl, by linarith⟩

end Wager.Kelly
