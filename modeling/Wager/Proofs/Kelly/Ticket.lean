import Wager.Proofs.Kelly.Optimal

/-!
# The closed form and the search

A ticket that wins or loses is a distribution of two states.  Its growth has one peak up to any
limit, the number of the closed form brought between zero and the limit, so the search ends close
to the closed form.
-/

namespace Wager.Kelly

variable {p b m : ℝ}

/-- The stake `p - (1 - p) / b` on a ticket, brought between zero and the limit. -/
noncomputable def ticketPeak (p b m : ℝ) : ℝ := max 0 (min ((p * b - (1 - p)) / b) m)

theorem ticketPeak_mem_Icc (hm : 0 ≤ m) : ticketPeak p b m ∈ Set.Icc 0 m :=
  ⟨le_max_left _ _, max_le hm (min_le_right _ _)⟩

theorem ticketFraction_eq (hp : 0 < p) (hp1 : p < 1) (hb : 0 < b) (hm : 0 ≤ m) :
    ticketFraction p (1 + b) 1 m = .ok (ticketPeak p b m) := by
  have profit : 1 + b - 1 = b := add_sub_cancel_left 1 b
  simp only [ticketFraction, Scalar.zero_literal, Scalar.one_literal, Scalar.min_eq, profit,
    div_one]
  rw [if_neg (by simp [hp, hp1]), if_neg (by simp [hb]), if_neg (by norm_num)]
  congr 1
  split
  next losing => exact (max_eq_left ((min_le_left _ _).trans losing)).symm
  next winning => exact (max_eq_right (le_min (not_le.mp winning).le hm)).symm

theorem prospects_ticket (hp : Odds.negligible < p) (hp1 : Odds.negligible < 1 - p) (b : ℝ) :
    prospects [state p b, state (1 - p) (-1)] = [⟨p, b⟩, ⟨1 - p, -1⟩] := by
  have small := Odds.negligible_pos (α := ℝ)
  rw [prospects_state hp (by linarith), prospects_state hp1 (by linarith)]
  rfl

theorem objective_ticket (hb : 0 < b) {x : ℝ} (h0 : 0 ≤ x) (h1 : x ≤ 19 / 20) :
    objective [⟨p, b⟩, ⟨1 - p, -1⟩] x =
      (p * Real.log (1 + x * b) + (1 - p) * Real.log (1 - x) : ℝ) := by
  have solvent : Solvent [⟨p, b⟩, ⟨1 - p, -1⟩] x := by
    intro s hs
    rcases List.mem_pair.mp hs with rfl | rfl
    · have gain : 0 ≤ x * b := mul_nonneg h0 hb.le
      norm_num
      linarith
    · norm_num
      linarith
  rw [objective_of_solvent solvent]
  simp [rate, sub_eq_add_neg]

/-- Seen from anywhere between zero and the limit, the closed form lies on the side of the peak. -/
private theorem peak_between (full : ℝ) {x : ℝ} (hx : x ∈ Set.Icc 0 m) :
    (x - max 0 (min full m)) * (full - max 0 (min full m)) ≤ 0 := by
  rcases le_total full 0 with low | high
  · rw [max_eq_left ((min_le_left _ _).trans low)]
    exact mul_nonpos_of_nonneg_of_nonpos (by linarith [hx.1]) (by linarith)
  · rw [max_eq_right (le_min high (hx.1.trans hx.2))]
    rcases le_total full m with inside | above
    · rw [min_eq_left inside, sub_self, mul_zero]
    · rw [min_eq_right above]
      exact mul_nonpos_of_nonpos_of_nonneg (by linarith [hx.2]) (by linarith)

private theorem tangent_eq {x peak : ℝ} (hb : b ≠ 0) (won : 1 + peak * b ≠ 0)
    (lost : 1 - peak ≠ 0) :
    p * ((1 + x * b) / (1 + peak * b) - 1) + (1 - p) * ((1 - x) / (1 - peak) - 1) =
      (x - peak) * ((p * b - (1 - p)) / b - peak) * (b / ((1 + peak * b) * (1 - peak))) := by
  have won' : 1 + b * peak ≠ 0 := by rwa [mul_comm]
  field_simp
  ring

theorem ticketPeak_unique (hp : 0 < p) (hp1 : p < 1) (hb : 0 < b) (hm1 : m ≤ 19 / 20) {x : ℝ}
    (hx : x ∈ Set.Icc 0 m) (other : x ≠ ticketPeak p b m) :
    objective [⟨p, b⟩, ⟨1 - p, -1⟩] x < objective [⟨p, b⟩, ⟨1 - p, -1⟩] (ticketPeak p b m) := by
  have inside : ticketPeak p b m ∈ Set.Icc 0 m := ticketPeak_mem_Icc (hx.1.trans hx.2)
  have turn : (x - ticketPeak p b m) * ((p * b - (1 - p)) / b - ticketPeak p b m) ≤ 0 :=
    peak_between _ hx
  set peak := ticketPeak p b m
  have won : 0 < 1 + peak * b := by linarith [mul_nonneg inside.1 hb.le]
  have lost : 0 < 1 - peak := by linarith [inside.2]
  have won' : 0 < 1 + x * b := by linarith [mul_nonneg hx.1 hb.le]
  have lost' : 0 < 1 - x := by linarith [hx.2]
  -- Each logarithm lies below its tangent at the peak, strictly so elsewhere.
  have win : Real.log (1 + x * b) - Real.log (1 + peak * b) <
      (1 + x * b) / (1 + peak * b) - 1 := by
    rw [← Real.log_div won'.ne' won.ne']
    apply Real.log_lt_sub_one_of_pos (div_pos won' won)
    rw [Ne, div_eq_one_iff_eq won.ne', add_right_inj, mul_left_inj' hb.ne']
    exact other
  have loss : Real.log (1 - x) - Real.log (1 - peak) < (1 - x) / (1 - peak) - 1 := by
    rw [← Real.log_div lost'.ne' lost.ne']
    apply Real.log_lt_sub_one_of_pos (div_pos lost' lost)
    rw [Ne, div_eq_one_iff_eq lost.ne', sub_right_inj]
    exact other
  -- Both tangents together rise only towards the closed form, which is on the side of the peak.
  have slope := tangent_eq (p := p) (x := x) hb.ne' won.ne' lost.ne'
  have falls := mul_nonpos_of_nonpos_of_nonneg turn (div_pos hb (mul_pos won lost)).le
  rw [objective_ticket hb hx.1 (hx.2.trans hm1), objective_ticket hb inside.1 (inside.2.trans hm1),
    WithBot.coe_lt_coe]
  linarith [mul_lt_mul_of_pos_left win hp, mul_lt_mul_of_pos_left loss (sub_pos.mpr hp1)]

/-- For a ticket that wins or loses, the search comes close to the closed form. -/
theorem ticketFraction_near_search (hp : 1e-9 < p) (hp1 : p < 1 - 1e-9) (hb : 0 < b) (hm : 0 < m)
    (hm1 : m ≤ 0.95) : ∃ f g, ticketFraction p (1 + b) 1 m = .ok f ∧
      optimalFractionOf [state p b, state (1 - p) (-1)] (.real m) = .ok g ∧ |f - g| < 0.0051 := by
  have limit : m ≤ 19 / 20 := hm1.trans_eq (by norm_num)
  have capped : cap (.real m) = m := by
    rw [cap, maxFraction_eq]
    exact min_eq_left limit
  have heavy : Odds.negligible < p := by
    rw [Odds.negligible_eq]
    linarith
  have heavy' : Odds.negligible < 1 - p := by
    rw [Odds.negligible_eq]
    linarith
  have positive : 0 < p := by linarith
  have below : p < 1 := by linarith
  refine ⟨_, _, ticketFraction_eq positive below hb hm.le, optimalFractionOf_eq _ _, ?_⟩
  have kept := prospects_ticket heavy heavy' b
  have inside : ticketPeak p b m ∈ Set.Icc 0 m := ticketPeak_mem_Icc hm.le
  have peaks : PeaksAt [⟨p, b⟩, ⟨1 - p, -1⟩] m (ticketPeak p b m) := by
    apply peaksAt_of_unique _ _ inside.1 inside.2
    · exact fun x hx other => ticketPeak_unique positive below hb limit hx other
    · intro s hs
      rcases List.mem_pair.mp hs with rfl | rfl
      · exact positive.le
      · exact (sub_pos.mpr below).le
  rw [kept, optimalFraction_of_cap (by simp) (by rwa [capped]), capped, abs_sub_comm]
  exact (near_search peaks inside.1 inside.2).trans_eq (by norm_num)

theorem ticketFraction_near_search_favourite : (1e-9 : ℝ) < 0.6 ∧ (0.6 : ℝ) < 1 - 1e-9 ∧
    (0 : ℝ) < 1.1 ∧ (0 : ℝ) < 0.95 ∧ (0.95 : ℝ) ≤ 0.95 ∧
    ∃ f g, ticketFraction (0.6 : ℝ) (1 + 1.1) 1 0.95 = .ok f ∧
      optimalFractionOf [state (0.6 : ℝ) 1.1, state (1 - 0.6) (-1)] (.real 0.95) = .ok g ∧
      |f - g| < 0.0051 := by
  have low : (1e-9 : ℝ) < 0.6 := by norm_num
  have high : (0.6 : ℝ) < 1 - 1e-9 := by norm_num
  have profit : (0 : ℝ) < 1.1 := by norm_num
  have room : (0 : ℝ) < 0.95 := by norm_num
  exact ⟨low, high, profit, room, le_rfl,
    ticketFraction_near_search low high profit room le_rfl⟩

end Wager.Kelly
