import Wager.Proofs.Kelly.Optimal

/-!
# No stake without an edge

The search leaves zero only for a fraction that grows faster, so a stake that is made is solvent and
better than none.  Growth stays below its tangent at zero, whose slope is the expected net of the
states: where that is not positive, nothing is staked.
-/

namespace Wager.Kelly

section

variable {α : Type} [ExactScalar α] {states : List (Prospect α)} {limit step : α}

private theorem kept_or_higher_trans {a b c : Incumbent α} (first : b = a ∨ a.score < b.score)
    (second : c = b ∨ b.score < c.score) : c = a ∨ a.score < c.score := by
  rcases first with rfl | higher
  · exact second
  · rcases second with rfl | more
    · exact .inr higher
    · exact .inr (higher.trans more)

theorem scan_kept_or_higher (states : List (Prospect α)) (best : Incumbent α) (points : List α) :
    scan states best points = best ∨ best.score < (scan states best points).score :=
  (scan_cases states best points).imp_right fun ⟨_, _, higher⟩ => higher

theorem refine_kept_or_higher (rounds : Nat) (best : Incumbent α) :
    refine states limit rounds step best = best ∨
      best.score < (refine states limit rounds step best).score := by
  induction rounds generalizing step best with
  | zero => exact .inl rfl
  | succ rounds ih =>
    rw [refine_succ]
    exact kept_or_higher_trans (scan_kept_or_higher states best _) (ih _)

theorem search_mem_Icc (states : List (Prospect α)) (hlimit : 0 ≤ limit) :
    search states limit ∈ Set.Icc 0 limit := by
  have valid := valid_refine 4 (valid_coarse states hlimit) (show (0 : α) < 1 / 250 by norm_num)
  rw [search_eq states hlimit]
  exact ⟨valid.nonneg, valid.le_limit⟩

theorem search_cases (states : List (Prospect α)) (hlimit : 0 ≤ limit) :
    search states limit = 0 ∨ ∃ v w, logGrowth states 0 = some v ∧
      logGrowth states (search states limit) = some w ∧ v < w := by
  have first := (valid_start states hlimit).growth_eq
  have last := (valid_refine 4 (valid_coarse states hlimit)
    (show (0 : α) < 1 / 250 by norm_num)).growth_eq
  set found := refine states limit 4 (1 / 250) (coarse states limit) with ending
  have whole : found = start states ∨ (start states).score < found.score :=
    kept_or_higher_trans (scan_kept_or_higher states _ _) (refine_kept_or_higher 4 _)
  rw [search_eq states hlimit, ← ending]
  -- The first incumbent is at zero, so one elsewhere has a higher score.
  rcases whole with same | higher
  · left
    rw [same]
    rfl
  · exact .inr ⟨_, _, first, last, higher⟩

theorem optimalFraction_cases (states : List (Prospect α)) (limit : Datum α) :
    optimalFraction states limit.value? = 0 ∨
      0 < cap limit ∧ optimalFraction states limit.value? = search states (cap limit) := by
  by_cases none : states = []
  · left
    simp [optimalFraction, none]
  · rcases lt_or_ge 0 (cap limit) with positive | closed
    · exact .inr ⟨positive, optimalFraction_of_cap none positive⟩
    · left
      have bound : Scalar.clamp (limit.value?.getD maxFraction) 0.0 maxFraction = (0 : α) := by
        rw [Scalar.clamp_eq, Scalar.zero_literal, min_comm]
        exact max_eq_left closed
      unfold optimalFraction
      rw [bound, Scalar.zero_literal, if_pos le_rfl, ite_self]

end

noncomputable def edge (states : List (Prospect ℝ)) : ℝ :=
  (states.map fun s => s.probability * s.net).sum

@[simp] theorem rate_zero (states : List (Prospect ℝ)) : rate states 0 = 0 := by
  simp [rate]

theorem rate_le_mul_edge {states : List (Prospect ℝ)} {f : ℝ}
    (mass : ∀ s ∈ states, 0 ≤ s.probability) (solvent : Solvent states f) :
    rate states f ≤ f * edge states := by
  induction states with
  | nil => simp [rate, edge]
  | cons s states ih =>
    have rest := ih (fun t ht => mass t (List.mem_cons_of_mem s ht))
      fun t ht => solvent t (List.mem_cons_of_mem s ht)
    have positive : 0 < 1 + f * s.net := lt_trans (by norm_num) (solvent s List.mem_cons_self)
    have tangent := Real.log_le_sub_one_of_pos positive
    have first := mul_le_mul_of_nonneg_left tangent (mass s List.mem_cons_self)
    simp only [rate, edge, List.map_cons, List.sum_cons] at rest ⊢
    linarith

/-- The search stays within the limit; a stake that it makes ruins no state and grows faster than
none; and without an expected profit it makes none. -/
theorem optimalFractionOf_needs_edge (states : List (Datum ℝ)) (limit : Datum ℝ) :
    ∃ f, optimalFractionOf states limit = .ok f ∧ f ∈ Set.Icc 0 (max 0 (cap limit)) ∧
      (0 < f → Solvent (prospects states) f ∧
        objective (prospects states) 0 < objective (prospects states) f) ∧
      (edge (prospects states) ≤ 0 → f = 0) := by
  refine ⟨_, optimalFractionOf_eq states limit, ?_⟩
  rcases optimalFraction_cases (prospects states) limit with none | ⟨positive, searched⟩
  · rw [none]
    exact ⟨⟨le_rfl, le_max_left _ _⟩, fun h => absurd h (lt_irrefl 0), fun _ => rfl⟩
  rw [searched, max_eq_right positive.le]
  have inside := search_mem_Icc (prospects states) positive.le
  refine ⟨inside, ?_⟩
  rcases search_cases (prospects states) positive.le with none | ⟨v, w, idle, staked, faster⟩
  · rw [none]
    exact ⟨fun h => absurd h (lt_irrefl 0), fun _ => rfl⟩
  obtain ⟨-, rfl⟩ := (logGrowth_eq_some _ _ _).mp idle
  obtain ⟨solvent, rfl⟩ := (logGrowth_eq_some _ _ _).mp staked
  constructor
  · intro _
    rw [objective_of_solvent (solvent_zero _), objective_of_solvent solvent, WithBot.coe_lt_coe]
    exact ⟨solvent, faster⟩
  · intro unprofitable
    have mass : ∀ s ∈ prospects states, 0 ≤ s.probability := fun s hs =>
      (Odds.negligible_pos.trans (negligible_lt_of_mem hs)).le
    -- The tangent at zero does not rise, so nothing above it grows faster than at zero.
    have below := rate_le_mul_edge mass solvent
    have sunk := mul_nonpos_of_nonneg_of_nonpos inside.1 unprofitable
    rw [rate_zero] at faster
    linarith

end Wager.Kelly
