import Wager.Proofs.Kelly.Growth
import Wager.Proofs.Datum

/-!
# Growth-optimal stakes

The search over loosely typed states never fails, and where one fraction within the limits grows
fastest, it comes close to that one.
-/

namespace Wager.Kelly

section

variable {α : Type} [ExactScalar α]

def prospects (states : List (Datum α)) : List (Prospect α) :=
  states.filterMap fun s =>
    Prospect.keep? (s.field "probability".toList).value? (s.field "net".toList).value?

theorem Prospect.negligible_lt_of_keep? {probability net : Option α} {s : Prospect α}
    (h : keep? probability net = some s) : Odds.negligible < s.probability := by
  cases net with
  | none => cases h
  | some n =>
    simp only [keep?] at h
    split at h
    next heavy =>
      cases h
      exact heavy
    next => cases h

theorem negligible_lt_of_mem {states : List (Datum α)} {s : Prospect α}
    (hs : s ∈ prospects states) :
    Odds.negligible < s.probability := by
  obtain ⟨d, -, kept⟩ := List.mem_filterMap.mp hs
  exact Prospect.negligible_lt_of_keep? kept

def state (probability net : α) : Datum α :=
  .object [("probability".toList, .real probability), ("net".toList, .real net)]

theorem prospects_state {p n : α} {rest : List (Datum α)} (heavy : Odds.negligible < p)
    (h1 : p ≤ 1) : prospects (state p n :: rest) = ⟨p, n⟩ :: prospects rest := by
  have whole : Scalar.clamp p 0.0 1.0 = p := by
    apply Scalar.clamp_of_mem
    · rw [Scalar.zero_literal]
      exact (Odds.negligible_pos.trans heavy).le
    · rwa [Scalar.one_literal]
  apply List.filterMap_cons_some
  change (if Odds.negligible < Scalar.clamp p 0.0 1.0
    then some (⟨Scalar.clamp p 0.0 1.0, n⟩ : Prospect α) else none) = _
  rw [whole, if_pos heavy]

theorem optimalFractionOf_eq (states : List (Datum α)) (limit : Datum α) :
    optimalFractionOf states limit = .ok (optimalFraction (prospects states) limit.value?) := by
  have read : (states.mapM fun s => do
      let probability ← (s.field "probability".toList).number?
      let net ← (s.field "net".toList).number?
      return Prospect.keep? probability net : Except Datum.Overflow _) =
        .ok (states.map fun s =>
          Prospect.keep? (s.field "probability".toList).value? (s.field "net".toList).value?) := by
    simp only [Datum.number?_eq]
    exact mapM_ok _ states
  have kept : (states.map fun s =>
      Prospect.keep? (s.field "probability".toList).value? (s.field "net".toList).value?).filterMap
        id = prospects states := List.filterMap_map
  unfold optimalFractionOf
  rw [read]
  change (if (List.filterMap id _).isEmpty then _ else _) = _
  rw [kept, Datum.number?_eq]
  unfold optimalFraction
  by_cases none : (prospects states).isEmpty
  · rw [if_pos none, if_pos none]
    rfl
  · rw [if_neg none, if_neg none]
    change Except.ok (optimalFraction (prospects states) limit.value?) = _
    rw [optimalFraction, if_neg none]

theorem maxFraction_eq : (maxFraction : α) = 19 / 20 := by
  rw [maxFraction, ExactScalar.ofScientific_eq]
  norm_num

/-- The largest fraction allowed: the limit, if it is a number, and never above the largest one. -/
def cap (limit : Datum α) : α := min (limit.value?.getD maxFraction) maxFraction

theorem optimalFraction_of_cap {states : List (Prospect α)} {limit : Datum α} (kept : states ≠ [])
    (positive : 0 < cap limit) :
    optimalFraction states limit.value? = search states (cap limit) := by
  have bound : Scalar.clamp (limit.value?.getD maxFraction) 0.0 maxFraction = cap limit := by
    rw [Scalar.clamp_eq, Scalar.zero_literal, min_comm]
    exact max_eq_right positive.le
  unfold optimalFraction
  rw [if_neg (by simpa using kept), bound, Scalar.zero_literal, if_neg positive.not_ge]

end

/-- Where one fraction up to the limit grows fastest, the search returns a fraction close to it. -/
theorem near_optimalFractionOf (states : List (Datum ℝ)) (limit : Datum ℝ) {best : ℝ}
    (positive : 0 < cap limit) (inside : best ∈ Set.Icc 0 (cap limit))
    (unique : ∀ x ∈ Set.Icc 0 (cap limit), x ≠ best →
      objective (prospects states) x < objective (prospects states) best) :
    ∃ f, optimalFractionOf states limit = .ok f ∧ |f - best| < 0.0051 := by
  refine ⟨_, optimalFractionOf_eq states limit, ?_⟩
  have kept := ne_nil_of_unique unique positive
  have mass : ∀ s ∈ prospects states, 0 ≤ s.probability := fun s hs =>
    (Odds.negligible_pos.trans (negligible_lt_of_mem hs)).le
  have peaks := peaksAt_of_unique unique mass inside.1 inside.2
  rw [optimalFraction_of_cap kept positive]
  refine (near_search peaks inside.1 inside.2).trans_eq ?_
  norm_num

noncomputable def coin : List (Datum ℝ) := [state 0.6 1, state 0.4 (-1)]

theorem prospects_coin : prospects coin = [⟨0.6, 1⟩, ⟨0.4, -1⟩] := by
  have most : (Odds.negligible : ℝ) < 0.6 := by
    rw [Odds.negligible_eq]
    norm_num
  have rest : (Odds.negligible : ℝ) < 0.4 := by
    rw [Odds.negligible_eq]
    norm_num
  rw [coin, prospects_state most (by norm_num), prospects_state rest (by norm_num)]
  rfl

theorem objective_coin {x : ℝ} (h0 : 0 ≤ x) (h1 : x ≤ 19 / 20) : objective (prospects coin) x =
    (0.6 * Real.log (1 + x) + 0.4 * Real.log (1 - x) : ℝ) := by
  have solvent : Solvent (prospects coin) x := by
    rw [prospects_coin]
    intro s hs
    rcases List.mem_pair.mp hs with rfl | rfl
    · norm_num
      linarith
    · norm_num
      linarith
  rw [objective_of_solvent solvent, prospects_coin]
  simp [rate, sub_eq_add_neg]

theorem objective_coin_lt {x : ℝ} (h0 : 0 ≤ x) (h1 : x ≤ 19 / 20) (other : x ≠ 1 / 5) :
    objective (prospects coin) x < objective (prospects coin) (1 / 5) := by
  rw [objective_coin h0 h1, objective_coin (by norm_num) (by norm_num), WithBot.coe_lt_coe]
  have won : Real.log ((1 + x) / (6 / 5)) < (1 + x) / (6 / 5) - 1 := by
    apply Real.log_lt_sub_one_of_pos (by positivity)
    contrapose! other
    linarith
  have lost : Real.log ((1 - x) / (4 / 5)) < (1 - x) / (4 / 5) - 1 := by
    apply Real.log_lt_sub_one_of_pos (div_pos (by linarith) (by norm_num))
    contrapose! other
    linarith
  rw [Real.log_div (by linarith) (by norm_num)] at won lost
  have win : (1 : ℝ) + 1 / 5 = 6 / 5 := by norm_num
  have loss : (1 : ℝ) - 1 / 5 = 4 / 5 := by norm_num
  rw [win, loss]
  linarith

theorem near_optimalFractionOf_coin : 0 < cap (α := ℝ) .null ∧
    (1 / 5 : ℝ) ∈ Set.Icc 0 (cap .null) ∧
    (∀ x ∈ Set.Icc 0 (cap .null), x ≠ 1 / 5 →
      objective (prospects coin) x < objective (prospects coin) (1 / 5)) ∧
    ∃ f, optimalFractionOf coin .null = .ok f ∧ |f - 1 / 5| < 0.0051 := by
  have limit : cap (α := ℝ) .null = 19 / 20 := by
    simp [cap, Datum.value?, maxFraction_eq]
  have positive : 0 < cap (α := ℝ) .null := by
    rw [limit]
    norm_num
  have inside : (1 / 5 : ℝ) ∈ Set.Icc 0 (cap .null) := by
    rw [limit]
    norm_num
  have unique : ∀ x ∈ Set.Icc 0 (cap .null), x ≠ 1 / 5 →
      objective (prospects coin) x < objective (prospects coin) (1 / 5) := by
    rw [limit]
    exact fun x hx other => objective_coin_lt hx.1 hx.2 other
  exact ⟨positive, inside, unique, near_optimalFractionOf coin .null positive inside unique⟩

end Wager.Kelly
