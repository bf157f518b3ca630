import Wager.Proofs.Datum
import Wager.Proofs.Keyed
import Wager.Distribution.Match

/-!
# Weights

The parts of the stake and the weights of the atoms are shares of one: not negative, with sum one.
Atoms with a weight are exactly those that some entry covers.
-/

namespace Wager

variable {α : Type} [ExactScalar α]

theorem sum_map_sum_comm {β γ : Type} (xs : List β) (ys : List γ) (f : β → γ → α) :
    (xs.map fun x => (ys.map fun y => f x y).sum).sum =
      (ys.map fun y => (xs.map fun x => f x y).sum).sum := by
  simpa using Multiset.sum_map_sum_map (xs : Multiset β) (ys : Multiset γ) (f := f)

theorem sum_map_filter {β : Type} (xs : List β) (p : β → Bool) (g : β → α) :
    ((xs.filter p).map g).sum = (xs.map fun x => g x * if p x then 1 else 0).sum := by
  simpa using (List.sum_map_ite (fun x => p x = true) g (fun _ => 0) xs).symm

theorem sum_map_div (xs : List α) (h : 0 < xs.sum) :
    (xs.map (· / xs.sum)).sum = 1 := by
  have scaled : (xs.map (· / xs.sum)).sum = xs.sum / xs.sum := by
    simp only [div_eq_mul_inv]
    rw [List.sum_map_mul_right, List.map_id']
  rw [scaled, div_self h.ne']

private theorem div_sum_nonneg (xs : List α) (hx : ∀ x ∈ xs, 0 ≤ x) :
    ∀ w ∈ xs.map (· / xs.sum), 0 ≤ w := by
  intro w hw
  obtain ⟨x, hm, rfl⟩ := List.mem_map.mp hw
  exact div_nonneg (hx x hm) (List.sum_nonneg hx)

namespace MatchDistribution

theorem equalWeights_nonneg (count : Nat) : ∀ w ∈ (equalWeights count : List α), 0 ≤ w := by
  intro w hw
  rw [List.eq_of_mem_replicate hw]
  simp

theorem equalWeights_sum (count : Nat) (h : 0 < count) : (equalWeights count : List α).sum = 1 := by
  have hc : (count : α) ≠ 0 := by exact_mod_cast h.ne'
  simp [equalWeights, hc]

/-- A weight as it counts: none where it is negative or no number. -/
def safeWeight (w : Datum α) : α := Scalar.max 0.0 (w.value?.getD 0.0)

theorem splitWeights_some (ws : List (Datum α)) : splitWeights ws.length (some ws) =
    .ok (if (ws.map safeWeight).sum ≤ Odds.negligible then equalWeights ws.length
      else ws.map fun w => safeWeight w / (ws.map safeWeight).sum) := by
  have read : (ws.mapM fun w => do
      return Scalar.max 0.0 (← (Except.ok (w.value?.getD 0.0) : Except Datum.Overflow α))) =
      .ok (ws.map safeWeight) := mapM_ok _ _
  simp only [splitWeights, Datum.numberOr_eq]
  rw [bne_self_eq_false, if_neg Bool.false_ne_true, read]
  change Except.ok _ = Except.ok _
  rw [Scalar.sum_eq, List.map_map]
  rfl

/-- However the stake is split, every entry has its part and the parts add up to one. -/
theorem splitWeights_shares (count : Nat) (splitting : Option (List (Datum α))) (h : 0 < count) :
    ∃ ws, splitWeights count splitting = .ok ws ∧ ws.length = count ∧
      (∀ w ∈ ws, 0 ≤ w) ∧ ws.sum = 1 := by
  have equal : (equalWeights count : List α).length = count ∧
      (∀ w ∈ (equalWeights count : List α), 0 ≤ w) ∧ (equalWeights count : List α).sum = 1 :=
    ⟨List.length_replicate, equalWeights_nonneg count, equalWeights_sum count h⟩
  cases splitting with
  | none => exact ⟨_, rfl, equal⟩
  | some weights =>
    by_cases number : weights.length = count
    case neg => exact ⟨_, if_pos (bne_iff_ne.mpr number), equal⟩
    subst number
    rw [splitWeights_some]
    by_cases void : (weights.map safeWeight).sum ≤ (Odds.negligible : α)
    case pos => exact ⟨_, congrArg Except.ok (if_pos void), equal⟩
    have mass : 0 < (weights.map safeWeight).sum :=
      Odds.negligible_pos.trans (not_le.mp void)
    have nonneg : ∀ x ∈ weights.map safeWeight, (0 : α) ≤ x := by
      simp [safeWeight]
    refine ⟨(weights.map safeWeight).map (· / (weights.map safeWeight).sum), ?_, by simp,
      div_sum_nonneg _ nonneg, sum_map_div _ mass⟩
    rw [if_neg void, List.map_map]
    rfl

end MatchDistribution

end Wager
