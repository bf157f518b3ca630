import Wager.Proofs.Scalar.Exact
import Wager.Distribution.State

/-!
# Exact statistics

The figures of a distribution are sums over its states, so they do not depend on the order in which
the states are listed.
-/

namespace Wager.Statistics

variable {ι α : Type} [ExactScalar α]

theorem mass_eq (states : List (State ι α)) :
    mass states = (states.map (·.probability)).sum :=
  Scalar.sum_eq _

theorem weightedGross_eq (states : List (State ι α)) :
    weightedGross states = (states.map fun s => s.probability * s.gross).sum :=
  Scalar.sum_eq _

theorem hitProbability_eq (states : List (State ι α)) : (ofStates states).hitProbability =
    ((states.filter (!·.isMiss)).map (·.probability)).sum :=
  mass_eq _

theorem expectedGross_eq (states : List (State ι α)) : (ofStates states).expectedGross =
    (states.map fun s => s.probability * s.gross).sum :=
  weightedGross_eq _

theorem hitProbability_le (states : List (State ι α)) (h : ∀ s ∈ states, 0 ≤ s.probability) :
    (ofStates states).hitProbability ≤ (states.map (·.probability)).sum := by
  rw [hitProbability_eq]
  exact (List.filter_sublist.map _).sum_le_sum (by simpa using h)

theorem hit_add_miss (states : List (State ι α)) (h : (ofStates states).hitProbability ≤ 1) :
    (ofStates states).hitProbability + (ofStates states).missProbability = 1 := by
  have miss : (ofStates states).missProbability = 1 - (ofStates states).hitProbability := by
    change Scalar.max 0.0 (1.0 - (ofStates states).hitProbability) = _
    rw [Scalar.max_eq, Scalar.zero_literal, Scalar.one_literal]
    exact max_eq_right (sub_nonneg.mpr h)
  rw [miss]
  exact add_sub_cancel _ _

theorem mass_perm {states states' : List (State ι α)} (h : states.Perm states') :
    mass states = mass states' := by
  rw [mass_eq, mass_eq]
  exact (h.map _).sum_eq

theorem weightedGross_perm {states states' : List (State ι α)} (h : states.Perm states') :
    weightedGross states = weightedGross states' := by
  rw [weightedGross_eq, weightedGross_eq]
  exact (h.map _).sum_eq

theorem ofStates_perm {states states' : List (State ι α)} (h : states.Perm states') :
    ofStates states = ofStates states' := by
  have spread (f : State ι α → α) : Scalar.sum (states.map f) = Scalar.sum (states'.map f) := by
    rw [Scalar.sum_eq, Scalar.sum_eq]
    exact (h.map f).sum_eq
  simp only [ofStates, weightedGross_perm h, mass_perm (h.filter _),
    weightedGross_perm (h.filter _), spread]

end Wager.Statistics
