import Wager.Proofs.Parlay.Mass
import Wager.Proofs.Scalar.Rational

/-!
# A parlay is a distribution

The states of a ticket are its slots, scaled by the mass they have together: no slot is lost on the
way, because every slot holds more than a negligible mass and together they hold at most one.
-/

namespace Wager.Parlay

variable {α : Type} [ExactScalar α]

def slotsOf (games : List (MatchDistribution α)) : List (Slot α) := joint (games.map (·.states))

def stagesOf (games : List (MatchDistribution α)) : List (List (Candidate α)) :=
  stages (games.map (·.states))

def pruned (games : List (MatchDistribution α)) : Nat :=
  ((stagesOf games).map (·.countP Candidate.isPruned)).sum

section

variable {games : List (MatchDistribution α)}

theorem proper_legs (built : ∀ d ∈ games, d.Built) :
    ∀ leg ∈ games.map (·.states), Proper leg := by
  intro leg hl
  obtain ⟨d, hd, rfl⟩ := List.mem_map.mp hl
  exact proper_states (built d hd).lawful

theorem merged_slotsOf (hne : games ≠ []) (built : ∀ d ∈ games, d.Built) :
    Merged (slotsOf games) :=
  merged_joint (by simpa using hne) (proper_legs built)

theorem mass_slotsOf (built : ∀ d ∈ games, d.Built) : mass (slotsOf games) ≤ 1 ∧
    1 ≤ mass (slotsOf games) + Odds.negligible * (pruned games : Nat) := by
  have bounds := mass_foldl_extend nonneg_start (proper_legs built)
  rw [mass_start] at bounds
  exact bounds

theorem sum_slotsOf (games : List (MatchDistribution α)) :
    Scalar.sum ((joint (games.map (·.states))).map (·.probability)) = mass (slotsOf games) :=
  Scalar.sum_eq _

/-- Scaling by a mass of at most one keeps every slot above the negligible masses. -/
theorem combine_eq (hne : games ≠ []) (built : ∀ d ∈ games, d.Built)
    (hm : Odds.negligible < mass (slotsOf games)) : combine games =
      ⟨(slotsOf games).map fun s => stateOf s.gross (s.probability / mass (slotsOf games)),
        games.length⟩ := by
  have kept : ∀ s ∈ slotsOf games, Odds.negligible < s.probability / mass (slotsOf games) := by
    intro s hs
    have large := (merged_slotsOf hne built).large s hs
    have positive := Odds.negligible_pos.trans large
    exact large.trans_le
      (le_div_self positive.le (Odds.negligible_pos.trans hm) (mass_slotsOf built).1)
  have nonempty : games.isEmpty = false := by simpa using hne
  unfold combine
  simp only [nonempty, Bool.false_eq_true, if_false, sum_slotsOf, if_neg (not_le.mpr hm)]
  congr 1
  exact (List.filterMap_congr fun s hs => if_pos (kept s hs)).trans
    (congrFun List.filterMap_eq_map' _)

theorem nonempty_of_ne_degenerate (h : combine games ≠ degenerate) :
    games ≠ [] ∧ Odds.negligible < mass (slotsOf games) := by
  constructor
  · rintro rfl
    exact h rfl
  · by_contra hm
    apply h
    unfold combine
    simp only [sum_slotsOf, if_pos (not_lt.mp hm), ite_self]

theorem stateOf_id (gross probability : α) : (stateOf gross probability).id = mergeKey gross := by
  unfold stateOf
  split <;> rfl

theorem stateOf_gross (gross probability : α) : (stateOf gross probability).gross = gross := by
  unfold stateOf
  split <;> rfl

theorem stateOf_probability (gross probability : α) :
    (stateOf gross probability).probability = probability := by
  unfold stateOf
  split <;> rfl

theorem stateOf_isMiss (gross probability : α) :
    (stateOf gross probability).isMiss = true ↔ gross ≤ 0 := by
  unfold stateOf
  rw [Scalar.zero_literal]
  split
  next h => exact ⟨fun _ => h, fun _ => rfl⟩
  next h => exact ⟨fun hf => absurd hf Bool.false_ne_true, fun hg => absurd hg h⟩

theorem map_id_combine (hne : games ≠ []) (built : ∀ d ∈ games, d.Built)
    (hm : Odds.negligible < mass (slotsOf games)) :
    (combine games).states.map (·.id) = (slotsOf games).map (·.key) := by
  rw [combine_eq hne built hm, List.map_map]
  apply List.map_congr_left
  intro s hs
  exact (stateOf_id _ _).trans ((merged_slotsOf hne built).key_eq s hs).symm

theorem countP_isMiss_combine (hne : games ≠ []) (built : ∀ d ∈ games, d.Built)
    (hm : Odds.negligible < mass (slotsOf games)) :
    (combine games).states.countP (·.isMiss) ≤ 1 := by
  have merged := merged_slotsOf hne built
  have keys : ∀ k ∈ ((combine games).states.filter (·.isMiss)).map (·.id),
      k = mergeKey (0 : α) := by
    intro k hk
    obtain ⟨s, hs, rfl⟩ := List.mem_map.mp hk
    obtain ⟨hs, miss⟩ := List.mem_filter.mp hs
    rw [combine_eq hne built hm] at hs
    obtain ⟨t, ht, rfl⟩ := List.mem_map.mp hs
    have nothing : t.gross = 0 :=
      le_antisymm ((stateOf_isMiss _ _).mp miss) (merged.gross_nonneg t ht)
    rw [stateOf_id, nothing]
  have distinct : (((combine games).states.filter (·.isMiss)).map (·.id)).Nodup := by
    apply List.Nodup.sublist (List.filter_sublist.map _)
    rw [map_id_combine hne built hm]
    exact merged.keys_nodup
  rw [List.eq_replicate_of_mem keys, List.nodup_replicate, List.length_map] at distinct
  rwa [List.countP_eq_length_filter]

theorem probability_combine (hne : games ≠ []) (built : ∀ d ∈ games, d.Built)
    (hm : Odds.negligible < mass (slotsOf games)) :
    ((combine games).states.map (·.probability)).sum = 1 := by
  rw [combine_eq hne built hm, List.map_map]
  simp only [Function.comp_def, stateOf_probability, div_eq_mul_inv]
  rw [List.sum_map_mul_right]
  exact mul_inv_cancel₀ (Odds.negligible_pos.trans hm).ne'

end

/-- A ticket read as a distribution: the last filter leaves every slot in, the probabilities add up
to one, the identifiers are the distinct texts of the payouts, and one state at most is a miss.
Before the scaling at most a negligible mass is lost for each joint state that is left out. -/
structure Normalized (games : List (MatchDistribution α)) : Prop where
  states_eq : (combine games).states =
    (slotsOf games).map fun s => stateOf s.gross (s.probability / mass (slotsOf games))
  probability_sum : ((combine games).states.map (·.probability)).sum = 1
  ids_nodup : ((combine games).states.map (·.id)).Nodup
  miss_unique : (combine games).states.countP (·.isMiss) ≤ 1
  id_eq : ∀ s ∈ (combine games).states, s.id = Scalar.fixed 8 s.gross
  mass_le_one : mass (slotsOf games) ≤ 1
  le_mass : 1 - Odds.negligible * (pruned games : Nat) ≤ mass (slotsOf games)

/-- Every ticket of built matches that is not degenerate is a distribution. -/
theorem combine_normalized (games : List (MatchDistribution α)) (built : ∀ d ∈ games, d.Built)
    (pays : combine games ≠ degenerate) : Normalized games := by
  obtain ⟨hne, hm⟩ := nonempty_of_ne_degenerate pays
  have states := combine_eq hne built hm
  obtain ⟨upper, lower⟩ := mass_slotsOf built
  constructor
  case states_eq => rw [states]
  case probability_sum => exact probability_combine hne built hm
  case ids_nodup =>
    rw [map_id_combine hne built hm]
    exact (merged_slotsOf hne built).keys_nodup
  case miss_unique => exact countP_isMiss_combine hne built hm
  case id_eq =>
    intro s hs
    rw [states] at hs
    obtain ⟨t, _, rfl⟩ := List.mem_map.mp hs
    rw [stateOf_id, stateOf_gross, mergeKey, mergePlaces]
  case mass_le_one => exact upper
  case le_mass => exact sub_le_iff_le_add.mpr lower

/-- Three matches that hardly ever hit.  Of the joint states that pay, one is left out. -/
def longShots : List (MatchDistribution ℚ) :=
  [.ofEntries [.text "2-1".toList] (.int 0) .null none,
    .ofEntries [.text "2-1".toList] (.int 0) .null none,
    .ofEntries [.bet "1-0" 2, .bet "2-0" 20] (.real (1 / 100)) .null none]

theorem built_longShots : ∀ d ∈ longShots, d.Built := by
  simp [longShots]

theorem combine_normalized_longShots :
    (∀ d ∈ longShots, d.Built) ∧ combine longShots ≠ degenerate ∧
      (combine longShots).states.length = 2 ∧ pruned longShots = 1 ∧ Normalized longShots := by
  have combined : combine longShots ≠ degenerate ∧ (combine longShots).states.length = 2 ∧
      pruned longShots = 1 := by
    decide +kernel
  obtain ⟨pays, two, one⟩ := combined
  exact ⟨built_longShots, pays, two, one, combine_normalized longShots built_longShots pays⟩

end Wager.Parlay
