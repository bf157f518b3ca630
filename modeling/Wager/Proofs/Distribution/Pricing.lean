import Wager.Proofs.Distribution.Match

/-!
# Pricing a match by states and by entries

The expected payout of a match can be summed up over its states, each of which pays all entries that
cover it, or over its entries, each of which is paid in all states that it covers.  Both count every
pair of an entry and a state once.  It is also the chance of a hit times the payout given a hit.
-/

namespace Wager

variable {α : Type} [ExactScalar α]

/-- The payout given a hit: where misses pay nothing and no hit is negligible, it accounts for the
whole expected payout. -/
theorem Statistics.expectedGross_eq_hit_mul {ι : Type} {states : List (State ι α)}
    (unpaid : ∀ s ∈ states, s.isMiss = true → s.gross = 0)
    (weighty : ∀ s ∈ states, Odds.negligible < s.probability) :
    (ofStates states).expectedGross =
      (ofStates states).hitProbability * (ofStates states).conditionalOdds := by
  have hits : weightedGross (states.filter (!·.isMiss)) = (ofStates states).expectedGross := by
    rw [expectedGross_eq, weightedGross_eq, sum_map_filter]
    congr 1
    apply List.map_congr_left
    intro s hs
    cases miss : s.isMiss with
    | false => simp
    | true => simp [unpaid s hs miss]
  have conditional : (ofStates states).conditionalOdds =
      if Odds.negligible < (ofStates states).hitProbability then
        (ofStates states).expectedGross / (ofStates states).hitProbability
      else 0 := by
    rw [← hits, ← Scalar.zero_literal]
    rfl
  rw [conditional]
  split
  next likely => exact (mul_div_cancel₀ _ (Odds.negligible_pos.trans likely).ne').symm
  next unlikely =>
    -- A single hit would be more than negligible, so there is none.
    have none : states.filter (!·.isMiss) = [] := by
      rw [List.filter_eq_nil_iff]
      intro s hs hit
      apply unlikely
      rw [hitProbability_eq]
      refine (weighty s hs).trans_le ?_
      apply List.single_le_sum
      · intro x hx
        obtain ⟨t, ht, rfl⟩ := List.mem_map.mp hx
        exact (Odds.negligible_pos.trans (weighty t (List.mem_of_mem_filter ht))).le
      · exact List.mem_map_of_mem (List.mem_filter.mpr ⟨hs, hit⟩)
    rw [← hits, none]
    simp [weightedGross_eq]

def MatchState.isAmong (atoms : List Atom) : MatchState → Bool
  | .atom a => atoms.contains a
  | .miss => false

namespace MatchDistribution

section

variable {d : MatchDistribution α} {s : State MatchState α}

theorem Lawful.gross_of_isMiss (h : d.Lawful) (hs : s ∈ d.states) (miss : s.isMiss = true) :
    s.gross = 0 := by
  obtain ⟨hits, last, states, -, -, nothing, hit⟩ := h.miss_last
  rw [states, List.mem_append, List.mem_singleton] at hs
  rcases hs with front | rfl
  · rw [(hit s front).2] at miss
    cases miss
  · exact nothing

theorem Lawful.gross_eq (h : d.Lawful) (hs : s ∈ d.states) : s.gross =
    ((d.entries.filter fun e => s.id.isAmong e.atoms).map fun e =>
      e.splitWeight * e.odds).sum := by
  obtain ⟨hits, last, states, last_id, missed, nothing, hit⟩ := h.miss_last
  have place := hs
  rw [states, List.mem_append, List.mem_singleton] at place
  rcases place with front | rfl
  · obtain ⟨a, atom, -, gross⟩ := h.hit_atom s hs (hit s front).2
    rw [gross, atom]
    simp [MatchState.isAmong]
  · rw [nothing, last_id]
    simp [MatchState.isAmong]

end

theorem hitProbability_shareOf (states : List (State MatchState α)) (d : CoveringEntry α)
    (weight : α) : (shareOf states d weight).hitProbability =
      ((states.filter fun s => s.id.isAmong d.atoms).map (·.probability)).sum := by
  rw [← List.filterMap_eq_map, List.filterMap_filter]
  refine (Scalar.sum_eq _).trans (congrArg List.sum (List.filterMap_congr ?_))
  intro s _
  cases s.id with
  | atom a => simp [MatchState.isAmong]
  | miss => rfl

/-- Going through the states or through the entries meets the same pairs of a state and an entry
that covers it. -/
theorem Lawful.expectedGross_eq {d : MatchDistribution α} (h : d.Lawful)
    (hits : ∀ e ∈ d.entries, e.hitProbability =
      ((d.states.filter fun s => s.id.isAmong e.atoms).map (·.probability)).sum) :
    d.statistics.expectedGross =
      (d.entries.map fun e => e.splitWeight * e.odds * e.hitProbability).sum := by
  let covers (e : EntryShare α) (s : State MatchState α) : α :=
    if s.id.isAmong e.atoms then 1 else 0
  have byState : ∀ s ∈ d.states, s.probability * s.gross =
      (d.entries.map fun e => s.probability * (e.splitWeight * e.odds * covers e s)).sum := by
    intro s hs
    rw [h.gross_eq hs, sum_map_filter, List.sum_map_mul_left]
  have byEntry : ∀ e ∈ d.entries,
      (d.states.map fun s => s.probability * (e.splitWeight * e.odds * covers e s)).sum =
        e.splitWeight * e.odds * e.hitProbability := by
    intro e he
    rw [hits e he, sum_map_filter, ← List.sum_map_mul_left]
    congr 1
    apply List.map_congr_left
    intro s _
    ring
  calc d.statistics.expectedGross
      = (d.states.map fun s => s.probability * s.gross).sum := Statistics.expectedGross_eq _
    _ = (d.states.map fun s => (d.entries.map fun e =>
          s.probability * (e.splitWeight * e.odds * covers e s)).sum).sum := by
        rw [List.map_congr_left byState]
    _ = (d.entries.map fun e => (d.states.map fun s =>
          s.probability * (e.splitWeight * e.odds * covers e s)).sum).sum := sum_map_sum_comm _ _ _
    _ = (d.entries.map fun e => e.splitWeight * e.odds * e.hitProbability).sum := by
        rw [List.map_congr_left byEntry]

section

variable {covering : List (CoveringEntry α)} {weights : List α} {union fallback : α}

theorem retained_le_one (hc : CoveringEntry.Sound covering) (hu : Bounded union) :
    retained covering union ≤ 1 := by
  have some_kept : ((keptAtoms covering union).map (·.2)).sum ≤ 1 := by
    rw [← atomWeights_sum hc.nonempty hc.covers]
    apply (List.filter_sublist.map _).sum_le_sum
    intro x hx
    obtain ⟨p, hp, rfl⟩ := List.mem_map.mp hx
    exact (atomWeights_pos hc.nonempty hc.covers p hp).le
  have scaled := mul_le_mul_of_nonneg_left some_kept hu.pos.le
  rw [retained]
  linarith

theorem negligible_lt_probability (hc : CoveringEntry.Sound covering) (hu : Bounded union) :
    ∀ s ∈ (ofCovering covering weights union fallback).states,
      Odds.negligible < s.probability := by
  have scaled {mass : α} (h : Odds.negligible < mass) :
      Odds.negligible < mass / retained covering union :=
    h.trans_le (le_div_self (Odds.negligible_pos.trans h).le (retained_pos hc hu)
      (retained_le_one hc hu))
  rw [states_ofCovering hc hu]
  intro s hs
  rcases List.mem_append.mp hs with hs | hs
  · obtain ⟨p, hp, rfl⟩ := List.mem_map.mp hs
    exact scaled (of_decide_eq_true (List.mem_filter.mp hp).2)
  · rw [List.mem_singleton.mp hs]
    exact scaled hu.negligible_lt_miss

end

/-- The states, the entries and the chance of a hit price a match alike. -/
theorem build_prices_alike (entries : List (Datum α))
    (unionProbability fallbackOdds : Datum α) (splitting : Option (List (Datum α))) :
    ∃ d, build entries unionProbability fallbackOdds splitting = .ok d ∧
      d.statistics.expectedGross =
        (d.entries.map fun e => e.splitWeight * e.odds * e.hitProbability).sum ∧
      d.statistics.expectedGross =
        d.statistics.hitProbability * d.statistics.conditionalOdds := by
  obtain ⟨weights, -, ready, built⟩ := exists_build entries unionProbability fallbackOdds splitting
  refine ⟨_, built, ?_, ?_⟩
  · apply (lawful_ofCovering ready).expectedGross_eq
    intro e he
    obtain ⟨p, -, rfl⟩ := List.mem_map.mp he
    exact hitProbability_shareOf _ p.1 p.2
  · apply Statistics.expectedGross_eq_hit_mul
    · exact fun s hs miss => (lawful_ofCovering ready).gross_of_isMiss hs miss
    · exact negligible_lt_probability ready.sound ready.bounded

end MatchDistribution

end Wager
