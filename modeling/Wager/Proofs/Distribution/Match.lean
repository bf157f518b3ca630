import Wager.Proofs.Distribution.States
import Wager.Proofs.Outsized

/-!
# Laws of match distributions

Every distribution built from entries is a probability distribution: its states have distinct keys
and positive probabilities with sum one, the last state and no other is the miss, and each other
state stands for an atom that some entry covers and pays what the covering entries pay together.
-/

namespace Wager

variable {α : Type} [ExactScalar α]

theorem Datum.isOutsized_eq_false (d : Datum α) : d.isOutsized = false := by
  cases d <;> simp [isOutsized]

theorem Entry.any_isOutsized (entries : List (Datum α)) :
    entries.any Entry.isOutsized = false := by
  simp [Entry.isOutsized, Datum.isOutsized_eq_false]

def EntryShare.covering (e : EntryShare α) : CoveringEntry α := ⟨e.index, e.name, e.odds, e.atoms⟩

namespace MatchDistribution

structure Lawful (d : MatchDistribution α) : Prop where
  keys_nodup : (d.states.map (·.id.key)).Nodup
  miss_last : ∃ hits miss, d.states = hits ++ [miss] ∧ miss.id = .miss ∧ miss.isMiss = true ∧
    miss.gross = 0 ∧ ∀ s ∈ hits, s.id ≠ .miss ∧ s.isMiss = false
  probability_pos : ∀ s ∈ d.states, 0 < s.probability
  probability_le_one : ∀ s ∈ d.states, s.probability ≤ 1
  mass_eq_one : (d.states.map (·.probability)).sum = 1
  hit_atom : ∀ s ∈ d.states, s.isMiss = false → ∃ a, s.id = .atom a ∧
    (∃ e ∈ d.entries, a ∈ e.atoms) ∧
    s.gross = ((d.entries.filter (a ∈ ·.atoms)).map fun e => e.splitWeight * e.odds).sum
  odds_gt_one : ∀ e ∈ d.entries, 1 < e.odds
  splitWeight_nonneg : ∀ e ∈ d.entries, 0 ≤ e.splitWeight
  splitWeight_sum : (d.entries.map (·.splitWeight)).sum = 1
  hit_add_miss : d.statistics.hitProbability + d.statistics.missProbability = 1
  hit_eq_union : (∀ p ∈ atomWeights (d.entries.map EntryShare.covering),
      Odds.negligible < d.unionProbability * p.2) →
    d.statistics.hitProbability = d.unionProbability

/-- What a distribution is built from: sound covering entries, a part of the stake for each of them,
and the probability that some entry hits. -/
structure Ready (covering : List (CoveringEntry α)) (weights : List α) (union : α) : Prop where
  sound : CoveringEntry.Sound covering
  bounded : Bounded union
  length_eq : weights.length = covering.length
  weight_nonneg : ∀ w ∈ weights, 0 ≤ w
  weight_sum : weights.sum = 1

def ofCovering (covering : List (CoveringEntry α)) (weights : List α) (union fallback : α) :
    MatchDistribution α :=
  let states := normalizeStates (rawStates covering weights union)
  { states
    entries := (covering.zip weights).map fun (d, w) => shareOf states d w
    unionProbability := union
    fallbackOdds := fallback }

section

variable {covering : List (CoveringEntry α)} {weights : List α} {union fallback : α}

theorem map_covering_ofCovering (hl : weights.length = covering.length) :
    (ofCovering covering weights union fallback).entries.map EntryShare.covering = covering := by
  change ((covering.zip weights).map _).map _ = _
  rw [List.map_map]
  exact List.map_fst_zip hl.ge

theorem map_splitWeight_ofCovering (hl : weights.length = covering.length) :
    (ofCovering covering weights union fallback).entries.map (·.splitWeight) = weights := by
  change ((covering.zip weights).map _).map _ = _
  rw [List.map_map]
  exact List.map_snd_zip hl.le

theorem mem_entries_ofCovering {e : EntryShare α}
    (he : e ∈ (ofCovering covering weights union fallback).entries) :
    e.covering ∈ covering ∧ e.splitWeight ∈ weights := by
  obtain ⟨⟨d, w⟩, hm, rfl⟩ := List.mem_map.mp he
  exact List.of_mem_zip hm

theorem grossOn_eq (atom : Atom) : grossOn covering weights atom =
    (((ofCovering covering weights union fallback).entries.filter (atom ∈ ·.atoms)).map
      fun e => e.splitWeight * e.odds).sum := by
  rw [grossOn, Scalar.sum_eq, ofCovering, List.filter_map, List.map_map, ← List.filterMap_eq_map,
    List.filterMap_filter]
  congr 1
  apply List.filterMap_congr
  intro p _
  simp [shareOf]

theorem states_ofCovering (hc : CoveringEntry.Sound covering) (hu : Bounded union) :
    (ofCovering covering weights union fallback).states =
      (keptAtoms covering union).map (fun p =>
        hitState covering weights p.1 (union * p.2 / retained covering union)) ++
        [missState ((1 - union) / retained covering union)] :=
  normalizeStates_eq hc hu

theorem keys_nodup_ofCovering (hc : CoveringEntry.Sound covering) (hu : Bounded union) :
    ((ofCovering covering weights union fallback).states.map (·.id.key)).Nodup := by
  have ids : (ofCovering covering weights union fallback).states.map (·.id) =
      ((keptAtoms covering union).map Prod.fst).map MatchState.atom ++ [MatchState.miss] := by
    rw [states_ofCovering hc hu]
    simp [hitState, missState, Function.comp_def]
  have atoms : ((keptAtoms covering union).map Prod.fst).Nodup :=
    (atomWeights_nodup covering).sublist (List.filter_sublist.map _)
  have distinct : ((ofCovering covering weights union fallback).states.map (·.id)).Nodup := by
    rw [ids, List.nodup_append]
    refine ⟨atoms.map (fun a b h => MatchState.atom.inj h), List.nodup_singleton _, ?_⟩
    rintro s hs t ht rfl
    obtain ⟨a, _, rfl⟩ := List.mem_map.mp hs
    simp at ht
  have keys := distinct.map MatchState.key_injective
  rwa [List.map_map] at keys

theorem probability_pos_ofCovering (hc : CoveringEntry.Sound covering) (hu : Bounded union) :
    ∀ s ∈ (ofCovering covering weights union fallback).states, 0 < s.probability := by
  have total := retained_pos hc hu
  rw [states_ofCovering hc hu]
  intro s hs
  rcases List.mem_append.mp hs with hs | hs
  · obtain ⟨p, hp, rfl⟩ := List.mem_map.mp hs
    have weight := atomWeights_pos hc.nonempty hc.covers p (List.mem_of_mem_filter hp)
    exact div_pos (mul_pos hu.pos weight) total
  · rw [List.mem_singleton.mp hs]
    exact div_pos (by linarith [hu.le]) total

theorem mass_ofCovering (hc : CoveringEntry.Sound covering) (hu : Bounded union) :
    ((ofCovering covering weights union fallback).states.map (·.probability)).sum = 1 := by
  have total := (retained_pos hc hu).ne'
  rw [states_ofCovering hc hu]
  simp only [hitState, missState, List.map_append, List.map_map, Function.comp_def,
    List.map_cons, List.map_nil, List.sum_append, List.sum_singleton, div_eq_mul_inv]
  rw [List.sum_map_mul_right, List.sum_map_mul_left, ← add_mul, ← retained]
  exact mul_inv_cancel₀ total

theorem hitProbability_ofCovering (hc : CoveringEntry.Sound covering) (hu : Bounded union) :
    (ofCovering covering weights union fallback).statistics.hitProbability =
      union * ((keptAtoms covering union).map (·.2)).sum / retained covering union := by
  have hits : (ofCovering covering weights union fallback).states.filter (!·.isMiss) =
      (keptAtoms covering union).map (fun p =>
        hitState covering weights p.1 (union * p.2 / retained covering union)) := by
    rw [states_ofCovering hc hu, List.filter_append, List.filter_map]
    simp [hitState, missState, Function.comp_def]
  rw [statistics, Statistics.hitProbability_eq, hits, List.map_map]
  simp only [hitState, Function.comp_def, div_eq_mul_inv]
  rw [List.sum_map_mul_right, List.sum_map_mul_left]

theorem lawful_ofCovering (h : Ready covering weights union) :
    Lawful (ofCovering covering weights union fallback) where
  keys_nodup := keys_nodup_ofCovering h.sound h.bounded
  miss_last := by
    refine ⟨_, _, states_ofCovering h.sound h.bounded, rfl, rfl, Scalar.zero_literal, ?_⟩
    intro s hs
    obtain ⟨p, _, rfl⟩ := List.mem_map.mp hs
    exact ⟨MatchState.noConfusion, rfl⟩
  probability_pos := probability_pos_ofCovering h.sound h.bounded
  probability_le_one := by
    intro s hs
    rw [← mass_ofCovering h.sound h.bounded]
    apply List.single_le_sum
    · intro x hx
      obtain ⟨t, ht, rfl⟩ := List.mem_map.mp hx
      exact (probability_pos_ofCovering h.sound h.bounded t ht).le
    · exact List.mem_map_of_mem hs
  mass_eq_one := mass_ofCovering h.sound h.bounded
  hit_atom := by
    intro s hs hit
    rw [states_ofCovering h.sound h.bounded] at hs
    rcases List.mem_append.mp hs with hs | hs
    · obtain ⟨p, hp, rfl⟩ := List.mem_map.mp hs
      refine ⟨p.1, rfl, ?_, grossOn_eq p.1⟩
      have covered := (mem_atomWeights covering p.1).mp
        (List.mem_map_of_mem (List.mem_of_mem_filter hp))
      obtain ⟨d, hd, ha⟩ := covered
      rw [← map_covering_ofCovering h.length_eq] at hd
      obtain ⟨e, he, rfl⟩ := List.mem_map.mp hd
      exact ⟨e, he, ha⟩
    · rw [List.mem_singleton.mp hs] at hit
      exact absurd hit (by simp [missState])
  odds_gt_one := fun e he => h.sound.pays e.covering (mem_entries_ofCovering he).1
  splitWeight_nonneg := fun e he => h.weight_nonneg e.splitWeight (mem_entries_ofCovering he).2
  splitWeight_sum := by rw [map_splitWeight_ofCovering h.length_eq, h.weight_sum]
  hit_add_miss := by
    apply Statistics.hit_add_miss
    rw [← mass_ofCovering h.sound h.bounded]
    exact Statistics.hitProbability_le _
      (fun s hs => (probability_pos_ofCovering h.sound h.bounded s hs).le)
  hit_eq_union := by
    rw [map_covering_ofCovering h.length_eq]
    intro (kept : ∀ p ∈ atomWeights covering, Odds.negligible < union * p.2)
    have all : keptAtoms covering union = atomWeights covering :=
      List.filter_eq_self.mpr (fun p hp => decide_eq_true (kept p hp))
    rw [hitProbability_ofCovering h.sound h.bounded, retained_eq_one h.sound kept, all,
      atomWeights_sum h.sound.nonempty h.sound.covers, mul_one, div_one]
    rfl

end

theorem one_lt_least : (1 : α) < Odds.least := by
  rw [Odds.least, ExactScalar.ofScientific_eq]
  norm_num

theorem pricesOf_ne_nil (entries : List (Datum α)) (fallback : Datum α) :
    pricesOf entries fallback ≠ [] := by
  rw [pricesOf]
  split
  next => exact List.cons_ne_nil _ _
  next some_usable => simpa using some_usable

theorem isUsable_of_mem_pricesOf {entries : List (Datum α)} {fallback : Datum α} {odds : α}
    (h : odds ∈ pricesOf entries fallback) : Odds.isUsable odds = true := by
  rw [pricesOf] at h
  split at h
  next =>
    rw [List.mem_singleton.mp h, Odds.isUsable_iff, Scalar.max_eq]
    exact lt_max_of_lt_left one_lt_least
  next => exact (List.mem_filter.mp h).2

theorem bounded_unionOf (entries : List (Datum α)) (fallback : Datum α) (given : Option α) :
    Bounded (unionOf entries fallback given) := by
  cases given with
  | none => exact bounded_union _
  | some p => exact bounded_supplied p

/-- Exact arithmetic builds a distribution whatever the loosely typed values are, and what it builds
it from is in order. -/
theorem exists_build (entries : List (Datum α)) (unionProbability fallback : Datum α)
    (splitting : Option (List (Datum α))) :
    ∃ weights, splitWeights (priced entries fallback).length splitting = .ok weights ∧
      Ready (coveringOf (priced entries fallback)) weights
        (unionOf entries fallback unionProbability.readable?) ∧
      build entries unionProbability fallback splitting =
        .ok (ofPriced (priced entries fallback) weights
          (unionOf entries fallback unionProbability.readable?)
          (Scalar.max Odds.least (fallback.readable?.getD defaultFallback))) := by
  have filled : 0 < (priced entries fallback).length := by
    rw [length_priced]
    exact List.length_pos_iff.mpr (pricesOf_ne_nil entries fallback)
  have sound : CoveringEntry.Sound (coveringOf (priced entries fallback)) := by
    apply CoveringEntry.sound_list
    · simpa [List.length_pos_iff] using filled
    · intro e he
      obtain ⟨p, hp, rfl⟩ := List.mem_map.mp he
      apply Odds.isUsable_iff.mp
      apply isUsable_of_mem_pricesOf
      rw [← map_odds_priced]
      exact List.mem_map_of_mem hp
  obtain ⟨weights, split, full, nonneg, whole⟩ :=
    splitWeights_shares (priced entries fallback).length splitting filled
  have lengths : weights.length = (coveringOf (priced entries fallback)).length := by
    rw [full, length_coveringOf]
  refine ⟨weights, split, ⟨sound, bounded_unionOf _ _ _, lengths, nonneg, whole⟩, ?_⟩
  rw [build_of_inRange fallback.isOutsized_eq_false (Entry.any_isOutsized entries), split,
    Datum.number?_eq_ite, unionProbability.isOutsized_eq_false]
  rfl

/-- Building never fails, and what it builds is lawful. -/
theorem build_lawful (entries : List (Datum α))
    (unionProbability fallbackOdds : Datum α) (splitting : Option (List (Datum α))) :
    ∃ d, build entries unionProbability fallbackOdds splitting = .ok d ∧ d.Lawful := by
  obtain ⟨weights, -, ready, built⟩ :=
    exists_build entries unionProbability fallbackOdds splitting
  exact ⟨_, built, lawful_ofCovering ready⟩

def Built (d : MatchDistribution α) : Prop :=
  ∃ entries unionProbability fallbackOdds splitting,
    build entries unionProbability fallbackOdds splitting = .ok d

theorem Built.lawful {d : MatchDistribution α} (h : d.Built) : d.Lawful := by
  obtain ⟨entries, unionProbability, fallbackOdds, splitting, hd⟩ := h
  obtain ⟨weights, -, ready, built⟩ :=
    exists_build entries unionProbability fallbackOdds splitting
  rw [built] at hd
  obtain rfl := Except.ok.inj hd
  exact lawful_ofCovering ready

/-- The distribution that some entries make, nothing where reading them fails. -/
def ofEntries {α : Type} [Scalar α] (entries : List (Datum α))
    (unionProbability fallbackOdds : Datum α) (splitting : Option (List (Datum α))) :
    MatchDistribution α :=
  match build entries unionProbability fallbackOdds splitting with
  | .ok d => d
  | .error _ => ⟨[], [], 0.0, 0.0⟩

theorem build_ofEntries (entries : List (Datum α))
    (unionProbability fallbackOdds : Datum α) (splitting : Option (List (Datum α))) :
    build entries unionProbability fallbackOdds splitting =
      .ok (ofEntries entries unionProbability fallbackOdds splitting) := by
  obtain ⟨weights, -, -, built⟩ := exists_build entries unionProbability fallbackOdds splitting
  simp only [ofEntries, built]

@[simp] theorem built_ofEntries (entries : List (Datum α))
    (unionProbability fallbackOdds : Datum α) (splitting : Option (List (Datum α))) :
    Built (ofEntries entries unionProbability fallbackOdds splitting) :=
  ⟨entries, unionProbability, fallbackOdds, splitting, build_ofEntries _ _ _ _⟩

theorem Lawful.gross_nonneg {d : MatchDistribution α} (h : d.Lawful) :
    ∀ s ∈ d.states, 0 ≤ s.gross := by
  obtain ⟨hits, miss, hstates, _, _, hmiss, hhits⟩ := h.miss_last
  intro s hs
  rw [hstates] at hs
  rcases List.mem_append.mp hs with hs | hs
  · obtain ⟨a, _, _, hgross⟩ := h.hit_atom s (by simp [hstates, hs]) (hhits s hs).2
    rw [hgross]
    apply List.sum_nonneg
    intro x hx
    obtain ⟨e, he, rfl⟩ := List.mem_map.mp hx
    have hmem := List.mem_of_mem_filter he
    have pays : 0 ≤ e.odds := by linarith [h.odds_gt_one e hmem]
    exact mul_nonneg (h.splitWeight_nonneg e hmem) pays
  · rw [List.mem_singleton.mp hs, hmiss]

end MatchDistribution

end Wager
