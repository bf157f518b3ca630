import Wager.Proofs.Decimal.Fixed
import Wager.Proofs.Distribution.Atoms
import Wager.Proofs.Distribution.Statistics

/-!
# The states of a match

The clamps and guards on the way to the states never bind, except that atoms with a negligible mass
are left out: the states are the kept atoms and the miss, scaled by the mass they have together.
-/

namespace Wager

theorem Outcome.key_injective : Function.Injective Outcome.key := by
  intro o o' h
  cases o <;> cases o' <;> first | rfl | exact absurd h (by decide)

theorem Atom.key_injective : Function.Injective Atom.key := by
  have apart (o : Outcome) (i : Nat) : o.key ≠ "entry_".toList ++ Text.ofNat i := by
    intro h
    have head : o.key.head? = some 'e' := congrArg List.head? h
    cases o <;> exact absurd head (by decide)
  intro a b h
  cases a with
  | outcome o =>
    cases b with
    | outcome o' => exact congrArg Atom.outcome (Outcome.key_injective h)
    | entry j => exact absurd h (apart o j)
  | entry i =>
    cases b with
    | outcome o => exact absurd h.symm (apart o i)
    | entry j => exact congrArg Atom.entry (Text.ofNat_injective (List.append_cancel_left h))

theorem MatchState.key_injective : Function.Injective MatchState.key := by
  have apart (a : Atom) : a.key ≠ missLabel := by
    intro h
    have head := congrArg List.head? h
    cases a with
    | outcome o => cases o <;> exact absurd head (by decide)
    | entry i =>
      have initial : some 'e' = missLabel.head? := head
      exact absurd initial (by decide)
  intro s t h
  cases s with
  | atom a =>
    cases t with
    | atom b => exact congrArg MatchState.atom (Atom.key_injective h)
    | miss => exact absurd h (apart a)
  | miss =>
    cases t with
    | atom b => exact absurd h.symm (apart b)
    | miss => rfl

variable {α : Type} [ExactScalar α]

namespace CoveringEntry

/-- What is known of entries that a match can be built from. -/
structure Sound (covering : List (CoveringEntry α)) : Prop where
  nonempty : covering ≠ []
  covers : ∀ d ∈ covering, d.atoms ≠ []
  pays : ∀ d ∈ covering, 1 < d.odds

omit [ExactScalar α] in
theorem length_list (entries : List (EntryLabels × α)) :
    (list entries).length = entries.length := by
  simp [list]

/-- Entries that pay make sound covering entries: either all cover results, or each covers an atom
of its own. -/
theorem sound_list {entries : List (EntryLabels × α)} (hne : entries ≠ [])
    (h : ∀ e ∈ entries, 1 < e.2) : Sound (list entries) where
  nonempty := by
    rw [← List.length_pos_iff, length_list]
    exact List.length_pos_iff.mpr hne
  covers := by
    intro d hd
    obtain ⟨⟨⟨e, outcomes⟩, i⟩, hi, rfl⟩ := List.mem_map.mp hd
    have hmem := (List.of_mem_zip (List.fst_mem_of_mem_zipIdx hi)).2
    dsimp only
    split
    next hall =>
      have hout := List.all_eq_true.mp hall outcomes hmem
      simpa using hout
    next => simp
  pays := by
    intro d hd
    obtain ⟨⟨⟨e, outcomes⟩, i⟩, hi, rfl⟩ := List.mem_map.mp hd
    exact h e (List.of_mem_zip (List.fst_mem_of_mem_zipIdx hi)).1

end CoveringEntry

namespace MatchDistribution

section

variable (covering : List (CoveringEntry α)) (weights : List α) (union : α)

/-- The atoms whose part of the union probability is not negligible. -/
def keptAtoms : List (Atom × α) :=
  (atomWeights covering).filter fun p => decide (Odds.negligible < union * p.2)

def retained : α := union * ((keptAtoms covering union).map (·.2)).sum + (1 - union)

def hitState (atom : Atom) (probability : α) : State MatchState α :=
  ⟨.atom atom, labelOf covering atom, probability, grossOn covering weights atom, false⟩

end

/-- The probability that some entry hits is neither too small nor too close to one. -/
structure Bounded (union : α) : Prop where
  pos : 0 < union
  le : union ≤ 999 / 1000

private theorem bounded_clamp {low high : α} (p : α) (hlow : 0 < low) (hle : low ≤ high)
    (hhigh : high ≤ 999 / 1000) : Bounded (Scalar.clamp p low high) where
  pos := hlow.trans_le (Scalar.le_clamp _ _ _)
  le := (Scalar.clamp_le _ hle).trans hhigh

theorem bounded_supplied (p : α) : Bounded (boundSupplied p) := by
  apply bounded_clamp
  all_goals norm_num [ExactScalar.ofScientific_eq]

theorem bounded_union (odds : List α) : Bounded (unionOfOdds odds) := by
  apply bounded_clamp
  all_goals norm_num [ExactScalar.ofScientific_eq]

theorem Bounded.negligible_lt_miss {union : α} (h : Bounded union) :
    Odds.negligible < 1 - union := by
  have small : (Odds.negligible : α) < 1 / 1000 := by
    rw [Odds.negligible_eq]
    norm_num
  linarith [h.le]

section

variable {covering : List (CoveringEntry α)} {weights : List α} {union : α}

private theorem weight_le_one (hc : CoveringEntry.Sound covering) :
    ∀ p ∈ atomWeights covering, p.2 ≤ 1 := by
  intro p hp
  rw [← atomWeights_sum hc.nonempty hc.covers]
  apply List.single_le_sum
  · intro x hx
    obtain ⟨q, hq, rfl⟩ := List.mem_map.mp hx
    exact (atomWeights_pos hc.nonempty hc.covers q hq).le
  · exact List.mem_map_of_mem hp

private theorem clamp_mass (hc : CoveringEntry.Sound covering) (hu : Bounded union) :
    ∀ p ∈ atomWeights covering, Scalar.clamp (union * p.2) 0.0 1.0 = union * p.2 := by
  intro p hp
  have hpos := atomWeights_pos hc.nonempty hc.covers p hp
  have hle := weight_le_one hc p hp
  have hle_one : union ≤ 1 := by linarith [hu.le]
  rw [Scalar.zero_literal, Scalar.one_literal]
  exact Scalar.clamp_of_mem (mul_nonneg hu.pos.le hpos.le) (mul_le_one₀ hle_one hpos.le hle)

private theorem clamp_miss (hu : Bounded union) :
    Scalar.clamp (1.0 - union) 0.0 1.0 = 1 - union := by
  rw [Scalar.zero_literal, Scalar.one_literal]
  exact Scalar.clamp_of_mem (by linarith [hu.le]) (by linarith [hu.pos])

theorem rawStates_eq (hc : CoveringEntry.Sound covering) (hu : Bounded union) :
    rawStates covering weights union =
      (keptAtoms covering union).map (fun p => hitState covering weights p.1 (union * p.2)) ++
        [missState (1 - union)] := by
  have hits : ((atomWeights covering).filterMap fun p =>
      let probability := Scalar.clamp (union * p.2) 0.0 1.0
      if probability ≤ Odds.negligible then none
      else some (hitState covering weights p.1 probability)) =
      (keptAtoms covering union).map fun p => hitState covering weights p.1 (union * p.2) := by
    rw [keptAtoms, ← List.filterMap_eq_map, List.filterMap_filter]
    apply List.filterMap_congr
    intro p hp
    simp only [clamp_mass hc hu p hp, ← not_lt, ite_not]
    by_cases hk : Odds.negligible < union * p.2 <;> simp [hk]
  unfold rawStates
  simp only [clamp_miss hu, if_pos hu.negligible_lt_miss]
  rw [← hits]
  rfl

private theorem kept_sum_nonneg (hc : CoveringEntry.Sound covering) :
    0 ≤ ((keptAtoms covering union).map (·.2)).sum := by
  apply List.sum_nonneg
  intro x hx
  obtain ⟨p, hp, rfl⟩ := List.mem_map.mp hx
  exact (atomWeights_pos hc.nonempty hc.covers p (List.mem_of_mem_filter hp)).le

theorem miss_le_retained (hc : CoveringEntry.Sound covering) (hu : Bounded union) :
    1 - union ≤ retained covering union :=
  le_add_of_nonneg_left (mul_nonneg hu.pos.le (kept_sum_nonneg hc))

theorem retained_pos (hc : CoveringEntry.Sound covering) (hu : Bounded union) :
    0 < retained covering union :=
  (Odds.negligible_pos.trans hu.negligible_lt_miss).trans_le (miss_le_retained hc hu)

theorem retained_eq_one (hc : CoveringEntry.Sound covering)
    (h : ∀ p ∈ atomWeights covering, Odds.negligible < union * p.2) :
    retained covering union = 1 := by
  have all : keptAtoms covering union = atomWeights covering :=
    List.filter_eq_self.mpr (fun p hp => decide_eq_true (h p hp))
  rw [retained, all, atomWeights_sum hc.nonempty hc.covers]
  ring

theorem normalizeStates_eq (hc : CoveringEntry.Sound covering) (hu : Bounded union) :
    normalizeStates (rawStates covering weights union) =
      (keptAtoms covering union).map (fun p =>
        hitState covering weights p.1 (union * p.2 / retained covering union)) ++
        [missState ((1 - union) / retained covering union)] := by
  have total : Statistics.mass (rawStates covering weights union) = retained covering union := by
    rw [Statistics.mass_eq, rawStates_eq hc hu, retained, ← List.sum_map_mul_left]
    simp [hitState, missState, Function.comp_def]
  have large : Odds.negligible < retained covering union :=
    hu.negligible_lt_miss.trans_le (miss_le_retained hc hu)
  unfold normalizeStates
  simp only [total, if_pos large]
  rw [rawStates_eq hc hu, List.map_append, List.map_map]
  rfl

end

end MatchDistribution

end Wager
