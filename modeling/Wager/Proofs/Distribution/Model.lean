import Wager.Proofs.Distribution.Atoms
import Wager.Proofs.Entry.Coverage
import Wager.Proofs.Outsized

/-!
# The atoms of a match

A match is spread over results when all its entries cover some, and otherwise over the entries
themselves.  Nothing but what the entries cover decides between the two, and no state of the match
lies outside the atoms of its entries.
-/

namespace Wager

def Atom.singles (count : Nat) : List (List Atom) := (List.range count).map fun i => [.entry i]

/-- The atoms of some entries by the results that each of them covers. -/
def Atom.spread (covered : List (List Outcome)) : List (List Atom) :=
  if covered.all (!·.isEmpty) then covered.map (·.map Atom.outcome)
  else singles covered.length

theorem Atom.spread_of_filled {covered : List (List Outcome)} (h : [] ∉ covered) :
    spread covered = covered.map (·.map Atom.outcome) := by
  rw [spread, if_pos]
  rw [List.all_eq_true]
  intro outcomes hc
  cases outcomes with
  | nil => exact absurd hc h
  | cons o outcomes => rfl

theorem Atom.spread_of_nil_mem {covered : List (List Outcome)} (h : [] ∈ covered) :
    spread covered = singles covered.length := by
  rw [spread, if_neg]
  rw [List.all_eq_true]
  intro filled
  cases filled [] h

variable {α : Type} [Scalar α]

omit [Scalar α] in
theorem CoveringEntry.map_atoms_list (entries : List (EntryLabels × α)) :
    (list entries).map (·.atoms) = Atom.spread (entries.map fun e => Coverage.ofLabels e.1) := by
  let covered := entries.map fun e => Coverage.ofLabels e.1
  have each : (entries.zip covered).length = covered.length := by
    simp [covered]
  have second : (entries.zip covered).map Prod.snd = covered :=
    List.map_snd_zip (List.length_map _).le
  rw [list, List.map_map, Atom.spread]
  split
  next =>
    calc (entries.zip covered).zipIdx.map (fun p => p.1.2.map Atom.outcome)
        = (((entries.zip covered).zipIdx.map Prod.fst).map Prod.snd).map (·.map Atom.outcome) := by
          rw [List.map_map, List.map_map]
          rfl
      _ = covered.map (·.map Atom.outcome) := by rw [List.zipIdx_map_fst, second]
  next =>
    calc (entries.zip covered).zipIdx.map (fun p => [Atom.entry p.2])
        = ((entries.zip covered).zipIdx.map Prod.snd).map fun i => [Atom.entry i] := by
          rw [List.map_map]
          rfl
      _ = Atom.singles covered.length := by
          rw [List.zipIdx_map_snd, each, Atom.singles, List.range_eq_range']

namespace PricedEntry

variable {entries : List (Datum α)} {fallback e : Datum α}

theorem exists_atPosition? (pays : Entry.pays fallback e = true) (i : Nat) :
    ∃ odds, atPosition? fallback e i = some ⟨meaning e i, odds⟩ := by
  rw [Entry.pays] at pays
  cases price : Entry.price? fallback e with
  | none =>
    rw [price] at pays
    cases pays
  | some odds =>
    rw [price, Option.any_some] at pays
    refine ⟨odds, ?_⟩
    rw [atPosition?, price, Option.filter_some, if_pos pays]
    rfl

theorem exists_mem_usable {i : Nat} (at_i : entries[i]? = some e)
    (pays : Entry.pays fallback e = true) :
    ∃ odds, ⟨meaning e i, odds⟩ ∈ usable entries fallback := by
  obtain ⟨odds, found⟩ := exists_atPosition? pays i
  exact ⟨odds, List.mem_filterMap.mpr ⟨(e, i), List.mem_zipIdx_iff_getElem?.mpr at_i, found⟩⟩

theorem map_semantic_usable (pays : ∀ e ∈ entries, Entry.pays fallback e = true) :
    (usable entries fallback).map (·.semantic) = entries.zipIdx.map fun (e, i) => meaning e i := by
  rw [usable, List.map_filterMap, ← List.filterMap_eq_map]
  apply List.filterMap_congr
  rintro ⟨e, i⟩ he
  obtain ⟨odds, found⟩ := exists_atPosition? (pays e (List.fst_mem_of_mem_zipIdx he)) i
  dsimp only
  rw [found]
  rfl

theorem meaning_of_named
    (named : (Semantic.ofText (Entry.fields e).1 : Semantic α).name.isEmpty = false) (i : Nat) :
    meaning e i = Semantic.ofText (Entry.fields e).1 := by
  rw [meaning]
  exact if_neg (Bool.eq_false_iff.mp named)

end PricedEntry

namespace MatchDistribution

/-- A distribution over the given atoms: its entries pay on these, and where something pays it is
one of them. -/
structure IsOver (d : MatchDistribution α) (atoms : List (List Atom)) : Prop where
  entries : d.entries.map (·.atoms) = atoms
  states : ∀ s ∈ d.states, s.isMiss = false → ∃ a ∈ atoms.flatten, s.id = .atom a

theorem exists_atom_of_mem_rawStates {covering : List (CoveringEntry α)} {weights : List α}
    {union : α} {s : State MatchState α} (hs : s ∈ rawStates covering weights union)
    (hit : s.isMiss = false) : ∃ a, s.id = .atom a ∧ ∃ d ∈ covering, a ∈ d.atoms := by
  have paid (hits : List (State MatchState α)) (miss : α)
      (h : s ∈ if Odds.negligible < miss then hits ++ [missState miss] else hits) : s ∈ hits := by
    split at h
    · rcases List.mem_append.mp h with h | miss
      · exact h
      · rw [List.mem_singleton.mp miss] at hit
        cases hit
    · exact h
  obtain ⟨⟨a, weight⟩, ha, made⟩ := List.mem_filterMap.mp (paid _ _ hs)
  have covered := (mem_atomWeights covering a).mp (List.mem_map_of_mem ha)
  dsimp only at made
  split at made
  · cases made
  · cases made
    exact ⟨a, rfl, covered⟩

theorem exists_atom_of_mem_normalizeStates {states : List (State MatchState α)}
    {s : State MatchState α} (hs : s ∈ normalizeStates states) (hit : s.isMiss = false) :
    ∃ r ∈ states, r.isMiss = false ∧ r.id = s.id := by
  unfold normalizeStates at hs
  dsimp only at hs
  split at hs
  · obtain ⟨r, hr, rfl⟩ := List.mem_map.mp hs
    exact ⟨r, hr, hit, rfl⟩
  · rw [List.mem_singleton.mp hs] at hit
    cases hit

theorem map_atoms_coveringOf (priced : List (PricedEntry α)) :
    (coveringOf priced).map (·.atoms) =
      Atom.spread (priced.map fun e => e.semantic.coverage) := by
  rw [coveringOf, CoveringEntry.map_atoms_list, List.map_map]
  rfl

theorem ofPriced_isOver {priced : List (PricedEntry α)} {weights : List α}
    (full : weights.length = priced.length) (union fallback : α) :
    (ofPriced priced weights union fallback).IsOver
      (Atom.spread (priced.map fun e => e.semantic.coverage)) := by
  constructor
  · rw [map_entries_ofPriced (fun _ _ _ => rfl) full, map_atoms_coveringOf]
  · intro s hs hit
    obtain ⟨r, hr, raw, same⟩ := exists_atom_of_mem_normalizeStates hs hit
    obtain ⟨a, atom, d, hd, ha⟩ := exists_atom_of_mem_rawStates hr raw
    refine ⟨a, ?_, same.symm.trans atom⟩
    rw [← map_atoms_coveringOf, List.mem_flatten]
    exact ⟨d.atoms, List.mem_map_of_mem hd, ha⟩

section Build

variable {entries : List (Datum α)} {unionProbability fallback : Datum α}
  {splitting : Option (List (Datum α))}

/-- Without an integer out of range a distribution exists, and what its entries cover says what it
is over. -/
theorem build_isOver
    (readable : readsOutsized entries unionProbability fallback splitting = false) :
    ∃ d, build entries unionProbability fallback splitting = .ok d ∧
      d.IsOver (Atom.spread ((priced entries fallback).map fun e => e.semantic.coverage)) := by
  obtain ⟨weights, union, price, full, built⟩ := build_of_readable readable
  exact ⟨_, built, ofPriced_isOver full union price⟩

theorem priced_eq_usable {e : Datum α} {i : Nat} (at_i : entries[i]? = some e)
    (pays : Entry.pays fallback e = true) :
    priced entries fallback = PricedEntry.usable entries fallback := by
  obtain ⟨odds, found⟩ := PricedEntry.exists_mem_usable at_i pays
  rw [priced, if_neg]
  rw [List.isEmpty_iff]
  exact List.ne_nil_of_mem found

theorem map_coverage_priced (filled : entries ≠ [])
    (pays : ∀ e ∈ entries, Entry.pays fallback e = true)
    (named : ∀ e ∈ entries,
      (Semantic.ofText (Entry.fields e).1 : Semantic α).name.isEmpty = false) :
    (priced entries fallback).map (fun e => e.semantic.coverage) =
      entries.map fun e => (Semantic.ofText (Entry.fields e).1 : Semantic α).coverage := by
  obtain ⟨first, rest, rfl⟩ := List.exists_cons_of_ne_nil filled
  have front : (first :: rest)[0]? = some first := rfl
  rw [priced_eq_usable front (pays first List.mem_cons_self)]
  generalize first :: rest = entries at pays named
  calc (PricedEntry.usable entries fallback).map (fun e => e.semantic.coverage)
      = ((PricedEntry.usable entries fallback).map (·.semantic)).map Semantic.coverage := by
        rw [List.map_map]
        rfl
    _ = (entries.zipIdx.map fun (e, _) => (Semantic.ofText (Entry.fields e).1 : Semantic α)).map
          Semantic.coverage := by
        rw [PricedEntry.map_semantic_usable pays]
        apply congrArg
        apply List.map_congr_left
        rintro ⟨e, i⟩ he
        exact PricedEntry.meaning_of_named (named e (List.fst_mem_of_mem_zipIdx he)) i
    _ = (entries.zipIdx.map Prod.fst).map
          fun e => (Semantic.ofText (Entry.fields e).1 : Semantic α).coverage := by
        rw [List.map_map, List.map_map]
        rfl
    _ = entries.map fun e => (Semantic.ofText (Entry.fields e).1 : Semantic α).coverage := by
        rw [List.zipIdx_map_fst]

end Build

end MatchDistribution

end Wager
