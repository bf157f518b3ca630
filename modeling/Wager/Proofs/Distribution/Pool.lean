import Wager.Proofs.Distribution.Model

/-!
# Pool coupons

Entries named as on a pool coupon, with 1, X and 2 for the results and two of them for a double
chance.  The names of the results and the double chance of both sides are read as such; a draw
beside a side is taken for a handicap of one or two goals, which covers no result.
-/

namespace Wager

open Text

/-- The spellings of pool coupons in small letters, with the results that each of them names. -/
def poolResults : List (Text × List Outcome) := [
  ("1".toList, [.win]), ("x".toList, [.draw]), ("2".toList, [.lose]),
  ("1x".toList, [.win, .draw]), ("x1".toList, [.win, .draw]),
  ("x2".toList, [.draw, .lose]), ("2x".toList, [.draw, .lose]),
  ("12".toList, [.win, .lose]), ("21".toList, [.win, .lose])]

/-- Whether a name is a spelling of pool coupons, in any case of its letters. -/
def IsPoolName (t : Text) : Prop := foldCase t ∈ poolResults.map Prod.fst

instance decidableIsPoolName (t : Text) : Decidable (IsPoolName t) :=
  inferInstanceAs (Decidable (_ ∈ _))

def poolOutcomes (t : Text) : List Outcome := (poolResults.lookup (foldCase t)).getD []

def drawBesideSide : List Text := ["1x".toList, "x1".toList, "x2".toList, "2x".toList]

namespace Semantic

theorem coverage_ofPool {t : Text} (spelled : IsPoolName t) :
    (ofText t : Semantic Float).coverage =
      if foldCase t ∈ drawBesideSide then [] else poolOutcomes t := by
  have table : ∀ u ∈ poolResults.map Prod.fst, (ofText u : Semantic Float).coverage =
      if u ∈ drawBesideSide then [] else (poolResults.lookup u).getD [] := by
    decide
  rw [← coverage_foldCase]
  exact table _ spelled

theorem isEmpty_name_ofPool {t : Text} (spelled : IsPoolName t) :
    (ofText t : Semantic Float).name.isEmpty = false := by
  have table : ∀ u ∈ poolResults.map Prod.fst,
      (ofText u : Semantic Float).name.isEmpty = false := by
    decide
  rw [← isEmpty_name_foldCase]
  exact table _ spelled

end Semantic

theorem poolOutcomes_ne_nil {t : Text} (spelled : IsPoolName t) : poolOutcomes t ≠ [] := by
  have table : ∀ u ∈ poolResults.map Prod.fst, (poolResults.lookup u).getD [] ≠ [] := by
    decide
  exact table _ spelled

namespace MatchDistribution

variable {entries : List (Datum Float)} {unionProbability fallback : Datum Float}
  {splitting : Option (List (Datum Float))}

/-- A match of pool names is spread over results, each entry over those that its name means, unless
the draw stands beside a side in some name; then every entry is an atom of its own. -/
theorem build_ofPool (filled : entries ≠ [])
    (spelled : ∀ e ∈ entries, IsPoolName (Entry.fields e).1)
    (pays : ∀ e ∈ entries, Entry.pays fallback e = true)
    (readable : readsOutsized entries unionProbability fallback splitting = false) :
    ∃ d, build entries unionProbability fallback splitting = .ok d ∧
      if ∃ e ∈ entries, foldCase (Entry.fields e).1 ∈ drawBesideSide then
        d.IsOver (Atom.singles entries.length)
      else d.IsOver (entries.map fun e => (poolOutcomes (Entry.fields e).1).map Atom.outcome) := by
  obtain ⟨d, built, spread⟩ := build_isOver readable
  rw [map_coverage_priced filled pays fun e he => Semantic.isEmpty_name_ofPool (spelled e he),
    List.map_congr_left fun e he => Semantic.coverage_ofPool (spelled e he)] at spread
  refine ⟨d, built, ?_⟩
  split
  next crossed =>
    obtain ⟨e, he, beside⟩ := crossed
    rw [Atom.spread_of_nil_mem, List.length_map] at spread
    · exact spread
    · exact List.mem_map.mpr ⟨e, he, if_pos beside⟩
  next plain =>
    have each (e : Datum Float) (he : e ∈ entries) :
        (if foldCase (Entry.fields e).1 ∈ drawBesideSide then [] else
          poolOutcomes (Entry.fields e).1) = poolOutcomes (Entry.fields e).1 :=
      if_neg fun beside => plain ⟨e, he, beside⟩
    rw [List.map_congr_left each, Atom.spread_of_filled, List.map_map] at spread
    · exact spread
    · intro empty
      obtain ⟨e, he, none⟩ := List.mem_map.mp empty
      exact poolOutcomes_ne_nil (spelled e he) none

theorem build_ofPool_sides :
    (∀ e ∈ [Datum.bet "1" 2, .bet "12" 3], IsPoolName (Entry.fields (α := Float) e).1) ∧
    (∀ e ∈ [Datum.bet "1" 2, .bet "12" 3], Entry.pays (α := Float) .null e = true) ∧
    readsOutsized (α := Float) [.bet "1" 2, .bet "12" 3] .null .null none = false ∧
    ∃ d, build (α := Float) [.bet "1" 2, .bet "12" 3] .null .null none = .ok d ∧
      d.IsOver [[.outcome .win], [.outcome .win, .outcome .lose]] := by
  have spelled : ∀ e ∈ [Datum.bet "1" 2, .bet "12" 3],
      IsPoolName (Entry.fields (α := Float) e).1 := by
    decide
  have pays : ∀ e ∈ [Datum.bet "1" 2, .bet "12" 3], Entry.pays (α := Float) .null e = true := by
    decide
  have readable :
      readsOutsized (α := Float) [.bet "1" 2, .bet "12" 3] .null .null none = false := by
    decide
  obtain ⟨d, built, spread⟩ := build_ofPool (List.cons_ne_nil _ _) spelled pays readable
  rw [if_neg (by decide)] at spread
  exact ⟨spelled, pays, readable, d, built, spread⟩

/-- The double chance of a home win and a draw is taken for a handicap. -/
theorem exists_poolName_single : IsPoolName "1X".toList ∧ poolOutcomes "1X".toList = [.win, .draw] ∧
    ∃ d, build (α := Float) [.bet "1X" 2] .null .null none = .ok d ∧ d.IsOver [[.entry 0]] := by
  have readable : readsOutsized (α := Float) [.bet "1X" 2] .null .null none = false := by
    decide
  have covered : (priced (α := Float) [.bet "1X" 2] .null).map (fun e => e.semantic.coverage) =
      [[]] := by
    decide
  obtain ⟨d, built, spread⟩ := build_isOver readable
  rw [covered] at spread
  exact ⟨by decide, by decide, d, built, spread⟩

end MatchDistribution

end Wager
