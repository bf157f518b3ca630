import Wager.Proofs.Distribution.Figures
import Wager.Proofs.Distribution.Nameless
import Wager.Proofs.Distribution.Union
import Wager.Proofs.Scalar.Rational

/-!
# The order of the entries

Listing the entries of a match in another order, each with its part of the stake, changes neither
the chance of a hit nor the figures of the states.  What an entry without a name covers hangs on its
position, though, so such an entry must not come to stand where its number spells a double chance.
-/

namespace Wager

open Text

variable {α : Type} [ExactScalar α]

section Bets

variable {β : Type} {bets : List β}

theorem map_zipIdx_fst {γ : Type} (f : β → γ) : (bets.zipIdx.map fun p => f p.1) = bets.map f := by
  conv_rhs => rw [← List.zipIdx_map_fst 0 bets, List.map_map]
  rfl

theorem map_zipIdx_snd {γ : Type} (f : Nat → γ) :
    (bets.zipIdx.map fun p => f p.2) = (List.range bets.length).map f := by
  rw [List.range_eq_range', ← List.zipIdx_map_snd 0 bets, List.map_map]
  rfl

theorem nodup_map_entry : (bets.zipIdx.map fun p => Atom.entry p.2).Nodup := by
  rw [map_zipIdx_snd]
  exact List.nodup_range.map fun i j same => Atom.entry.inj same

namespace Backing

omit [ExactScalar α] in
theorem list_eq {covering : List (CoveringEntry α)} {atoms : β → List Atom} {odds : β → α}
    (covers : covering.map (·.atoms) = bets.map atoms)
    (pays : covering.map (·.odds) = bets.map odds) (weight : β → α) :
    list covering (bets.map weight) = bets.map fun b => ⟨atoms b, odds b, weight b⟩ := by
  induction bets generalizing covering with
  | nil =>
    cases covering with
    | nil => rfl
    | cons d ds => cases covers
  | cons b bets ih =>
    cases covering with
    | nil => cases covers
    | cons d ds =>
      obtain ⟨first, others⟩ := List.cons.inj covers
      obtain ⟨price, prices⟩ := List.cons.inj pays
      have rest := ih others prices
      rw [list] at rest
      simp [list, rest, first, price]

/-- What the atoms hold comes from the coverage, the odds and the weights of the entries. -/
theorem holdings_coveringOf {priced : List (PricedEntry α)} {covers : β → List Outcome}
    {odds : β → α} (covered : priced.map (fun e => e.semantic.coverage) = bets.map covers)
    (pays : priced.map (·.odds) = bets.map odds) (weight : β → α) :
    holdings (list (MatchDistribution.coveringOf priced) (bets.map weight)) =
      if [] ∈ bets.map covers then bets.map fun b => (Odds.implied (odds b), weight b * odds b)
      else holdings (bets.map fun b => ⟨(covers b).map Atom.outcome, odds b, weight b⟩) := by
  have atoms := MatchDistribution.map_atoms_coveringOf priced
  have prices := (MatchDistribution.map_odds_coveringOf priced).trans pays
  rw [covered] at atoms
  split
  next some_bare =>
    -- The entries are numbered, and each is the one atom of its number.
    have singles : Atom.singles (bets.map covers).length =
        bets.zipIdx.map fun p => [Atom.entry p.2] := by
      rw [Atom.singles, List.length_map, map_zipIdx_snd fun i => [Atom.entry i]]
    rw [Atom.spread_of_nil_mem some_bare, singles] at atoms
    rw [← map_zipIdx_fst odds] at prices
    rw [← map_zipIdx_fst weight, list_eq atoms prices,
      holdings_of_singles nodup_map_entry]
    exact map_zipIdx_fst fun b => (Odds.implied (odds b), weight b * odds b)
  next filled =>
    rw [Atom.spread_of_filled filled, List.map_map] at atoms
    rw [list_eq atoms prices]
    rfl

end Backing

end Bets

namespace MatchDistribution

/-- No entry without a name stands where the digits of its number hold the double chance of both
sides. -/
def HasPlainPlaces (entries : List (Datum α)) : Prop :=
  ∀ e i, (e, i) ∈ entries.zipIdx → normalizeName (Entry.fields e).1 = [] →
    spellsSides (i + 1) = false

def coverageOf (e : Datum α) : List Outcome :=
  (Semantic.ofText (Entry.fields e).1 : Semantic α).coverage

theorem coverageOf_nameless {e : Datum α} (nameless : normalizeName (Entry.fields e).1 = []) :
    coverageOf e = [] := by
  have unread : (Reading.ofName [] : Reading α) = .other := rfl
  have bare : Coverage.ofText [] = [] := by decide
  rw [coverageOf, Semantic.ofText_eq, nameless, unread, Semantic.coverage_other]
  exact (ite_self _).trans bare

/-- In a plain place an entry covers what its own name says, which is nothing without one. -/
theorem coverage_meaning {e : Datum α} {i : Nat}
    (plain : normalizeName (Entry.fields e).1 = [] → spellsSides (i + 1) = false) :
    (PricedEntry.meaning e i).coverage = coverageOf e := by
  by_cases nameless : normalizeName (Entry.fields e).1 = []
  · have placeholder : PricedEntry.meaning e i = Semantic.ofText (entryName i) := by
      rw [PricedEntry.meaning, Semantic.ofText_eq, nameless]
      rfl
    rw [placeholder, Semantic.coverage_entryName, plain nameless, coverageOf_nameless nameless]
    exact if_neg Bool.false_ne_true
  · have named : (Semantic.ofText (Entry.fields e).1 : Semantic α).name.isEmpty = false := by
      simpa [Semantic.ofText_eq] using nameless
    rw [PricedEntry.meaning_of_named named, coverageOf]

section Listing

variable {entries : List (Datum α)} {fallback : Datum α}

def priceOf (fallback e : Datum α) : α := (Entry.price? fallback e).getD 0

theorem prices_of_pays (pays : ∀ e ∈ entries, Entry.pays fallback e = true) :
    PricedEntry.prices entries fallback = entries.map (priceOf fallback) := by
  induction entries with
  | nil => rfl
  | cons e entries ih =>
    obtain ⟨first, others⟩ := List.forall_mem_cons.mp pays
    rw [Entry.pays, Option.any_eq_true] at first
    obtain ⟨odds, price, usable⟩ := first
    have rest := ih others
    rw [PricedEntry.prices] at rest
    simp [PricedEntry.prices, priceOf, price, usable, rest]

theorem map_coverage_usable (pays : ∀ e ∈ entries, Entry.pays fallback e = true)
    (plain : HasPlainPlaces entries) :
    (PricedEntry.usable entries fallback).map (fun e => e.semantic.coverage) =
      entries.map coverageOf := by
  have semantics := congrArg (List.map Semantic.coverage) (PricedEntry.map_semantic_usable pays)
  rw [List.map_map, List.map_map] at semantics
  refine semantics.trans ?_
  rw [← map_zipIdx_fst coverageOf]
  apply List.map_congr_left
  intro p hp
  rw [Function.comp_apply, coverage_meaning (plain p.1 p.2 hp)]

end Listing

section Bets

variable {bets bets' : List (Datum α × Datum α)} {fallback : Datum α}

/-- Weights are scaled by their sum, so an entry keeps its part of the stake in any order. -/
theorem exists_splitWeights_map (bets : List (Datum α × Datum α)) :
    ∃ part : Datum α → α, ∀ listed : List (Datum α × Datum α), listed.Perm bets →
      splitWeights listed.length (some (listed.map Prod.snd)) =
        .ok (listed.map fun b => part b.2) := by
  let total : α := ((bets.map Prod.snd).map safeWeight).sum
  refine ⟨fun w => if total ≤ Odds.negligible then 1.0 / Scalar.ofNat bets.length
    else safeWeight w / total, ?_⟩
  intro listed perm
  have same : ((listed.map Prod.snd).map safeWeight).sum = total :=
    ((perm.map Prod.snd).map safeWeight).sum_eq
  have split := splitWeights_some (listed.map Prod.snd)
  rw [same, List.length_map] at split
  rw [split]
  by_cases void : total ≤ Odds.negligible
  · simp only [if_pos void, equalWeights, List.map_const', perm.length_eq]
  · simp only [if_neg void, List.map_map]
    rfl

/-- The chance that one of some bets hits: the given one, or an estimate. -/
def unionOfBets (fallback : Datum α) (given : Option α) (bets : List (Datum α × Datum α)) : α :=
  match given with
  | some p => boundSupplied p
  | none => unionOfOdds (bets.map fun b => priceOf fallback b.1)

/-- What the atoms of some bets hold, with a part of the stake for each weight. -/
def holdingsOfBets (fallback : Datum α) (part : Datum α → α) (bets : List (Datum α × Datum α)) :
    List (α × α) :=
  if [] ∈ bets.map fun b => coverageOf b.1 then
    bets.map fun b => (Odds.implied (priceOf fallback b.1), part b.2 * priceOf fallback b.1)
  else Backing.holdings (bets.map fun b =>
    ⟨(coverageOf b.1).map Atom.outcome, priceOf fallback b.1, part b.2⟩)

theorem unionOfBets_perm (perm : bets.Perm bets') (given : Option α) :
    unionOfBets fallback given bets = unionOfBets fallback given bets' := by
  cases given with
  | some p => rfl
  | none => exact unionOfOdds_perm (perm.map _)

theorem holdingsOfBets_perm (perm : bets.Perm bets') (part : Datum α → α) :
    (holdingsOfBets fallback part bets).Perm (holdingsOfBets fallback part bets') := by
  have bare : [] ∈ bets.map (fun b => coverageOf b.1) ↔
      [] ∈ bets'.map fun b => coverageOf b.1 := (perm.map _).mem_iff
  rw [holdingsOfBets, holdingsOfBets]
  by_cases some_bare : [] ∈ bets.map fun b => coverageOf b.1
  · rw [if_pos some_bare, if_pos (bare.mp some_bare)]
    exact perm.map _
  · rw [if_neg some_bare, if_neg (bare.not.mp some_bare)]
    exact Backing.holdings_perm (perm.map _)

theorem exists_build_bets (filled : bets ≠ []) (pays : ∀ b ∈ bets, Entry.pays fallback b.1 = true)
    {part : Datum α → α} (split : splitWeights bets.length (some (bets.map Prod.snd)) =
      .ok (bets.map fun b => part b.2)) (unionProbability : Datum α) :
    ∃ d, build (bets.map Prod.fst) unionProbability fallback (some (bets.map Prod.snd)) = .ok d ∧
      d.unionProbability = unionOfBets fallback unionProbability.readable? bets ∧
      (HasPlainPlaces (bets.map Prod.fst) → d.states.map State.figures =
        figuresOf d.unionProbability (holdingsOfBets fallback part bets)) := by
  have paying : ∀ e ∈ bets.map Prod.fst, Entry.pays fallback e = true := by
    simpa using pays
  obtain ⟨b, hb⟩ := List.exists_mem_of_ne_nil bets filled
  have prices : pricesOf (bets.map Prod.fst) fallback =
      bets.map fun b => priceOf fallback b.1 := by
    rw [pricesOf_of_pays (List.mem_map_of_mem hb) (pays b hb), prices_of_pays paying, List.map_map]
    rfl
  have count : (priced (bets.map Prod.fst) fallback).length = bets.length := by
    rw [length_priced, prices, List.length_map]
  obtain ⟨weights, split', ready, built⟩ := exists_build (bets.map Prod.fst) unionProbability
    fallback (some (bets.map Prod.snd))
  rw [count, split] at split'
  obtain rfl := Except.ok.inj split'
  have union : unionOf (bets.map Prod.fst) fallback unionProbability.readable? =
      unionOfBets fallback unionProbability.readable? bets := by
    cases unionProbability.readable? with
    | some p => rfl
    | none => rw [unionOf, map_odds_priced, prices, unionOfBets]
  refine ⟨_, built, union, ?_⟩
  intro plain
  have covered : (priced (bets.map Prod.fst) fallback).map (fun e => e.semantic.coverage) =
      bets.map fun b => coverageOf b.1 := by
    obtain ⟨i, at_i⟩ := List.mem_iff_getElem?.mp (List.mem_map_of_mem (f := Prod.fst) hb)
    rw [priced_eq_usable at_i (pays b hb), map_coverage_usable paying plain, List.map_map]
    simp only [Function.comp_def]
  have odds := (map_odds_priced (bets.map Prod.fst) fallback).trans prices
  have holdings := Backing.holdings_coveringOf covered odds fun b => part b.2
  exact (map_figures_ofCovering ready _).trans (congrArg _ holdings)

/-- Another order of the bets, each an entry with its weight, leaves the chance of a hit as it is,
and the figures of the states and all statistics too, unless an entry without a name comes to stand
where its number holds the double chance of both sides. -/
theorem build_reordered (perm : bets.Perm bets')
    (pays : ∀ b ∈ bets, Entry.pays fallback b.1 = true) (unionProbability : Datum α) :
    ∃ d d',
      build (bets.map Prod.fst) unionProbability fallback (some (bets.map Prod.snd)) = .ok d ∧
      build (bets'.map Prod.fst) unionProbability fallback (some (bets'.map Prod.snd)) = .ok d' ∧
      d.unionProbability = d'.unionProbability ∧
      (HasPlainPlaces (bets.map Prod.fst) → HasPlainPlaces (bets'.map Prod.fst) →
        (d.states.map State.figures).Perm (d'.states.map State.figures) ∧
          d.statistics = d'.statistics) := by
  by_cases filled : bets = []
  · subst filled
    obtain rfl := perm.nil_eq
    obtain ⟨_, -, -, built⟩ := exists_build [] unionProbability fallback (some [])
    exact ⟨_, _, built, built, rfl, fun _ _ => ⟨List.Perm.refl _, rfl⟩⟩
  · obtain ⟨part, split⟩ := exists_splitWeights_map bets
    have filled' : bets' ≠ [] := fun none => filled (List.perm_nil.mp (none ▸ perm))
    have pays' : ∀ b ∈ bets', Entry.pays fallback b.1 = true :=
      fun b hb => pays b (perm.mem_iff.mpr hb)
    obtain ⟨d, built, union, figures⟩ :=
      exists_build_bets filled pays (split bets (List.Perm.refl _)) unionProbability
    obtain ⟨d', built', union', figures'⟩ :=
      exists_build_bets filled' pays' (split bets' perm.symm) unionProbability
    have same : d.unionProbability = d'.unionProbability := by
      rw [union, union', unionOfBets_perm perm]
    refine ⟨d, d', built, built', same, ?_⟩
    intro plain plain'
    have reordered : (d.states.map State.figures).Perm (d'.states.map State.figures) := by
      rw [figures plain, figures' plain', same]
      exact figuresOf_perm (holdingsOfBets_perm perm part) _
    exact ⟨reordered, Statistics.ofStates_congr reordered⟩

theorem hasPlainPlaces_of_length_le {entries : List (Datum α)} (few : entries.length ≤ 11) :
    HasPlainPlaces entries := by
  intro e i he _
  have small : i < 11 := (List.snd_lt_of_mem_zipIdx he).trans_le (by simpa using few)
  interval_cases i <;> decide

theorem build_reordered_backwards :
    let bets : List (Datum ℚ × Datum ℚ) :=
      [(.bet "主胜" 2, .int 3), (.bet "2-1" 9, .int 1), (.bet "" 4, .int 2)]
    bets.Perm bets.reverse ∧ (∀ b ∈ bets, Entry.pays .null b.1 = true) ∧
    HasPlainPlaces (bets.map Prod.fst) ∧ HasPlainPlaces (bets.reverse.map Prod.fst) ∧
    ∃ d d', build (bets.map Prod.fst) .null .null (some (bets.map Prod.snd)) = .ok d ∧
      build (bets.reverse.map Prod.fst) .null .null (some (bets.reverse.map Prod.snd)) = .ok d' ∧
      d.unionProbability = d'.unionProbability ∧
      (d.states.map State.figures).Perm (d'.states.map State.figures) ∧
      d.statistics = d'.statistics := by
  intro bets
  have perm : bets.Perm bets.reverse := bets.reverse_perm.symm
  have pays : ∀ b ∈ bets, Entry.pays .null b.1 = true := by
    have usable (n : Int) (h : 1 < n) : Odds.isUsable (n : ℚ) = true :=
      Odds.isUsable_iff.mpr (by exact_mod_cast h)
    simp only [bets, List.forall_mem_cons]
    exact ⟨usable 2 (by decide), usable 9 (by decide), usable 4 (by decide), by simp⟩
  have plain : HasPlainPlaces (bets.map Prod.fst) := hasPlainPlaces_of_length_le (by decide)
  have plain' : HasPlainPlaces (bets.reverse.map Prod.fst) :=
    hasPlainPlaces_of_length_le (by decide)
  obtain ⟨d, d', built, built', union, reordered⟩ := build_reordered perm pays .null
  exact ⟨perm, pays, plain, plain', d, d', built, built', union, reordered plain plain'⟩

def lateComma : List (Datum ℚ × Datum ℚ) :=
  List.replicate 11 (.bet "主胜" 2, .int 1) ++ [(.bet "," 2, .int 1)]

/-- In the twelfth place the mark is taken for the double chance of both sides, in the first place
for an entry of its own. -/
theorem exists_reordered_ne :
    (∀ b ∈ lateComma, trim (Entry.fields b.1).1 ≠ [] ∧ Entry.pays .null b.1 = true) ∧
    lateComma.Perm lateComma.reverse ∧
    ∃ d d', build (lateComma.map Prod.fst) .null .null (some (lateComma.map Prod.snd)) = .ok d ∧
      build (lateComma.reverse.map Prod.fst) .null .null
        (some (lateComma.reverse.map Prod.snd)) = .ok d' ∧
      ¬(d.states.map State.figures).Perm (d'.states.map State.figures) := by
  have valid : ∀ b ∈ lateComma, trim (Entry.fields b.1).1 ≠ [] ∧ Entry.pays .null b.1 = true := by
    have usable : Odds.isUsable ((2 : Int) : ℚ) = true := Odds.isUsable_iff.mpr (by norm_num)
    intro b hb
    rcases List.mem_append.mp hb with win | mark
    · rw [List.eq_of_mem_replicate win]
      exact ⟨by decide, usable⟩
    · rw [List.mem_singleton.mp mark]
      exact ⟨by decide, usable⟩
  let late := ofEntries (lateComma.map Prod.fst) .null .null (some (lateComma.map Prod.snd))
  let early := ofEntries (lateComma.reverse.map Prod.fst) .null .null
    (some (lateComma.reverse.map Prod.snd))
  have apart : ¬(late.states.map State.figures).Perm (early.states.map State.figures) := by
    decide +kernel
  exact ⟨valid, lateComma.reverse_perm.symm, late, early, build_ofEntries _ _ _ _,
    build_ofEntries _ _ _ _, apart⟩

end Bets

end MatchDistribution

end Wager
