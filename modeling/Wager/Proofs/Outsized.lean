import Wager.Kelly
import Wager.Proofs.Datum
import Wager.Proofs.StoredMatch
import Wager.Distribution.Match
import Wager.Scalar.Double

/-!
# Integers out of range

The one value that stops the distribution of a match or the search for a Kelly fraction is an
integer that the scalars have no room for.  All other values are read as numbers, replaced by the
fallback or left out.
-/

namespace Wager

variable {α : Type} [Scalar α]

namespace Datum

/-- Whether a value is an integer beyond the range of the scalars. -/
def isOutsized : Datum α → Bool
  | .int n => (Scalar.ofInt? n : Option α).isNone
  | _ => false

/-- The finite number that a value spells within the range of the scalars, if it spells one. -/
def readable? : Datum α → Option α
  | .int n => Scalar.ofInt? n
  | .real x => Scalar.finite? x
  | .text t => Scalar.ofText? t
  | _ => none

theorem number?_eq_ite (d : Datum α) :
    d.number? = if d.isOutsized then .error .integerTooLarge else .ok d.readable? := by
  cases d with
  | int n =>
    rw [number?, isOutsized, readable?]
    cases (Scalar.ofInt? n : Option α) <;> rfl
  | _ => rfl

theorem numberOr_eq_ite (d : Datum α) (fallback : α) : d.numberOr fallback =
    if d.isOutsized then .error .integerTooLarge else .ok (d.readable?.getD fallback) := by
  rw [numberOr, number?_eq_ite]
  cases d.isOutsized <;> rfl

end Datum

def Entry.isOutsized (e : Datum α) : Bool := (Entry.fields e).2.isOutsized

def Entry.price? (fallback e : Datum α) : Option α :=
  (Entry.fields e).2.readable? <|> fallback.readable?

/-- Whether an entry has a usable price, its own or the fallback. -/
def Entry.pays (fallback e : Datum α) : Bool := (Entry.price? fallback e).any Odds.isUsable

theorem Entry.ofDatum_eq_ite {fallback : Datum α} (inRange : fallback.isOutsized = false)
    (e : Datum α) : Entry.ofDatum e fallback =
      if Entry.isOutsized e then .error .integerTooLarge
      else .ok ⟨Semantic.ofText (Entry.fields e).1, Entry.price? fallback e⟩ := by
  have read : fallback.number? = .ok fallback.readable? := by
    rw [Datum.number?_eq_ite, inRange, if_neg Bool.false_ne_true]
  unfold ofDatum
  dsimp only
  rw [read, Datum.number?_eq_ite, isOutsized, price?]
  cases (Entry.fields e).2.isOutsized <;> rfl

namespace PricedEntry

def prices (entries : List (Datum α)) (fallback : Datum α) : List α :=
  (entries.filterMap (Entry.price? fallback)).filter Odds.isUsable

/-- The meaning of an entry, or of the name that its position gives it when it has none. -/
def meaning (e : Datum α) (i : Nat) : Semantic α :=
  let semantic := Semantic.ofText (Entry.fields e).1
  if semantic.name.isEmpty then Semantic.ofText (entryName i) else semantic

/-- An entry and its position with the price it has, if that is usable. -/
def atPosition? (fallback e : Datum α) (i : Nat) : Option (PricedEntry α) :=
  ((Entry.price? fallback e).filter Odds.isUsable).map fun odds => ⟨meaning e i, odds⟩

def usable (entries : List (Datum α)) (fallback : Datum α) : List (PricedEntry α) :=
  entries.zipIdx.filterMap fun (e, i) => atPosition? fallback e i

theorem map_odds_usable (entries : List (Datum α)) (fallback : Datum α) :
    (usable entries fallback).map (·.odds) = prices entries fallback := by
  have each (p : Datum α × Nat) : (atPosition? fallback p.1 p.2).map (·.odds) =
      ((fun e => (Entry.price? fallback e).filter Odds.isUsable) ∘ Prod.fst) p := by
    rw [atPosition?, Option.map_map]
    exact Option.map_id'
  rw [usable, List.map_filterMap, List.filterMap_congr fun p _ => each p, ← List.filterMap_map,
    List.zipIdx_map_fst, prices, List.filter_filterMap]

theorem list_eq_ite (entries : List (Datum α)) {fallback : Datum α}
    (inRange : fallback.isOutsized = false) : list entries fallback =
      if entries.any Entry.isOutsized then .error .integerTooLarge
      else .ok (usable entries fallback) := by
  have read := mapM_of_same_fault (l := entries) fun e _ => Entry.ofDatum_eq_ite inRange e
  rw [list, read]
  split
  · rfl
  · apply congrArg Except.ok
    rw [List.zipIdx_map, List.map_map, List.filterMap_map, usable]
    apply List.filterMap_congr
    rintro ⟨e, i⟩ -
    dsimp only [Function.comp_apply, Prod.map_apply, id_eq, Entry.name]
    rw [atPosition?, meaning]
    by_cases nameless : (Semantic.ofText (Entry.fields e).1 : Semantic α).name.isEmpty = true
    all_goals
      simp only [nameless, if_true]
      cases Entry.price? fallback e with
      | none => rfl
      | some odds => cases pays : Odds.isUsable odds <;> simp [Option.filter, pays]

end PricedEntry

namespace CoveringEntry

omit [Scalar α] in
theorem map_odds_list (entries : List (EntryLabels × α)) :
    (list entries).map (·.odds) = entries.map (·.2) := by
  have full : entries.length ≤ (entries.map fun e => Coverage.ofLabels e.1).length := by simp
  calc (list entries).map (·.odds)
      = (((entries.zip (entries.map fun e => Coverage.ofLabels e.1)).zipIdx.map Prod.fst).map
          Prod.fst).map (·.2) := by
        rw [list, List.map_map, List.map_map, List.map_map]
        rfl
    _ = entries.map (·.2) := by rw [List.zipIdx_map_fst, List.map_fst_zip full]

end CoveringEntry

namespace MatchDistribution

def coveringOf (priced : List (PricedEntry α)) : List (CoveringEntry α) :=
  CoveringEntry.list (priced.map fun e =>
    (EntryLabels.ofEntry ⟨e.semantic, some e.odds⟩, e.odds))

theorem map_odds_coveringOf (priced : List (PricedEntry α)) :
    (coveringOf priced).map (·.odds) = priced.map (·.odds) := by
  rw [coveringOf, CoveringEntry.map_odds_list, List.map_map]
  rfl

theorem length_coveringOf (priced : List (PricedEntry α)) :
    (coveringOf priced).length = priced.length := by
  rw [← List.length_map (·.odds), map_odds_coveringOf, List.length_map]

/-- With a weight for each entry, the entries of a distribution are the priced ones in order. -/
theorem map_entries_ofPriced {β : Type} {f : EntryShare α → β} {g : CoveringEntry α → β}
    (kept : ∀ states d w, f (shareOf states d w) = g d) {priced : List (PricedEntry α)}
    {weights : List α} (full : weights.length = priced.length) (union fallback : α) :
    (ofPriced priced weights union fallback).entries.map f = (coveringOf priced).map g := by
  have each : (coveringOf priced).length ≤ weights.length := by
    rw [length_coveringOf, full]
  calc (ofPriced priced weights union fallback).entries.map f
      = ((coveringOf priced).zip weights).map fun p => g p.1 := by
        rw [ofPriced, List.map_map]
        exact List.map_congr_left fun p _ => kept _ p.1 p.2
    _ = (((coveringOf priced).zip weights).map Prod.fst).map g := by
        rw [List.map_map]
        rfl
    _ = (coveringOf priced).map g := by rw [List.map_fst_zip each]

theorem map_odds_ofPriced {priced : List (PricedEntry α)} {weights : List α}
    (full : weights.length = priced.length) (union fallback : α) :
    (ofPriced priced weights union fallback).entries.map (·.odds) = priced.map (·.odds) := by
  rw [map_entries_ofPriced (fun _ _ _ => rfl) full, map_odds_coveringOf]

/-- Whether the stake is split by weights, one for each entry, of which some is an integer out of
range. -/
def splitsOutsized (count : Nat) : Option (List (Datum α)) → Bool
  | none => false
  | some weights => weights.length == count && weights.any Datum.isOutsized

theorem splitWeights_eq_ite (count : Nat) (splitting : Option (List (Datum α))) :
    if splitsOutsized count splitting then splitWeights count splitting = .error .integerTooLarge
    else ∃ ws, splitWeights count splitting = .ok ws ∧ ws.length = count := by
  have equal : (equalWeights count : List α).length = count := List.length_replicate
  cases splitting with
  | none => exact ⟨_, rfl, equal⟩
  | some weights =>
    rw [splitsOutsized, splitWeights]
    by_cases number : weights.length = count
    · subst number
      have read : (weights.mapM fun w => do return Scalar.max 0.0 (← w.numberOr 0.0)) =
          if weights.any Datum.isOutsized then .error .integerTooLarge
          else .ok (weights.map fun w => Scalar.max 0.0 (w.readable?.getD 0.0)) := by
        apply mapM_of_same_fault
        intro w _
        rw [Datum.numberOr_eq_ite]
        cases w.isOutsized <;> rfl
      rw [beq_self_eq_true, Bool.true_and, bne_self_eq_false, if_neg Bool.false_ne_true, read]
      cases weights.any Datum.isOutsized with
      | true => rfl
      | false =>
        refine ⟨_, rfl, ?_⟩
        split
        · exact equal
        · rw [List.length_map, List.length_map]
    · rw [beq_eq_false_iff_ne.mpr number, Bool.false_and, if_pos (bne_iff_ne.mpr number)]
      exact ⟨_, rfl, equal⟩

/-- The prices of the entries of a distribution: the usable ones, or one that stands in for them. -/
def pricesOf (entries : List (Datum α)) (fallback : Datum α) : List α :=
  if (PricedEntry.prices entries fallback).isEmpty then
    [Scalar.max Odds.least (fallback.readable?.getD defaultFallback)]
  else PricedEntry.prices entries fallback

/-- Whether one of the values that a distribution is made of is an integer out of range. -/
def readsOutsized (entries : List (Datum α)) (unionProbability fallback : Datum α)
    (splitting : Option (List (Datum α))) : Bool :=
  fallback.isOutsized || entries.any Entry.isOutsized ||
    splitsOutsized (pricesOf entries fallback).length splitting || unionProbability.isOutsized

/-- The entries that a distribution is made of: the usable ones, or one that stands in for them. -/
def priced (entries : List (Datum α)) (fallback : Datum α) : List (PricedEntry α) :=
  if (PricedEntry.usable entries fallback).isEmpty then
    [standIn (Scalar.max Odds.least (fallback.readable?.getD defaultFallback))]
  else PricedEntry.usable entries fallback

theorem map_odds_priced (entries : List (Datum α)) (fallback : Datum α) :
    (priced entries fallback).map (·.odds) = pricesOf entries fallback := by
  rw [pricesOf, ← PricedEntry.map_odds_usable, List.isEmpty_map, priced]
  split
  · rfl
  · rfl

theorem length_priced (entries : List (Datum α)) (fallback : Datum α) :
    (priced entries fallback).length = (pricesOf entries fallback).length := by
  rw [← map_odds_priced, List.length_map]

/-- The probability that some entry hits: the given one, or an estimate. -/
def unionOf (entries : List (Datum α)) (fallback : Datum α) (given : Option α) : α :=
  match given with
  | some p => boundSupplied p
  | none => unionOfOdds ((priced entries fallback).map (·.odds))

/-- What is left of building a distribution once the entries and the fallback are read. -/
theorem build_of_inRange {entries : List (Datum α)} {fallback : Datum α}
    (inRange : fallback.isOutsized = false) (entriesInRange : entries.any Entry.isOutsized = false)
    (unionProbability : Datum α) (splitting : Option (List (Datum α))) :
    build entries unionProbability fallback splitting = do
      let weights ← splitWeights (priced entries fallback).length splitting
      let given ← unionProbability.number?
      return ofPriced (priced entries fallback) weights (unionOf entries fallback given)
        (Scalar.max Odds.least (fallback.readable?.getD defaultFallback)) := by
  rw [build, fallbackPrice, Datum.numberOr_eq_ite, inRange, PricedEntry.list_eq_ite entries inRange,
    entriesInRange]
  rfl

theorem build_of_readsOutsized {entries : List (Datum α)}
    {unionProbability fallback : Datum α} {splitting : Option (List (Datum α))}
    (h : readsOutsized entries unionProbability fallback splitting = true) :
    build entries unionProbability fallback splitting = .error .integerTooLarge := by
  cases inRange : fallback.isOutsized with
  | true =>
    rw [build, fallbackPrice, Datum.numberOr_eq_ite, inRange]
    rfl
  | false =>
    cases outsized : entries.any Entry.isOutsized with
    | true =>
      rw [build, fallbackPrice, Datum.numberOr_eq_ite, inRange,
        PricedEntry.list_eq_ite entries inRange, outsized]
      rfl
    | false =>
      rw [readsOutsized, inRange, outsized, Bool.false_or, Bool.false_or, ← length_priced] at h
      have parts := splitWeights_eq_ite (priced entries fallback).length splitting
      rw [build_of_inRange inRange outsized, Datum.number?_eq_ite]
      cases stops : splitsOutsized (priced entries fallback).length splitting with
      | true =>
        rw [stops, if_pos rfl] at parts
        rw [parts]
        rfl
      | false =>
        rw [stops, if_neg Bool.false_ne_true] at parts
        obtain ⟨weights, split, -⟩ := parts
        rw [stops, Bool.false_or] at h
        rw [split, h]
        rfl

/-- Without an integer out of range a distribution exists, and it is made of the priced entries with
a weight for each of them. -/
theorem build_of_readable {entries : List (Datum α)}
    {unionProbability fallback : Datum α} {splitting : Option (List (Datum α))}
    (h : readsOutsized entries unionProbability fallback splitting = false) :
    ∃ (weights : List α) (union price : α), weights.length = (priced entries fallback).length ∧
      build entries unionProbability fallback splitting =
        .ok (ofPriced (priced entries fallback) weights union price) := by
  simp only [readsOutsized, Bool.or_eq_false_iff, ← length_priced] at h
  obtain ⟨⟨⟨inRange, entriesInRange⟩, stops⟩, given⟩ := h
  have parts := splitWeights_eq_ite (priced entries fallback).length splitting
  rw [stops, if_neg Bool.false_ne_true] at parts
  obtain ⟨weights, split, full⟩ := parts
  refine ⟨weights, unionOf entries fallback unionProbability.readable?,
    Scalar.max Odds.least (fallback.readable?.getD defaultFallback), full, ?_⟩
  rw [build_of_inRange inRange entriesInRange, split, Datum.number?_eq_ite, given]
  rfl

/-- An integer out of range stops a distribution; whatever else its values are, it exists and has
the usable prices. -/
theorem build_eq_ite (entries : List (Datum α)) (unionProbability fallback : Datum α)
    (splitting : Option (List (Datum α))) :
    if readsOutsized entries unionProbability fallback splitting then
      build entries unionProbability fallback splitting = .error .integerTooLarge
    else ∃ d, build entries unionProbability fallback splitting = .ok d ∧
      d.entries.map (·.odds) = pricesOf entries fallback := by
  split
  next outsized => exact build_of_readsOutsized outsized
  next readable =>
    obtain ⟨weights, union, price, full, built⟩ :=
      build_of_readable (Bool.eq_false_iff.mpr readable)
    refine ⟨_, built, ?_⟩
    rw [map_odds_ofPriced full, map_odds_priced]

end MatchDistribution

namespace Kelly

/-- The states that count: those with mass and a profit. -/
def readable (states : List (Datum α)) : List (Prospect α) :=
  states.filterMap fun s =>
    Prospect.keep? (s.field "probability".toList).readable? (s.field "net".toList).readable?

/-- Whether one of the values that a search reads is an integer out of range.  The limit is read
only when some state counts. -/
def readsOutsized (states : List (Datum α)) (limit : Datum α) : Bool :=
  (states.any fun s =>
    (s.field "probability".toList).isOutsized || (s.field "net".toList).isOutsized) ||
  (!(readable states).isEmpty && limit.isOutsized)

theorem optimalFractionOf_eq_ite (states : List (Datum α)) (limit : Datum α) :
    optimalFractionOf states limit =
      if readsOutsized states limit then .error .integerTooLarge
      else .ok (optimalFraction (readable states) limit.readable?) := by
  have read : (states.mapM fun s => do
      let probability ← (s.field "probability".toList).number?
      let net ← (s.field "net".toList).number?
      return Prospect.keep? probability net) =
        if states.any fun s => (s.field "probability".toList).isOutsized ||
          (s.field "net".toList).isOutsized then .error .integerTooLarge
        else .ok (states.map fun s => Prospect.keep? (s.field "probability".toList).readable?
          (s.field "net".toList).readable?) := by
    apply mapM_of_same_fault
    intro s _
    rw [Datum.number?_eq_ite, Datum.number?_eq_ite]
    cases (s.field "probability".toList).isOutsized <;>
      cases (s.field "net".toList).isOutsized <;> rfl
  have kept : (states.map fun s => Prospect.keep? (s.field "probability".toList).readable?
      (s.field "net".toList).readable?).filterMap id = readable states := List.filterMap_map
  rw [optimalFractionOf, read, readsOutsized]
  cases states.any fun s => (s.field "probability".toList).isOutsized ||
      (s.field "net".toList).isOutsized with
  | true => rfl
  | false =>
    change (if (List.filterMap id _).isEmpty then _ else _) = _
    rw [kept, Datum.number?_eq_ite]
    cases none : (readable states).isEmpty with
    | true =>
      rw [optimalFraction, none]
      rfl
    | false => cases limit.isOutsized <;> rfl

end Kelly

/-- Neither a distribution nor a Kelly search is stopped by anything but an integer out of range.  A
distribution has the usable prices of its entries, which are their odds or the fallback; a search
goes by the states that have mass and a profit. -/
theorem outsized_alone_stops (entries : List (Datum α))
    (unionProbability fallback : Datum α) (splitting : Option (List (Datum α)))
    (states : List (Datum α)) (limit : Datum α) :
    (if MatchDistribution.readsOutsized entries unionProbability fallback splitting then
      MatchDistribution.build entries unionProbability fallback splitting = .error .integerTooLarge
    else ∃ d, MatchDistribution.build entries unionProbability fallback splitting = .ok d ∧
      d.entries.map (·.odds) = MatchDistribution.pricesOf entries fallback) ∧
    Kelly.optimalFractionOf states limit =
      if Kelly.readsOutsized states limit then .error .integerTooLarge
      else .ok (Kelly.optimalFraction (Kelly.readable states) limit.readable?) :=
  ⟨MatchDistribution.build_eq_ite entries unionProbability fallback splitting,
    Kelly.optimalFractionOf_eq_ite states limit⟩

def vast : Int := 10 ^ 200 * 10 ^ 200

theorem isOutsized_vast : (Datum.int vast : Datum Float).isOutsized = true := by
  decide +kernel

def vastState : Datum Float :=
  .object [("probability".toList, .real 1.0), ("net".toList, .int vast)]

theorem stopped_by_vast :
    MatchDistribution.build (α := Float) [Datum.bet "主胜" vast] .null .null none =
      .error .integerTooLarge ∧
    Kelly.optimalFractionOf [vastState] .null = .error .integerTooLarge := by
  have price : Entry.isOutsized (Datum.bet "主胜" vast : Datum Float) = true := isOutsized_vast
  have profit : (vastState.field "net".toList).isOutsized = true := isOutsized_vast
  have states : Kelly.readsOutsized [vastState] .null = true := by
    rw [Kelly.readsOutsized, List.any_cons, profit, Bool.or_true, Bool.true_or, Bool.true_or]
  constructor
  · apply MatchDistribution.build_of_readsOutsized
    simp [MatchDistribution.readsOutsized, price]
  · rw [Kelly.optimalFractionOf_eq_ite, if_pos states]

end Wager
