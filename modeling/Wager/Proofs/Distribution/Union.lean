import Wager.Proofs.Distribution.Match
import Wager.Proofs.Outsized
import Wager.Proofs.Scalar.Rational

/-!
# The chance that some entry hits

Entries are taken for independent bets: none of them hits with the product of the chances that each
one fails.  So only the usable prices count, in any order; one more entry never lowers the estimate,
and a longer price never raises it.  A distribution without a given probability has the estimate of
its entries, and the price that stands for all its entries is read off that distribution.
-/

namespace Wager

variable {α : Type} [ExactScalar α]

namespace Scalar

theorem clamp_mono {a b : α} (h : a ≤ b) (low high : α) : clamp a low high ≤ clamp b low high := by
  rw [clamp_eq, clamp_eq]
  exact sup_le_sup_left (inf_le_inf_left high h) low

theorem clamp_clamp {low low' high high' : α} (hl : low' ≤ low) (hh : high ≤ high') (value : α) :
    clamp (clamp value low' high') low high = clamp value low high := by
  simp only [clamp_eq]
  rw [inf_sup_left, ← inf_assoc, inf_eq_left.mpr hh, ← sup_assoc,
    sup_eq_left.mpr (inf_le_right.trans hl)]

end Scalar

namespace PricedEntry

theorem prices_perm {entries entries' : List (Datum α)} (h : entries.Perm entries')
    (fallback : Datum α) : (prices entries fallback).Perm (prices entries' fallback) :=
  (h.filterMap _).filter _

theorem prices_around {fallback e : Datum α} {odds : α}
    (price : Entry.price? fallback e = some odds) (usable : Odds.isUsable odds = true)
    (front back : List (Datum α)) : prices (front ++ e :: back) fallback =
      prices front fallback ++ odds :: prices back fallback := by
  simp [prices, price, usable]

theorem prices_sublist_insert (front back : List (Datum α)) (e fallback : Datum α) :
    (prices (front ++ back) fallback).Sublist (prices (front ++ e :: back) fallback) := by
  apply List.Sublist.filter
  apply List.Sublist.filterMap
  exact (List.sublist_cons_self e back).append_left front

end PricedEntry

/-- An entry of a distribution as a value of its own: its name and its odds. -/
def EntryShare.datum (e : EntryShare α) : Datum α :=
  .object [("name".toList, .text e.name), ("odds".toList, .real e.odds)]

namespace MatchDistribution

def failure (odds : α) : α := 1 - Scalar.clamp (1 / odds) 0.001 0.97

theorem failure_pos (odds : α) : 0 < failure odds := by
  have bound : Scalar.clamp (1 / odds) (0.001 : α) 0.97 ≤ 0.97 := by
    apply Scalar.clamp_le
    norm_num [ExactScalar.ofScientific_eq]
  have below : (0.97 : α) < 1 := by
    norm_num [ExactScalar.ofScientific_eq]
  exact sub_pos.mpr (bound.trans_lt below)

theorem failure_le_one (odds : α) : failure odds ≤ 1 := by
  have bound : (0.001 : α) ≤ Scalar.clamp (1 / odds) 0.001 0.97 := Scalar.le_clamp _ _ _
  have above : (0 : α) ≤ 0.001 := by
    norm_num [ExactScalar.ofScientific_eq]
  exact sub_le_self 1 (above.trans bound)

theorem failure_mono {odds odds' : α} (pays : 1 < odds) (h : odds ≤ odds') :
    failure odds ≤ failure odds' := by
  apply sub_le_sub_left
  apply Scalar.clamp_mono
  exact one_div_le_one_div_of_le (zero_lt_one.trans pays) h

theorem unionOfOdds_eq (odds : List α) :
    unionOfOdds odds = boundUnion (1 - (odds.map failure).prod) := by
  have fold : odds.foldl (fun miss o => miss * (1.0 - Scalar.clamp (1.0 / o) 0.001 0.97)) 1.0 =
      (odds.map failure).prod := by
    rw [List.prod_eq_foldl, List.foldl_map]
    simp only [failure, Scalar.one_literal]
  rw [unionOfOdds, fold, Scalar.one_literal]

theorem unionOfOdds_perm {odds odds' : List α} (h : odds.Perm odds') :
    unionOfOdds odds = unionOfOdds odds' := by
  rw [unionOfOdds_eq, unionOfOdds_eq, (h.map failure).prod_eq]

theorem unionOfOdds_le {odds odds' : List α}
    (h : (odds'.map failure).prod ≤ (odds.map failure).prod) :
    unionOfOdds odds ≤ unionOfOdds odds' := by
  rw [unionOfOdds_eq, unionOfOdds_eq]
  exact Scalar.clamp_mono (sub_le_sub_left h 1) _ _

theorem prod_failure_pos (odds : List α) : 0 < (odds.map failure).prod := by
  induction odds with
  | nil => simp
  | cons o odds ih => simpa using mul_pos (failure_pos o) ih

theorem prod_failure_le {odds odds' : List α} (h : odds.Sublist odds') :
    (odds'.map failure).prod ≤ (odds.map failure).prod := by
  induction h with
  | slnil => exact le_rfl
  | cons o _ ih =>
    rw [List.map_cons, List.prod_cons]
    exact (mul_le_of_le_one_left (prod_failure_pos _).le (failure_le_one o)).trans ih
  | cons_cons o _ ih =>
    rw [List.map_cons, List.map_cons, List.prod_cons, List.prod_cons]
    exact mul_le_mul_of_nonneg_left ih (failure_pos o).le

theorem unionOfOdds_longer {odds odds' : α} (usable : Odds.isUsable odds = true)
    (h : odds ≤ odds') (front back : List α) :
    unionOfOdds (front ++ odds' :: back) ≤ unionOfOdds (front ++ odds :: back) := by
  apply unionOfOdds_le
  simp only [List.map_append, List.map_cons, List.prod_append, List.prod_cons]
  have fails := failure_mono (Odds.isUsable_iff.mp usable) h
  have later := mul_le_mul_of_nonneg_right fails (prod_failure_pos back).le
  exact mul_le_mul_of_nonneg_left later (prod_failure_pos front).le

theorem unionOfOdds_singleton (odds : α) : unionOfOdds [odds] = boundUnion (1 / odds) := by
  rw [unionOfOdds_eq, List.map_singleton, List.prod_singleton, failure, sub_sub_cancel]
  apply Scalar.clamp_clamp
  · norm_num [ExactScalar.ofScientific_eq]
  · norm_num [ExactScalar.ofScientific_eq]

/-- The estimate is that of the prices a distribution is made of, the stand-in among them. -/
theorem estimateUnion_eq (entries : List (Datum α)) (fallback : Datum α) :
    estimateUnion entries fallback = .ok (unionOfOdds (pricesOf entries fallback)) := by
  have inRange := fallback.isOutsized_eq_false
  rw [estimateUnion, fallbackPrice, Datum.numberOr_eq_ite, inRange,
    PricedEntry.list_eq_ite entries inRange, Entry.any_isOutsized, pricesOf,
    ← PricedEntry.map_odds_usable, List.isEmpty_map]
  change Except.ok _ = Except.ok _
  congr 1
  split
  · rw [unionOfOdds_singleton, Scalar.one_literal]
  · rfl

theorem unionOfOdds_mem (odds : List α) :
    1 / 50 ≤ unionOfOdds odds ∧ unionOfOdds odds ≤ 19 / 20 := by
  have low : (0.02 : α) = 1 / 50 := by
    norm_num [ExactScalar.ofScientific_eq]
  have high : (0.95 : α) = 19 / 20 := by
    norm_num [ExactScalar.ofScientific_eq]
  rw [unionOfOdds, boundUnion, low, high]
  constructor
  · apply Scalar.le_clamp
  · apply Scalar.clamp_le
    norm_num

theorem pricesOf_of_pays {entries : List (Datum α)} {fallback e : Datum α} (he : e ∈ entries)
    (pays : Entry.pays fallback e = true) :
    pricesOf entries fallback = PricedEntry.prices entries fallback := by
  rw [Entry.pays, Option.any_eq_true] at pays
  obtain ⟨odds, price, usable⟩ := pays
  have member : odds ∈ PricedEntry.prices entries fallback :=
    List.mem_filter.mpr ⟨List.mem_filterMap.mpr ⟨e, he, price⟩, usable⟩
  rw [pricesOf, if_neg]
  rw [List.isEmpty_iff]
  exact List.ne_nil_of_mem member

section Estimate

variable {entries : List (Datum α)} {fallback e : Datum α}

theorem estimateUnion_of_pays (he : e ∈ entries) (pays : Entry.pays fallback e = true) :
    estimateUnion entries fallback =
      .ok (unionOfOdds (PricedEntry.prices entries fallback)) := by
  rw [estimateUnion_eq, pricesOf_of_pays he pays]

/-- The estimate in the presence of a usable entry: its bounds, and how it moves when the entries
are put in another order, when one more comes in and when the price of one gets longer. -/
theorem estimateUnion_moves (usable : ∃ e ∈ entries, Entry.pays fallback e = true) :
    ∃ chance, estimateUnion entries fallback = .ok chance ∧
      1 / 50 ≤ chance ∧ chance ≤ 19 / 20 ∧
      (∀ shuffled, shuffled.Perm entries → estimateUnion shuffled fallback = .ok chance) ∧
      (∀ front back inserted, front ++ back = entries →
        ∃ more, estimateUnion (front ++ inserted :: back) fallback = .ok more ∧ chance ≤ more) ∧
      ∀ front back e longer odds odds', front ++ e :: back = entries →
        Entry.price? fallback e = some odds → Odds.isUsable odds = true →
        Entry.price? fallback longer = some odds' → odds ≤ odds' →
        ∃ less, estimateUnion (front ++ longer :: back) fallback = .ok less ∧ less ≤ chance := by
  obtain ⟨e, he, pays⟩ := usable
  refine ⟨_, estimateUnion_of_pays he pays, (unionOfOdds_mem _).1, (unionOfOdds_mem _).2,
    ?shuffle, ?insert, ?lengthen⟩
  case shuffle =>
    intro shuffled perm
    rw [estimateUnion_of_pays (perm.mem_iff.mpr he) pays,
      unionOfOdds_perm (PricedEntry.prices_perm perm fallback)]
  case insert =>
    rintro front back inserted rfl
    have still : e ∈ front ++ inserted :: back :=
      ((List.sublist_cons_self inserted back).append_left front).subset he
    have longer := PricedEntry.prices_sublist_insert front back inserted fallback
    exact ⟨_, estimateUnion_of_pays still pays, unionOfOdds_le (prod_failure_le longer)⟩
  case lengthen =>
    rintro front back e longer odds odds' rfl price usable price' h
    have usable' : Odds.isUsable odds' = true :=
      Odds.isUsable_iff.mpr ((Odds.isUsable_iff.mp usable).trans_le h)
    have pays' : Entry.pays fallback longer = true := by
      rw [Entry.pays, price', Option.any_some, usable']
    refine ⟨_, estimateUnion_of_pays (List.mem_append_right front List.mem_cons_self) pays', ?_⟩
    rw [PricedEntry.prices_around price usable, PricedEntry.prices_around price' usable']
    exact unionOfOdds_longer usable h _ _

theorem estimateUnion_moves_pair :
    (∃ e ∈ [.bet "主胜" 2, .text "平".toList],
      Entry.pays (.int 3 : Datum ℚ) e = true) ∧
    ∃ chance, estimateUnion [.bet "主胜" 2, .text "平".toList] (.int 3 : Datum ℚ) = .ok chance ∧
      1 / 50 ≤ chance ∧ chance ≤ 19 / 20 ∧
      estimateUnion [.text "平".toList, .bet "主胜" 2] (.int 3 : Datum ℚ) = .ok chance ∧
      (∃ more, estimateUnion [.bet "主胜" 2, .bet "2-1" 9, .text "平".toList]
        (.int 3 : Datum ℚ) = .ok more ∧ chance ≤ more) ∧
      ∃ less, estimateUnion [.bet "主胜" 2, .bet "平" 4] (.int 3 : Datum ℚ) = .ok less ∧
        less ≤ chance := by
  have usable (n : Int) (h : 1 < n) : Odds.isUsable (n : ℚ) = true :=
    Odds.isUsable_iff.mpr (by exact_mod_cast h)
  have pays : ∃ e ∈ [.bet "主胜" 2, .text "平".toList], Entry.pays (.int 3 : Datum ℚ) e = true :=
    ⟨_, List.mem_cons_self, usable 2 (by decide)⟩
  obtain ⟨chance, estimated, low, high, shuffle, insert, lengthen⟩ := estimateUnion_moves pays
  refine ⟨pays, chance, estimated, low, high, shuffle _ (List.Perm.swap _ _ _), ?_, ?_⟩
  · exact insert [_] [_] _ rfl
  · exact lengthen [_] [] _ _ 3 4 rfl rfl (usable 3 (by decide)) rfl (by norm_num)

end Estimate

section Unsupplied

theorem price?_datum (e : EntryShare α) (fallback : Datum α) :
    Entry.price? fallback e.datum = some e.odds := by
  change (Scalar.finite? e.odds <|> fallback.readable?) = _
  simp [Scalar.finite?]

theorem estimateUnion_datum {shares : List (EntryShare α)} {entries : List (Datum α)}
    {fallback : Datum α} (priced : shares.map (·.odds) = pricesOf entries fallback) :
    estimateUnion (shares.map EntryShare.datum) fallback =
      .ok (unionOfOdds (pricesOf entries fallback)) := by
  have usable : ∀ e ∈ shares, Odds.isUsable e.odds = true := by
    intro e he
    apply isUsable_of_mem_pricesOf
    rw [← priced]
    exact List.mem_map_of_mem he
  have prices : PricedEntry.prices (shares.map EntryShare.datum) fallback =
      pricesOf entries fallback := by
    rw [PricedEntry.prices, List.filterMap_map, ← priced]
    simp only [Function.comp_def, price?_datum]
    rw [List.filterMap_eq_map', List.filter_eq_self]
    simpa using usable
  rw [estimateUnion_eq, pricesOf, prices, if_neg]
  simpa using pricesOf_ne_nil entries fallback

theorem boundSupplied_unionOfOdds (odds : List α) :
    boundSupplied (unionOfOdds odds) = unionOfOdds odds := by
  obtain ⟨low, high⟩ := unionOfOdds_mem odds
  apply Scalar.clamp_of_mem
  · refine le_trans ?_ low
    norm_num [ExactScalar.ofScientific_eq]
  · refine high.trans ?_
    norm_num [ExactScalar.ofScientific_eq]

theorem fallbackPrice_eq (fallback : Datum α) : fallbackPrice fallback =
    .ok (Scalar.max Odds.least (fallback.value?.getD defaultFallback)) := by
  rw [fallbackPrice, Datum.numberOr_eq]
  rfl

/-- Without a given probability a distribution has the estimate of what was typed, which is also
the estimate of its own entries, and the single price for all entries is its conditional odds. -/
theorem build_estimates (entries : List (Datum α)) (fallback : Datum α) :
    ∃ d, build entries .null fallback none = .ok d ∧
      estimateUnion entries fallback = .ok d.unionProbability ∧
      estimateUnion (d.entries.map EntryShare.datum) fallback = .ok d.unionProbability ∧
      equivalentOdds entries fallback = .ok (Odds.least ⊔ d.statistics.conditionalOdds) := by
  obtain ⟨weights, split, ready, built⟩ := exists_build entries .null fallback none
  obtain ⟨weights', split', -, rebuilt⟩ := exists_build entries
    (.real (unionOfOdds (pricesOf entries fallback))) fallback none
  obtain rfl := Except.ok.inj (split.symm.trans split')
  have estimated : unionOf entries fallback none = unionOfOdds (pricesOf entries fallback) := by
    rw [unionOf, map_odds_priced]
  have supplied : unionOf entries fallback
      (Datum.real (unionOfOdds (pricesOf entries fallback))).readable? =
        unionOfOdds (pricesOf entries fallback) := by
    simp [Datum.readable?, Scalar.finite?, unionOf, boundSupplied_unionOfOdds]
  change build entries .null fallback none = .ok (ofPriced _ _ (unionOf entries fallback none) _)
    at built
  rw [estimated] at built
  rw [supplied] at rebuilt
  refine ⟨_, built, estimateUnion_eq entries fallback, ?reread, ?single⟩
  case reread =>
    have full := ready.length_eq.trans (length_coveringOf _)
    apply estimateUnion_datum
    rw [map_odds_ofPriced full, map_odds_priced]
  case single =>
    rw [equivalentOdds, fallbackPrice_eq, estimateUnion_eq]
    change (build entries (.real _) fallback none >>= fun whole => _) = _
    rw [rebuilt]
    change Except.ok (Scalar.max _ ((Scalar.finite? _).getD _)) = _
    rw [Scalar.finite?, ExactScalar.isFinite_eq, if_pos rfl, Option.getD_some, Scalar.max_eq]

end Unsupplied

end MatchDistribution

end Wager
