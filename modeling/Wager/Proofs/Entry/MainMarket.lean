import Wager.Proofs.Outsized
import Wager.Proofs.Scalar.Rational

/-!
# The main market of a match

The main market is the one that most named entries belong to, and of several such markets the one
with the lowest rank.  It is a matter of how often each market occurs, so the order of the entries
decides nothing but the key.
-/

namespace Wager

theorem Market.rank_injective : Function.Injective Market.rank := by
  intro a b same
  cases a <;> cases b <;> first | rfl | cases same

namespace MainMarket

section

variable {α : Type}

theorem count_eq (entries : List (Entry α)) (m : Market) :
    count entries m = (entries.map (·.semantic)).countP (·.market == m) := by
  rw [List.countP_map]
  rfl

theorem precedes_iff (entries : List (Entry α)) (a b : Market) : precedes entries a b = true ↔
    count entries b < count entries a ∨ count entries a = count entries b ∧ a.rank < b.rank := by
  simp [precedes]

theorem not_precedes_trans {entries : List (Entry α)} {a b c : Market}
    (hab : ¬precedes entries a b = true) (hbc : ¬precedes entries b c = true) :
    ¬precedes entries a c = true := by
  rw [precedes_iff] at hab hbc ⊢
  omega

theorem not_precedes_of_precedes {entries : List (Entry α)} {a b : Market}
    (h : precedes entries a b = true) : ¬precedes entries b a = true := by
  rw [precedes_iff] at h ⊢
  omega

/-- The better of two markets; the first one unless the second precedes it. -/
def better (entries : List (Entry α)) (best m : Market) : Market :=
  if precedes entries m best then m else best

theorem better_cases (entries : List (Entry α)) (best m : Market) :
    (better entries best m = best ∨ better entries best m = m) ∧
      ¬precedes entries best (better entries best m) = true ∧
      ¬precedes entries m (better entries best m) = true := by
  have irrefl (x : Market) : ¬precedes entries x x = true := by
    rw [precedes_iff]
    omega
  unfold better
  split
  next h => exact ⟨.inr rfl, not_precedes_of_precedes h, irrefl m⟩
  next h => exact ⟨.inl rfl, irrefl best, h⟩

theorem foldl_better (entries : List (Entry α)) (markets : List Market) (best : Market) :
    markets.foldl (better entries) best ∈ best :: markets ∧
      ∀ m ∈ best :: markets, ¬precedes entries m (markets.foldl (better entries) best) = true := by
  induction markets generalizing best with
  | nil =>
    obtain ⟨-, self, -⟩ := better_cases entries best best
    rw [better, ite_self] at self
    exact ⟨List.mem_singleton_self best, fun m hm => List.mem_singleton.mp hm ▸ self⟩
  | cons next markets ih =>
    obtain ⟨one, not_best, not_next⟩ := better_cases entries best next
    obtain ⟨found, least⟩ := ih (better entries best next)
    rw [List.foldl_cons]
    have behind := least _ List.mem_cons_self
    constructor
    · rcases List.mem_cons.mp found with same | later
      · rw [same]
        rcases one with h | h <;> simp [h]
      · exact List.mem_cons_of_mem _ (List.mem_cons_of_mem _ later)
    · intro m hm
      rcases List.mem_cons.mp hm with rfl | hm
      · exact not_precedes_trans not_best behind
      rcases List.mem_cons.mp hm with rfl | hm
      · exact not_precedes_trans not_next behind
      · exact least m (List.mem_cons_of_mem _ hm)

end

end MainMarket

variable {α : Type} [Scalar α]

namespace MainMarket

/-- A market and a key are those of the main market of some readings: no market has more of them, of
those with as many none has a lower rank, and the key is that of the first reading in it. -/
structure IsMain (readings : List (Semantic α)) (main : MainMarket) : Prop where
  most : ∀ m, readings.countP (·.market == m) ≤ readings.countP (·.market == main.market)
  lowest : ∀ m, readings.countP (·.market == m) = readings.countP (·.market == main.market) →
    main.market.rank ≤ m.rank
  key : (readings.find? (·.market == main.market)).map (·.key) = some main.key

theorem IsMain.market_eq {a b : List (Semantic α)} {x y : MainMarket} (hx : x.IsMain a)
    (hy : y.IsMain b) (perm : a.Perm b) : x.market = y.market := by
  have counts (m : Market) : a.countP (·.market == m) = b.countP (·.market == m) :=
    perm.countP_eq _
  have as_many : b.countP (·.market == x.market) = b.countP (·.market == y.market) :=
    (hy.most x.market).antisymm (counts x.market ▸ counts y.market ▸ hx.most y.market)
  have upper := hx.lowest y.market (by rw [counts, counts, as_many])
  have lower := hy.lowest x.market as_many
  exact Market.rank_injective (upper.antisymm lower)

theorem market_ofEntries_cons (first : Entry α) (rest : List (Entry α)) :
    (ofEntries (first :: rest)).market =
      (rest.map (·.semantic.market)).foldl (better (first :: rest)) first.semantic.market := by
  rw [List.foldl_map]
  rfl

theorem market_ofEntries {entries : List (Entry α)} (nonempty : entries ≠ []) :
    (ofEntries entries).market ∈ entries.map (·.semantic.market) ∧
      ∀ m ∈ entries.map (·.semantic.market),
        ¬precedes entries m (ofEntries entries).market = true := by
  cases entries with
  | nil => exact absurd rfl nonempty
  | cons first rest =>
    rw [market_ofEntries_cons]
    exact foldl_better (first :: rest) (rest.map (·.semantic.market)) first.semantic.market

theorem key_ofEntries {entries : List (Entry α)} (nonempty : entries ≠ []) :
    (ofEntries entries).key = ((entries.find? fun e =>
      e.semantic.market == (ofEntries entries).market).map (·.semantic.key)).getD [] := by
  cases entries with
  | nil => exact absurd rfl nonempty
  | cons first rest => rfl

theorem isMain_ofEntries {entries : List (Entry α)} (nonempty : entries ≠ []) :
    (ofEntries entries).IsMain (entries.map (·.semantic)) := by
  obtain ⟨found, least⟩ := market_ofEntries nonempty
  obtain ⟨e, he, here⟩ := List.mem_map.mp found
  have some_count : 0 < count entries (ofEntries entries).market := by
    rw [count, List.countP_pos_iff]
    exact ⟨e, he, by rw [here, beq_self_eq_true]⟩
  -- A market that occurs is compared with the best one; any other has no entry.
  have compared (m : Market) : count entries m < count entries (ofEntries entries).market ∨
      count entries m = count entries (ofEntries entries).market ∧
        (ofEntries entries).market.rank ≤ m.rank := by
    rcases Nat.eq_zero_or_pos (count entries m) with none | some_entry
    · exact .inl (none ▸ some_count)
    · obtain ⟨x, hx, there⟩ := List.countP_pos_iff.mp some_entry
      have not_before := least m (List.mem_map.mpr ⟨x, hx, beq_iff_eq.mp there⟩)
      rw [precedes_iff] at not_before
      omega
  refine ⟨fun m => ?_, fun m same => ?_, ?_⟩
  · rw [← count_eq, ← count_eq]
    exact (compared m).elim le_of_lt fun h => h.1.le
  · rw [← count_eq, ← count_eq] at same
    exact (compared m).elim (fun h => absurd same h.ne) fun h => h.2
  · rw [key_ofEntries nonempty, List.find?_map, Option.map_map]
    obtain ⟨x, hx⟩ := Option.isSome_iff_exists.mp
      (List.find?_isSome.mpr ⟨e, he, beq_iff_eq.mpr here⟩ :
        (entries.find? fun e => e.semantic.market == (ofEntries entries).market).isSome)
    change Option.map _ (entries.find? fun e => e.semantic.market == _) = _
    rw [hx]
    rfl

end MainMarket

namespace Entry

def readings (entries : List (Datum α)) : List (Semantic α) :=
  (entries.map fun e => Semantic.ofText (fields e).1).filter (!·.name.isEmpty)

theorem readings_perm {a b : List (Datum α)} (perm : a.Perm b) :
    (readings a).Perm (readings b) := (perm.map _).filter _

/-- Some entries are stopped by odds out of range alone; otherwise they mean what their named ones
mean. -/
theorem list_eq_ite {entries : List (Datum α)} (nonempty : entries ≠ []) (text : Text) :
    ∃ read : List (Entry α), read.map (·.semantic) = readings entries ∧
      list entries text .null =
        if entries.any isOutsized then .error .integerTooLarge else .ok read := by
  have inRange : (.null : Datum α).isOutsized = false := rfl
  have each := mapM_of_same_fault (l := entries) fun e _ => ofDatum_eq_ite inRange e
  refine ⟨(entries.map fun e => ⟨Semantic.ofText (fields e).1, price? .null e⟩).filter
    (!·.name.isEmpty), ?_, ?_⟩
  · rw [readings, List.filter_map, List.filter_map, List.map_map]
    rfl
  · rw [list, List.isEmpty_eq_false_iff.mpr nonempty]
    change (entries.mapM (ofDatum · .null) >>= fun read => pure _) = _
    rw [each]
    split <;> rfl

end Entry

namespace MainMarket

theorem ofEntries_list_of_outsized {entries : List (Datum α)}
    (outsized : entries.any Entry.isOutsized = true) (text : Text) :
    (Entry.list entries text .null).map ofEntries = .error .integerTooLarge := by
  have nonempty : entries ≠ [] := by
    rintro rfl
    cases outsized
  obtain ⟨read, -, listed⟩ := Entry.list_eq_ite nonempty text
  rw [listed, if_pos outsized]
  rfl

theorem exists_ofEntries_list {entries : List (Datum α)}
    (inRange : ¬entries.any Entry.isOutsized = true) (named : Entry.readings entries ≠ [])
    (text : Text) : ∃ main, (Entry.list entries text .null).map ofEntries = .ok main ∧
      main.IsMain (Entry.readings entries) := by
  have nonempty : entries ≠ [] := by
    rintro rfl
    exact named rfl
  obtain ⟨read, means, listed⟩ := Entry.list_eq_ite nonempty text
  rw [listed, if_neg inRange]
  refine ⟨_, rfl, ?_⟩
  rw [← means]
  apply isMain_ofEntries
  rintro rfl
  exact named means.symm

/-- Entries of which some have a name have a main market, unless odds out of range stop them; in any
other order they have the same one. -/
theorem isMain_ofEntries_list (entries : List (Datum α)) (text : Text)
    (named : Entry.readings entries ≠ []) :
    if entries.any Entry.isOutsized then
      (Entry.list entries text .null).map ofEntries = .error .integerTooLarge
    else ∃ main, (Entry.list entries text .null).map ofEntries = .ok main ∧
      main.IsMain (Entry.readings entries) ∧
      ∀ others, entries.Perm others → ∃ same,
        (Entry.list others text .null).map ofEntries = .ok same ∧ same.market = main.market ∧
          same.market.label = main.market.label := by
  split
  next outsized => exact ofEntries_list_of_outsized outsized text
  next inRange =>
    obtain ⟨main, found, is_main⟩ := exists_ofEntries_list inRange named text
    refine ⟨main, found, is_main, fun others perm => ?_⟩
    have named_too : Entry.readings others ≠ [] := fun none =>
      named ((none ▸ Entry.readings_perm perm).eq_nil)
    obtain ⟨same, found_too, is_main_too⟩ :=
      exists_ofEntries_list (perm.any_eq ▸ inRange) named_too text
    have market := (is_main.market_eq is_main_too (Entry.readings_perm perm)).symm
    exact ⟨same, found_too, market, congrArg Market.label market⟩

/-- Two results and two scores, an entry without a name and one with a price. -/
def mixedEntries : List (Datum ℚ) :=
  [.text "主胜".toList, .text "2-1".toList, .text "  ".toList,
    .object [("name".toList, .text "平".toList), ("odds".toList, .text "3.1".toList)],
    .text "0:0".toList]

theorem isMain_ofEntries_list_mixedEntries : Entry.readings mixedEntries ≠ [] ∧
    ∃ main, (Entry.list mixedEntries [] .null).map ofEntries = .ok main ∧
      main.IsMain (Entry.readings mixedEntries) ∧ main = ⟨.score, "2-1".toList⟩ ∧
      ∃ same, (Entry.list mixedEntries.reverse [] .null).map ofEntries = .ok same ∧
        same.market = .score ∧ same.key = "0-0".toList := by
  have named : Entry.readings mixedEntries ≠ [] := by decide
  have inRange : ¬mixedEntries.any Entry.isOutsized = true := by decide
  have read : (Entry.list mixedEntries [] .null).map ofEntries = .ok ⟨.score, "2-1".toList⟩ ∧
      (Entry.list mixedEntries.reverse [] .null).map ofEntries = .ok ⟨.score, "0-0".toList⟩ := by
    decide
  have claim := isMain_ofEntries_list mixedEntries [] named
  rw [if_neg inRange] at claim
  obtain ⟨main, found, is_main, any_order⟩ := claim
  obtain ⟨same, found_too, market, -⟩ := any_order _ mixedEntries.reverse_perm.symm
  rw [read.1] at found
  rw [read.2] at found_too
  cases found
  cases found_too
  exact ⟨named, _, read.1, is_main, rfl, _, read.2, market, rfl⟩

/-- A named entry is no assurance of a main market: one with vast odds has none. -/
theorem exists_named_stopped : ∃ entries : List (Datum Float), Entry.readings entries ≠ [] ∧
    (Entry.list entries [] .null).map ofEntries = .error .integerTooLarge := by
  refine ⟨[Datum.bet "主胜" vast], by decide, ofEntries_list_of_outsized ?_ []⟩
  rw [List.any_cons, Bool.or_eq_true]
  exact .inl isOutsized_vast

end MainMarket

end Wager
