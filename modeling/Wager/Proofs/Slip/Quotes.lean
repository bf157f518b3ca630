import Wager.Proofs.Slip.Prices

/-!
# Prices behind one keyword

A number that is no price is dropped before the prices are counted and spread.  So the prices behind
one keyword stand with their own matches where all numbers are prices, and move forward into the
gaps where some are not.
-/

namespace Wager

open Text

theorem map_toList_range {β : Type} (l : List β) :
    (List.range l.length).map (fun i => l[i]?.toList) = l.map fun x => [x] := by
  apply List.ext_getElem
  · simp
  · intro i _ inside
    have bound : i < l.length := by simpa using inside
    simp [bound]

namespace Extraction

/-- The numbers at each odds keyword of a normalized slip, as typed. -/
def typedPrices (t : Text) : List (List Text) :=
  let (_, t) := takeRemark t
  let (_, t) := takeMode t
  let (_, t) := takeSided "fse".toList Keyword.numbers? t
  let (_, t) := (Keyword.numbersAfter fseWord).sweep t
  let (_, t) := takeSided "tys".toList Keyword.endingCode? t
  let (_, t) := Keyword.codesAfter.sweep t
  let (_, t) := takeNumbers confLead confTrail t
  (takeNumbers oddsLead oddsTrail t).1

variable {α : Type} [Scalar α]

def price? (typed : Text) : Option α := (Scalar.ofText? typed).filter fun x => 1.0 < x

theorem oddsGroups_ofText (t : Text) : (ofText t : Extraction α).params.oddsGroups =
    ((typedPrices t).map prices).filter (!·.isEmpty) := by
  simp only [ofText, typedPrices]

theorem oddsGroups_of_one_keyword {t : Text} {typed : List Text} (one : typedPrices t = [typed]) :
    (ofText t : Extraction α).params.oddsGroups.length ≤ 1 ∧
      (ofText t : Extraction α).params.odds = prices typed := by
  rw [← flatten_oddsGroups, oddsGroups_ofText, one, List.map_singleton]
  cases kept : (prices typed : List α) <;> simp

theorem map_some_prices {typed : List Text}
    (all : ∀ w ∈ typed, (price? w : Option α).isSome = true) :
    (prices typed : List α).map some = typed.map price? := by
  have kept : (typed.map (price? : Text → Option α)).filter (·.isSome) = typed.map price? :=
    List.filter_eq_self.mpr (by simpa using all)
  exact List.map_filterMap_some_eq_filter_map_isSome.trans kept

theorem length_prices {typed : List Text}
    (all : ∀ w ∈ typed, (price? w : Option α).isSome = true) :
    (prices typed : List α).length = typed.length := by
  simpa using congrArg List.length (map_some_prices all)

theorem map_toList_prices {typed : List Text}
    (all : ∀ w ∈ typed, (price? w : Option α).isSome = true) :
    (List.range typed.length).map (fun i => (prices typed : List α)[i]?.toList) =
      typed.map fun w => (price? w : Option α).toList :=
  calc (List.range typed.length).map (fun i => (prices typed : List α)[i]?.toList)
      = (prices typed : List α).map fun x => [x] := by rw [← length_prices all, map_toList_range]
    _ = ((prices typed : List α).map some).map Option.toList := by
        rw [List.map_map]
        rfl
    _ = typed.map fun w => (price? w : Option α).toList := by
        rw [map_some_prices all, List.map_map]
        rfl

end Extraction

namespace OddsRule

/-- Where prices are not handed out by group, one goes to all matches, and each of any other number
to the match in its own place. -/
theorem spread_of_ungrouped {β : Type} {groups : List (List β)} {values : List β} {games : Nat}
    (ungrouped : groups.length ≠ games) (several : games ≠ 1) :
    (select groups.length values.length games).spread groups values games =
      (List.range games).map fun i =>
        if values.length = 1 then values else values[i]?.toList := by
  by_cases single : values.length = 1
  · have rule : select groups.length values.length games = .broadcast := by
      simp [select, single, ungrouped]
    rw [rule, spread, List.take_of_length_le single.le]
    simp [single]
  · simp only [if_neg single]
    by_cases nothing : values = []
    · have rule : select groups.length values.length games = .none := by simp [select, nothing]
      rw [rule, spread, nothing]
      simp
    -- The rules that remain, `positional` and `overlap`, spread in the same way.
    · have filled : values.length ≠ 0 := by simpa using nothing
      unfold select
      simp only [if_neg filled, if_neg ungrouped, if_neg single, if_neg several]
      split <;> rfl

end OddsRule

namespace Parse

section

variable {α : Type} [Scalar α] [SimilarNames]

theorem map_prices_of_single {t : Text} {dictionary : List TeamAlias} {directory : List (Team α)}
    {config : Config α} :
    let params := (Extraction.ofText (normalize t) : Extraction α).params
    let p := ofText t dictionary directory config
    (∀ prices ∈ Assignment.handed params p.drafts.length, prices.length ≤ 1) →
      p.drafts.map Draft.prices = Assignment.handed params p.drafts.length := by
  intro params p single
  rw [← p.map_snd_served params] at single ⊢
  conv_lhs => rw [← p.map_fst_served params]
  rw [List.map_map]
  apply List.map_congr_left
  intro g hg
  have few : g.2.length ≤ g.1.room :=
    (single g.2 (List.mem_map_of_mem hg)).trans (le_max_left 1 g.1.entries.length)
  exact (prices_of_mem_served_ofText hg).trans (List.take_of_length_le few)

/-- The prices handed to the matches where one keyword has a number for each of them: those that
remain when the numbers that are no prices are dropped, each to the match in its own place, or to
all matches if only one remains.  The drafts carry them, and no price is out of place where none was
dropped. -/
theorem handed_of_one_keyword {t : Text} {dictionary : List TeamAlias} {directory : List (Team α)}
    {config : Config α} {typed : List Text} (one : Extraction.typedPrices (normalize t) = [typed])
    (several : 2 ≤ typed.length)
    (games : (ofText t dictionary directory config).drafts.length = typed.length) :
    let params := (Extraction.ofText (normalize t) : Extraction α).params
    let p := ofText t dictionary directory config
    let kept : List α := Extraction.prices typed
    Assignment.handed params p.drafts.length = ((List.range typed.length).map fun i =>
        if kept.length = 1 then kept else kept[i]?.toList) ∧
      p.drafts.map Draft.prices = Assignment.handed params p.drafts.length ∧
      ((∀ w ∈ typed, (Extraction.price? w : Option α).isSome = true) →
        Assignment.handed params p.drafts.length =
          typed.map fun w => (Extraction.price? w).toList) := by
  intro params p kept
  obtain ⟨ungrouped, odds⟩ : params.oddsGroups.length ≤ 1 ∧ params.odds = kept :=
    Extraction.oddsGroups_of_one_keyword one
  have games : p.drafts.length = typed.length := games
  have handed : Assignment.handed params p.drafts.length = ((List.range typed.length).map fun i =>
      if kept.length = 1 then kept else kept[i]?.toList) := by
    rw [games, Assignment.handed_eq, OddsRule.spread_of_ungrouped (by omega) (by omega), odds]
  refine ⟨handed, map_prices_of_single ?_, fun all => ?_⟩
  · rw [handed]
    intro prices hp
    obtain ⟨i, -, rfl⟩ := List.mem_map.mp hp
    split
    next single => exact single.le
    next => exact Option.length_toList_le
  · have many : kept.length ≠ 1 := by
      rw [Extraction.length_prices all]
      omega
    simp only [handed, if_neg many]
    exact Extraction.map_toList_prices all

end

def spurs : TeamAlias := ⟨['热', '刺'], ['热', '刺'], "tottenham".toList, ['热', '刺']⟩

def twoGameSlip : Text := "狼队vs热刺 热刺vs狼队@0.5 3".toList

theorem handed_twoGameSlip :
    let p : Parse ℚ := ofText twoGameSlip [wolves, spurs] [] Config.standard
    p.drafts.length = 2 ∧ p.drafts.map Draft.prices = [[3], [3]] := by
  intro p
  have read : Extraction.typedPrices (normalize twoGameSlip) = [["0.5".toList, "3".toList]] ∧
      p.drafts.length = 2 ∧ (Extraction.prices ["0.5".toList, "3".toList] : List ℚ) = [3] := by
    decide +kernel
  obtain ⟨typed, games, kept⟩ := read
  obtain ⟨handed, carried, -⟩ := handed_of_one_keyword typed le_rfl games
  refine ⟨games, ?_⟩
  rw [carried, handed, kept]
  rfl

def threeGameSlip : Text := "狼队vs热刺 热刺vs狼队 狼队vs热刺@0.5 2 3".toList

/-- Not every price goes to the match in the place where it was typed. -/
theorem exists_price_moved : ¬∀ (t : Text) (dictionary : List TeamAlias) (typed : List Text),
    Extraction.typedPrices (normalize t) = [typed] → 2 ≤ typed.length →
      (ofText t dictionary [] (Config.standard : Config ℚ)).drafts.length = typed.length →
        Assignment.handed (Extraction.ofText (normalize t) : Extraction ℚ).params typed.length =
          typed.map fun w => (Extraction.price? w).toList := by
  intro all
  have read :
      Extraction.typedPrices (normalize threeGameSlip) = [["0.5".toList, "2".toList, "3".toList]] ∧
      (ofText threeGameSlip [wolves, spurs] [] (Config.standard : Config ℚ)).drafts.length = 3 ∧
      Assignment.handed (Extraction.ofText (normalize threeGameSlip) : Extraction ℚ).params 3 ≠
        ["0.5".toList, "2".toList, "3".toList].map fun w => (Extraction.price? w).toList := by
    decide +kernel
  obtain ⟨typed, games, moved⟩ := read
  exact moved (all threeGameSlip [wolves, spurs] _ typed (by decide) games)

end Parse

end Wager
