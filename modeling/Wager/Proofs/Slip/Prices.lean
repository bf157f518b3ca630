import Wager.Proofs.Scalar.Rational
import Wager.Proofs.Slip.Storage

/-!
# Where the prices of a slip go

The assignment hands all prices of a slip to its matches or notes that it could not.  A draft takes
as many of the prices that its match was handed as it has entries, and one when it has none; prices
beyond these go nowhere.
-/

namespace Wager

open Text

section

variable {β : Type}

theorem filterMap_zipIdx_getElem? {γ : Type} (values : List β) (l : List γ) (k : Nat) :
    (l.zipIdx k).filterMap (fun x => values[x.2]?) = (values.drop k).take l.length := by
  induction l generalizing k with
  | nil => rfl
  | cons a l ih =>
    rw [List.zipIdx_cons, List.filterMap_cons, ih, List.length_cons]
    -- The first entry takes the value at `k`, unless the values end in front of it.
    cases at_k : values[k]? with
    | none =>
      have behind := List.getElem?_eq_none_iff.mp at_k
      rw [List.drop_eq_nil_of_le behind, List.drop_eq_nil_of_le (by omega)]
      simp
    | some x =>
      obtain ⟨inside, rfl⟩ := List.getElem?_eq_some_iff.mp at_k
      rw [List.drop_eq_getElem_cons inside, List.take_succ_cons]

theorem map_getD_range (l : List β) (standIn : β) :
    (List.range l.length).map (fun i => l[i]?.getD standIn) = l := by
  apply List.ext_getElem
  · simp
  · intro i _ inside
    simp [inside]

theorem zip_zipWith_map {γ δ ε : Type} (f : γ → β → δ) (g : β → ε) (l : List γ) (m : List β) :
    (List.zipWith f l m).zip (m.map g) = List.zipWith (fun a b => (f a b, g b)) l m := by
  induction l generalizing m with
  | nil => rfl
  | cons a l ih =>
    cases m with
    | nil => rfl
    | cons b m => simp [ih m]

namespace OddsRule

def Applies (groups values games : Nat) : OddsRule → Prop
  | .none => values = 0
  | .perGroup => groups = games
  | .broadcast => values = 1
  | .positional => values = games
  | .singleMatch => games = 1
  | .overlap => True

theorem applies_select (groups values games : Nat) :
    (select groups values games).Applies groups values games := by
  unfold select
  split_ifs <;> simp_all [Applies]

theorem exists_mem_spread {rule : OddsRule} {groups : List (List β)} {values : List β} {games : Nat}
    (applies : rule.Applies groups.length values.length games) (grouped : groups.flatten = values)
    (some_game : 0 < games) {x : β} (hx : x ∈ values) :
    rule = .overlap ∨ ∃ prices ∈ rule.spread groups values games, x ∈ prices := by
  have every : values ∈ List.replicate games values :=
    List.mem_replicate.mpr ⟨some_game.ne', rfl⟩
  cases rule with
  | none =>
    have nothing : values = [] := List.length_eq_zero_iff.mp applies
    rw [nothing] at hx
    cases hx
  | perGroup =>
    obtain ⟨g, hg, hx⟩ := List.mem_flatten.mp (grouped ▸ hx)
    obtain ⟨i, inside, rfl⟩ := List.getElem_of_mem hg
    refine .inr ⟨groups[i], List.mem_map.mpr ⟨i, ?_, by simp [inside]⟩, hx⟩
    exact List.mem_range.mpr (applies ▸ inside)
  | broadcast =>
    have all : values.take 1 = values := List.take_of_length_le (Nat.le_of_eq applies)
    exact .inr ⟨values, by rwa [spread, all], hx⟩
  | positional =>
    obtain ⟨i, inside, rfl⟩ := List.getElem_of_mem hx
    refine .inr ⟨[values[i]], List.mem_map.mpr ⟨i, ?_, by simp [inside]⟩, by simp⟩
    exact List.mem_range.mpr (applies ▸ inside)
  | singleMatch => exact .inr ⟨values, every, hx⟩
  | overlap => exact .inl rfl

end OddsRule

end

namespace Draft

variable {α : Type}

/-- The prices of a draft: those of its entries and the one that stands for the match. -/
def prices (d : Draft α) : List α := d.entries.filterMap (·.odds) ++ d.fallbackOdds.toList

/-- How many prices a draft has a place for: one for each entry, or one for the match. -/
def room (d : Draft α) : Nat := max 1 d.entries.length

theorem room_ofMatch (config : Config α) (note : Text) (m : Fixture α) (p : FixtureValues α) :
    (ofMatch config note m p).room = max 1 m.entries.length := by
  simp [room, ofMatch, price]

theorem prices_ofMatch (config : Config α) (note : Text) (m : Fixture α) (p : FixtureValues α) :
    (ofMatch config note m p).prices = p.odds.take (ofMatch config note m p).room := by
  have taken : (price m.entries p.odds).1.filterMap (·.odds) = p.odds.take m.entries.length := by
    rw [price, List.filterMap_map]
    exact filterMap_zipIdx_getElem? p.odds m.entries 0
  rw [room_ofMatch]
  change (price m.entries p.odds).1.filterMap (·.odds) ++ (price m.entries p.odds).2.toList = _
  rw [taken]
  cases entries : m.entries with
  | nil => cases h : p.odds <;> simp [price]
  | cons s rest => simp [price]

end Draft

namespace Assignment

variable {α : Type}

def handed (p : Parameters α) (games : Nat) : List (List α) := (valuesFor p games).map (·.odds)

theorem handed_eq (p : Parameters α) (games : Nat) : handed p games =
    (OddsRule.select p.oddsGroups.length p.odds.length games).spread p.oddsGroups p.odds games := by
  rw [handed, valuesFor, List.map_map]
  conv_rhs => rw [← map_getD_range (OddsRule.spread ..) [], OddsRule.length_spread]
  rfl

@[simp] theorem length_handed (p : Parameters α) (games : Nat) :
    (handed p games).length = games := by
  simp [handed]

theorem games_ofParameters {p : Parameters α} {games : Nat} (some_game : 0 < games) :
    (ofParameters p games).games = valuesFor p games := by
  rw [ofParameters, if_neg some_game.ne']

end Assignment

theorem Extraction.flatten_oddsGroups {α : Type} [Scalar α] (t : Text) :
    (Extraction.ofText t : Extraction α).params.oddsGroups.flatten =
      (Extraction.ofText t : Extraction α).params.odds := by
  unfold Extraction.ofText
  iterate 9 split
  rfl

namespace Parse

variable {α : Type}

/-- The drafts of a parse, each with the prices that its match was handed. -/
def served (p : Parse α) (params : Parameters α) : List (Draft α × List α) :=
  p.drafts.zip (Assignment.handed params p.drafts.length)

theorem map_fst_served (p : Parse α) (params : Parameters α) :
    (p.served params).map Prod.fst = p.drafts :=
  List.map_fst_zip (by simp)

theorem map_snd_served (p : Parse α) (params : Parameters α) :
    (p.served params).map Prod.snd = Assignment.handed params p.drafts.length :=
  List.map_snd_zip (by simp)

section

variable (config : Config α) (e : Extraction α) {found : List (Fixture α)} (some_match : found ≠ [])

include some_match

theorem served_ofMatches : (ofMatches config e found).served e.params =
    List.zipWith (fun m v => (Draft.ofMatch config e.params.remark m v, v.odds)) found
      (Assignment.valuesFor e.params found.length) := by
  rw [served, length_drafts_ofMatches, drafts_ofMatches,
    Assignment.games_ofParameters (List.length_pos_of_ne_nil some_match), Assignment.handed,
    zip_zipWith_map]

theorem mem_diagnostics_of_overlap (rule : OddsRule.select e.params.oddsGroups.length
      e.params.odds.length found.length = .overlap) :
    ∃ note, .mismatch note ∈ (ofMatches config e found).diagnostics ∧
      "odds:".toList <+: note.message := by
  have games := (List.length_pos_of_ne_nil some_match).ne'
  let note : MismatchNote := ⟨"odds".toList, e.params.odds.length, found.length, none⟩
  have noted : note ∈ (Assignment.ofParameters e.params found.length).notes := by
    rw [Assignment.ofParameters, if_neg games]
    refine List.mem_append_right _ ?_
    rw [Assignment.oddsNotes, rule]
    exact List.mem_singleton_self _
  refine ⟨note, ?_, _, rfl⟩
  exact List.mem_append_left _ (List.mem_append_right _ (List.mem_map_of_mem noted))

theorem prices_of_mem_served {g : Draft α × List α}
    (hg : g ∈ (ofMatches config e found).served e.params) : g.1.prices = g.2.take g.1.room := by
  rw [served_ofMatches config e some_match, ← List.map_uncurry_zip_eq_zipWith] at hg
  obtain ⟨⟨m, v⟩, -, rfl⟩ := List.mem_map.mp hg
  exact Draft.prices_ofMatch config e.params.remark m v

theorem exists_mem_served (grouped : e.params.oddsGroups.flatten = e.params.odds) {x : α}
    (hx : x ∈ e.params.odds) :
    (∃ note, .mismatch note ∈ (ofMatches config e found).diagnostics ∧
      "odds:".toList <+: note.message) ∨
    ∃ g ∈ (ofMatches config e found).served e.params, x ∈ g.2 := by
  have applies := OddsRule.applies_select e.params.oddsGroups.length e.params.odds.length
    found.length
  rcases OddsRule.exists_mem_spread applies grouped (List.length_pos_of_ne_nil some_match) hx with
    last | ⟨prices, hp, hx⟩
  · exact .inl (mem_diagnostics_of_overlap config e some_match last)
  · right
    rw [← Assignment.handed_eq, ← length_drafts_ofMatches config e found, ← map_snd_served] at hp
    obtain ⟨g, hg, rfl⟩ := List.mem_map.mp hp
    exact ⟨g, hg, hx⟩

end

section

variable [Scalar α] [SimilarNames]

theorem exists_ofMatches {t : Text} {dictionary : List TeamAlias} {directory : List (Team α)}
    {config : Config α} (some_match : (ofText t dictionary directory config).drafts ≠ []) :
    ∃ found, found ≠ [] ∧ ofText t dictionary directory config =
      ofMatches config (Extraction.ofText (normalize t)) found := by
  by_cases nothing : isEmptySlip t = true ∨ Scan.teamNames
      (Extraction.ofText (normalize t) : Extraction α).residual dictionary = []
  · exact absurd (drafts_ofText_of_not_found nothing directory config).1 some_match
  · obtain ⟨content, some_team⟩ := not_or.mp nothing
    have parsed := ofText_of_found (Bool.eq_false_iff.mpr content) rfl some_team directory config
    refine ⟨_, ?_, parsed⟩
    rintro empty
    rw [parsed, empty, drafts_ofMatches] at some_match
    exact some_match rfl

theorem prices_of_mem_served_ofText {t : Text} {dictionary : List TeamAlias}
    {directory : List (Team α)} {config : Config α} {g : Draft α × List α}
    (hg : g ∈ (ofText t dictionary directory config).served
      (Extraction.ofText (normalize t) : Extraction α).params) :
    g.1.prices = g.2.take g.1.room := by
  have some_match := List.ne_nil_of_mem (List.of_mem_zip hg).1
  obtain ⟨found, nonempty, parsed⟩ := exists_ofMatches some_match
  rw [parsed] at hg
  exact prices_of_mem_served config _ nonempty hg

/-- A price that a slip states is with a draft, or a note says that the prices did not fit, or its
match was handed more prices than its draft has a place for and it stands behind these. -/
theorem prices_accounted {t : Text} {dictionary : List TeamAlias} {directory : List (Team α)}
    {config : Config α} (some_match : (ofText t dictionary directory config).drafts ≠ []) :
    let params := (Extraction.ofText (normalize t) : Extraction α).params
    let p := ofText t dictionary directory config
    (∀ g ∈ p.served params, g.1.prices = g.2.take g.1.room) ∧
      ∀ x ∈ params.odds, (∃ d ∈ p.drafts, x ∈ d.prices) ∨
        (∃ note, .mismatch note ∈ p.diagnostics ∧ "odds:".toList <+: note.message) ∨
        ∃ g ∈ p.served params, x ∈ g.2.drop g.1.room := by
  intro params p
  have carried : ∀ g ∈ p.served params, g.1.prices = g.2.take g.1.room :=
    fun g hg => prices_of_mem_served_ofText hg
  refine ⟨carried, fun x hx => ?_⟩
  obtain ⟨found, nonempty, parsed⟩ := exists_ofMatches some_match
  have accounted := exists_mem_served config _ nonempty
    (Extraction.flatten_oddsGroups (normalize t)) hx
  rw [← parsed] at accounted
  rcases accounted with noted | ⟨g, hg, hx⟩
  · exact .inr (.inl noted)
  -- What a match was handed is what its draft takes and what it has no place for.
  · rw [← List.take_append_drop g.1.room g.2, List.mem_append] at hx
    rcases hx with placed | behind
    · refine .inl ⟨g.1, p.map_fst_served params ▸ List.mem_map_of_mem hg, ?_⟩
      rwa [carried g hg]
    · exact .inr (.inr ⟨g, hg, behind⟩)

end

def surplusSlip : Text := "狼队胜@2 3".toList

def surplusParse : Parse ℚ := ofLibrary surplusSlip Config.standard

theorem three_missing : 3 ∈ (Extraction.ofText (normalize surplusSlip) : Extraction ℚ).params.odds ∧
    surplusParse.drafts ≠ [] ∧ (∀ d ∈ surplusParse.drafts, 3 ∉ d.prices) ∧
      ∀ d ∈ surplusParse.diagnostics, ¬"odds:".toList <+: d.message := by
  have read : isEmptySlip surplusSlip = false ∧
      (Extraction.ofText (normalize surplusSlip) : Extraction ℚ).residual = ['狼', '队', '胜'] ∧
      3 ∈ (Extraction.ofText (normalize surplusSlip) : Extraction ℚ).params.odds ∧
      (ofWolves surplusSlip ['胜'] : Parse ℚ).drafts ≠ [] ∧
      (∀ d ∈ (ofWolves surplusSlip ['胜'] : Parse ℚ).drafts, 3 ∉ d.prices) ∧
      ∀ d ∈ (ofWolves surplusSlip ['胜'] : Parse ℚ).diagnostics, ¬"odds:".toList <+: d.message := by
    decide +kernel
  obtain ⟨content, residual, missing⟩ := read
  rwa [← ofLibrary_eq_ofWolves content residual (by decide)] at missing

theorem prices_accounted_surplusSlip : surplusParse.drafts ≠ [] ∧
    ∃ g ∈ surplusParse.served (Extraction.ofText (normalize surplusSlip) : Extraction ℚ).params,
      3 ∈ g.2.drop g.1.room := by
  obtain ⟨stated, some_match, unplaced, unnoted⟩ := three_missing
  refine ⟨some_match, ?_⟩
  rcases (prices_accounted some_match).2 3 stated with ⟨d, hd, placed⟩ | ⟨note, hn, said⟩ | surplus
  · exact absurd placed (unplaced d hd)
  · exact absurd said (unnoted _ hn)
  · exact surplus

/-- Not every price of a slip is with a draft or accounted for in a note. -/
theorem exists_price_lost : ¬∀ x ∈
    (Extraction.ofText (normalize surplusSlip) : Extraction ℚ).params.odds,
      (∃ d ∈ surplusParse.drafts, x ∈ d.prices) ∨
        ∃ d ∈ surplusParse.diagnostics, "odds:".toList <+: d.message := by
  obtain ⟨stated, -, unplaced, unnoted⟩ := three_missing
  intro all
  rcases all 3 stated with ⟨d, hd, placed⟩ | ⟨d, hd, said⟩
  · exact unplaced d hd placed
  · exact unnoted d hd said

end Parse

end Wager
