import Wager.Entry.Basic
import Wager.Proofs.Slip.Storage

/-!
# Entry texts of stored matches

A stored match lists the names of its entries in one text.  Read back, that text gives the entries
again, except that a half-time/full-time pair with a bar between its halves falls apart at the bar.
-/

namespace Wager

open Text

variable {α : Type} [Scalar α]

namespace Semantic

/-- The entries that the pieces between the bars of a name are on their own. -/
def ofPieces (name : Text) : List (Semantic α) :=
  (((splitWhere (· == '|') name).map trim).map ofText).filter (!·.name.isEmpty)

theorem IsRead.ofPieces_name {s : Semantic α} (h : s.IsRead) (whole : '|' ∉ s.name) :
    ofPieces s.name = [s] := by
  have one : splitWhere (· == '|') s.name = [s.name] := by
    apply splitWhere_of_none
    rintro c hc
    rw [beq_eq_false_iff_ne]
    rintro rfl
    exact whole hc
  have bare : trim s.name = s.name := h.isName.bare.trimWhere_eq
  have filled : (!s.name.isEmpty) = true := by simpa using h.named
  rw [ofPieces, one, List.map_singleton, List.map_singleton, bare, h.ofText_name,
    List.filter_singleton, filled, cond_true]

theorem IsRead.market_of_bar {s : Semantic α} (h : s.IsRead) (bar : '|' ∈ s.name) :
    s.market = .halfFull := by
  rw [market, h.reading_eq]
  exact Reading.market_eq_halfFull_of_bar h.known bar

end Semantic

namespace Entry

theorem mapM_ofDatum_text (pieces : List Text) :
    (pieces.filterMap fun piece => if piece.isEmpty then none else some (.text piece)).mapM
        (ofDatum · (.null : Datum α)) =
      .ok (((pieces.filter (!·.isEmpty)).map Semantic.ofText).map (⟨·, none⟩)) := by
  induction pieces with
  | nil => rfl
  | cons piece pieces ih =>
    cases piece with
    | nil => exact ih
    | cons c piece =>
      have read : ofDatum (.text (c :: piece) : Datum α) .null =
          .ok ⟨Semantic.ofText (c :: piece), none⟩ := rfl
      simp only [List.filterMap_cons, List.isEmpty_cons, Bool.false_eq_true, if_false,
        List.mapM_cons, read, ih]
      rfl

theorem list_text (t : Text) : list [] t (.null : Datum α) =
    .ok (((((splitWhere (fun c => c == '|' || c == ',') (normalizeName t)).map trim).map
      Semantic.ofText).filter (!·.name.isEmpty)).map (⟨·, none⟩)) := by
  rw [list]
  dsimp only [List.isEmpty_nil]
  rw [if_pos rfl, mapM_ofDatum_text]
  generalize (splitWhere _ (normalizeName t)).map trim = pieces
  change Except.ok (List.filter _ (List.map (Entry.mk · none) _)) = _
  rw [List.filter_map, List.filter_map, List.filter_filter, List.filter_map]
  -- A piece without a character has no name either.
  have named : pieces.filter (fun t => !(Semantic.ofText (α := α) t).name.isEmpty && !t.isEmpty) =
      pieces.filter fun t => !(Semantic.ofText (α := α) t).name.isEmpty := by
    apply List.filter_congr
    intro piece _
    cases piece with
    | nil => rfl
    | cons c piece => exact Bool.and_true _
  exact congrArg (fun l => Except.ok ((l.map Semantic.ofText).map (Entry.mk (α := α) · none))) named

theorem list_join {names : List Text} (h : Listable names) :
    list [] (join [',', ' '] names) (.null : Datum α) =
      .ok ((names.flatMap Semantic.ofPieces).map (⟨·, none⟩)) := by
  have free : ∀ n ∈ names, splitWhere (fun c => c == '|' || c == ',') n =
      splitWhere (· == '|') n := by
    intro n hn
    apply splitWhere_congr
    intro c hc
    have other : c ≠ ',' := by
      rintro rfl
      exact (h n hn).2.2 hc
    simp [other]
  rw [list_text, h.normalizeName_join]
  cases names with
  | nil => rfl
  | cons n names =>
    rw [map_trim_splitWhere_join (by decide) (by decide), List.map_flatMap, List.filter_flatMap]
    congr 2
    apply List.flatMap_congr
    intro m hm
    rw [free m hm, Semantic.ofPieces]

end Entry

/-- The entries of a stored match, read back from the text that lists them. -/
def StoredMatch.reread (r : StoredMatch α) : Except Datum.Overflow (List (Entry α)) :=
  Entry.list [] r.entryText .null

namespace Fixture

theorem isRead_of_mem_entries {t : Text} {hits : List TeamSpan} {m : Fixture α}
    (found : m ∈ list (Segment.list t hits)) {s : Semantic α} (hs : s ∈ m.entries) : s.IsRead := by
  have owned : s ∈ (list (α := α) (Segment.list t hits)).flatMap entries :=
    List.mem_flatMap_of_mem found hs
  have all := List.mem_append_left (waiting .nothing (Segment.list t hits)) owned
  rw [entries_list (Segment.gapsApart_list t hits)] at all
  obtain ⟨g, -, read⟩ := List.mem_flatMap.mp all
  exact GapReading.isRead_of_mem_ofText read

end Fixture

namespace Draft

theorem exists_of_mem_price {β : Type} {entries : List (Semantic β)} {odds : List β}
    {e : DraftPick β} (he : e ∈ (price entries odds).1) :
    ∃ s ∈ entries, e.name = s.name ∧ e.semantic = some s := by
  obtain ⟨⟨s, i⟩, member, rfl⟩ := List.mem_map.mp he
  exact ⟨s, List.fst_mem_of_mem_zipIdx member, rfl, rfl⟩

variable {t : Text} {dictionary : List TeamAlias} {directory : List (Team α)} {config : Config α}
  {d : Draft α}

theorem names_of_toStored [Coercion α] {r : StoredMatch α} (h : d.toStored = .ok r) :
    r.entries.map (·.name) = (d.entries.filter (!·.name.isEmpty)).map (·.name) := by
  obtain ⟨entries, checked, h⟩ := eq_ok_of_bind h
  obtain ⟨same, -⟩ := StoredMatch.passes_of_ofChecked h
  obtain rfl := Except.ok.inj same
  rw [← List.forall₂_eq_eq_eq, List.forall₂_map_left_iff, List.forall₂_map_right_iff]
  exact (forall₂_of_mapM_ok checked).flip.imp fun s e => StoredEntry.name_of_ofFields

section

variable [SimilarNames]

theorem exists_isRead (hd : d ∈ (Parse.ofText t dictionary directory config).drafts)
    {e : DraftPick α} (he : e ∈ d.entries) :
    ∃ s, s.IsRead ∧ e.name = s.name ∧ e.semantic = some s := by
  obtain ⟨m, found, games, p, -, rfl⟩ := Parse.mem_drafts_ofText hd
  obtain ⟨s, hs, name, meaning⟩ := exists_of_mem_price he
  exact ⟨s, Fixture.isRead_of_mem_entries found hs, name, meaning⟩

theorem filter_named (hd : d ∈ (Parse.ofText t dictionary directory config).drafts) :
    d.entries.filter (!·.name.isEmpty) = d.entries := by
  rw [List.filter_eq_self]
  intro e he
  obtain ⟨s, read, name, -⟩ := exists_isRead hd he
  simpa [name] using read.named

/-- The text in which the entries of a stored draft are listed gives back what the pieces between
the bars of their names are.  A name without a bar gives its own entry, and only half-time/full-time
pairs have bars. -/
theorem list_entryText [Coercion α] (hd : d ∈ (Parse.ofText t dictionary directory config).drafts)
    {r : StoredMatch α} (stored : d.toStored = .ok r) :
    r.reread = .ok ((d.entries.flatMap fun e => Semantic.ofPieces e.name).map (⟨·, none⟩)) ∧
      (∀ e ∈ d.entries, ∃ s, e.semantic = some s ∧
        ('|' ∉ e.name → Semantic.ofPieces e.name = [s]) ∧ ('|' ∈ e.name → s.market = .halfFull)) ∧
      ((∀ e ∈ d.entries, '|' ∉ e.name) → ∃ read, r.reread = .ok read ∧
        read.map (fun x => some x.semantic.key) = d.entries.map (·.semantic.map Semantic.key)) := by
  have meanings : ∀ e ∈ d.entries, ∃ s, e.semantic = some s ∧
      ('|' ∉ e.name → Semantic.ofPieces e.name = [s]) ∧
        ('|' ∈ e.name → s.market = .halfFull) := by
    intro e he
    obtain ⟨s, read, name, meaning⟩ := exists_isRead hd he
    exact ⟨s, meaning, name ▸ read.ofPieces_name, name ▸ read.market_of_bar⟩
  have names : r.entries.map (·.name) = d.entries.map (·.name) := by
    rw [names_of_toStored stored, filter_named hd]
  have listable : Listable (d.entries.map (·.name)) := by
    intro n hn
    obtain ⟨e, he, rfl⟩ := List.mem_map.mp hn
    obtain ⟨s, read, name, -⟩ := exists_isRead hd he
    rw [name]
    exact ⟨read.isName, read.named, read.comma_notMem⟩
  have back : r.reread =
      .ok ((d.entries.flatMap fun e => Semantic.ofPieces e.name).map (⟨·, none⟩)) := by
    rw [StoredMatch.reread, StoredMatch.entryText, names, Entry.list_join listable,
      List.flatMap_map]
  refine ⟨back, meanings, fun whole => ⟨_, back, ?_⟩⟩
  rw [List.map_map, List.map_flatMap, ← List.flatMap_pure_eq_map]
  apply List.flatMap_congr
  intro e he
  obtain ⟨s, meaning, alone, -⟩ := meanings e he
  rw [alone (whole e he)]
  change [some s.key] = [e.semantic.map Semantic.key]
  rw [meaning]
  rfl

end

def threeEntrySlip : Text := "狼队胜-平/2-1/主胜-1@1.8".toList

def threeEntryParse : Parse Float := Parse.ofText threeEntrySlip [Parse.wolves] [] Config.standard

theorem list_entryText_threeEntrySlip : ∃ d ∈ threeEntryParse.drafts, ∃ r, d.toStored = .ok r ∧
    r.entryText = "胜-平, 2-1, 主胜-1".toList ∧ (∀ e ∈ d.entries, '|' ∉ e.name) ∧
      ∃ read, r.reread = .ok read ∧ read.map (fun x => some x.semantic.key) =
        [some "win-draw".toList, some "2-1".toList, some "-1:win".toList] := by
  have drafted : ∃ d ∈ threeEntryParse.drafts, d.toStored = .ok d.stored ∧
      d.stored.entryText = "胜-平, 2-1, 主胜-1".toList ∧ (∀ e ∈ d.entries, '|' ∉ e.name) ∧
        d.entries.map (·.semantic.map Semantic.key) =
          [some "win-draw".toList, some "2-1".toList, some "-1:win".toList] := by
    decide
  obtain ⟨d, hd, stored, listed, whole, keys⟩ := drafted
  obtain ⟨read, back, same⟩ := (list_entryText hd stored).2.2 whole
  exact ⟨d, hd, d.stored, stored, listed, whole, read, back, same.trans keys⟩

def barredSlip : Text := "狼队胜|平".toList

/-- Reading the entry text of a stored match does not always give the entries of its draft. -/
theorem exists_reread_ne : ¬∀ (t : Text) (dictionary : List TeamAlias),
    ∀ d ∈ (Parse.ofText t dictionary [] (Config.standard : Config Float)).drafts,
      ∀ r, d.toStored = .ok r → ∃ read, r.reread = .ok read ∧
        read.map (fun x => some x.semantic.key) = d.entries.map (·.semantic.map Semantic.key) := by
  intro all
  have drafted : ∃ d ∈ (Parse.ofText (α := Float) barredSlip [Parse.wolves] []
      Config.standard).drafts, d.toStored = .ok d.stored ∧ d.entries.length = 1 ∧
        d.stored.reread.toOption.map List.length = some 2 := by
    decide
  obtain ⟨d, hd, stored, one, two⟩ := drafted
  obtain ⟨read, back, same⟩ := all barredSlip [Parse.wolves] d hd d.stored stored
  have lengths := congrArg List.length same
  rw [List.length_map, List.length_map, one] at lengths
  simp [back, Except.toOption, lengths] at two

end Draft

end Wager
