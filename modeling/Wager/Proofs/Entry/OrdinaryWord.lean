import Wager.Entry.Basic
import Wager.Proofs.Entry.Coverage

/-!
# Ordinary words

A word that is no spelling of an outcome and has no phrase of a double chance in it may still cover
results: the word for a choice is cut out of it wherever it stands, and what is left on either side
may be a spelling.  Nothing else makes an ordinary word cover a result.
-/

namespace Wager

open Text

/-- A word of Latin letters that neither spells an outcome nor has a double chance in it. -/
structure IsOrdinaryWord (w : Text) : Prop where
  filled : w ≠ []
  letters : ∀ c ∈ w, c.isAlpha = true
  unspelled : Outcome.ofPoolSpelling? (lower w) = none
  phraseless : ∀ phrase ∈ Coverage.phrases, ∀ spelled ∈ phrase.2,
    occursIn spelled (lower w) = false

section Letters

variable {c : Char} {w : Text}

theorem isWordChar_of_isAlpha (h : c.isAlpha = true) : isWordChar c = true := by
  rw [isWordChar, h, Bool.true_or]

theorem ascii_of_isAlpha (h : c.isAlpha = true) : c.toNat < 0x80 := by
  simp only [Char.isAlpha, Char.isUpper, Char.isLower, Bool.or_eq_true, Bool.and_eq_true,
    decide_eq_true_eq, ge_iff_le, UInt32.le_iff_toNat_le] at h
  change (65 ≤ c.toNat ∧ c.toNat ≤ 90) ∨ (97 ≤ c.toNat ∧ c.toNat ≤ 122) at h
  omega

theorem isListMark_of_isAlpha (h : c.isAlpha = true) : Coverage.isListMark c = false := by
  rw [Bool.eq_false_iff]
  intro marked
  simp only [Coverage.isListMark, List.contains_iff_mem, List.mem_cons, List.not_mem_nil, or_false]
    at marked
  rcases marked with rfl | rfl | rfl | rfl | rfl | rfl | rfl | rfl | rfl | rfl | rfl | rfl
  all_goals revert h; decide

namespace IsOrdinaryWord

theorem isWord (word : IsOrdinaryWord w) : isWord w = true :=
  isWord_iff.mpr ⟨word.filled, fun c hc => isWordChar_of_isAlpha (word.letters c hc)⟩

theorem lower_eq (word : IsOrdinaryWord w) : lower w = foldCase w :=
  lower_of_ascii fun c hc => ascii_of_isAlpha (word.letters c hc)

theorem compact_eq (word : IsOrdinaryWord w) : compact w = lower w :=
  compact_of_word fun c hc => isWordChar_of_isAlpha (word.letters c hc)

theorem isAlpha_of_mem_lower (word : IsOrdinaryWord w) : ∀ c ∈ lower w, c.isAlpha = true := by
  rw [word.lower_eq]
  intro c hc
  obtain ⟨d, hd, rfl⟩ := List.mem_map.mp hc
  rw [Char.isAlpha_toLower_eq_isAlpha, word.letters d hd]

/-- All that an ordinary word can cover results by is what the word for a choice cuts off. -/
theorem ofText_eq_nil_iff (word : IsOrdinaryWord w) : Coverage.ofText w = [] ↔
    ∀ part ∈ Coverage.choices (lower w), Outcome.ofPoolSpelling? part = none := by
  have phraseless : Coverage.Phraseless w := by
    rw [Coverage.Phraseless, word.compact_eq]
    exact word.phraseless
  have characters (o : Outcome) : o.character ∉ w := by
    intro inside
    have letter := word.letters _ inside
    revert letter
    cases o <;> decide
  have solid : ∀ c ∈ lower w, isBlank c = false ∧ Coverage.isListMark c = false := by
    intro c hc
    have letter := word.isAlpha_of_mem_lower c hc
    exact ⟨isBlank_of_isWordChar (isWordChar_of_isAlpha letter), isListMark_of_isAlpha letter⟩
  rw [Coverage.ofText_eq_nil_iff, Coverage.unspelled_iff solid]
  simp [phraseless, characters]

variable {α : Type} [Scalar α]

/-- No market but the one of half-time and full-time knows a word that spells no outcome. -/
theorem ofName_eq (word : IsOrdinaryWord w) :
    Reading.ofName (α := α) w = (Reading.ofHalfFull? w).getD .other := by
  have digitless : ∀ c ∈ w, isDigit c = false :=
    fun c hc => isDigit_of_isWordChar (isWordChar_of_isAlpha (word.letters c hc))
  have none : Outcome.ofToken? w = none := by
    have neither := List.find?_eq_none.mp word.unspelled
    rw [Outcome.ofToken?, word.compact_eq, Outcome.ofSpelling?, List.find?_eq_none]
    intro o ho spelled
    exact neither o ho (by rw [spelled, Bool.true_or])
  rw [Reading.ofName_of_digitless digitless, Reading.ofResult?, none]
  simp

/-- As an entry, an ordinary word covers what its text does, unless another market takes it. -/
theorem coverage_eq (word : IsOrdinaryWord w) : (Semantic.ofText w : Semantic α).coverage =
    if (Semantic.ofText w : Semantic α).market = .other then Coverage.ofText w else [] := by
  have name : normalizeName w = w := (isPlainName_of_isWord word.isWord).normalizeName_eq
  rw [Semantic.ofText_eq, name, word.ofName_eq]
  cases read : (Reading.ofHalfFull? w : Option (Reading α)) with
  | none =>
    have key : Coverage.ofText (compact w) = Coverage.ofText w := by
      rw [word.compact_eq, word.lower_eq, Coverage.ofText_foldCase]
    rw [Option.getD_none, Semantic.coverage_other, key, ite_self]
    rfl
  | some r =>
    obtain ⟨half, full, rfl⟩ := Reading.exists_of_ofHalfFull? read
    rfl

end IsOrdinaryWord

end Letters

namespace Coverage

variable {α : Type} [Scalar α] {entry fallback : Datum α} {w : Text}

theorem ofLabels_ofDatum (named : entry.field "name".toList = .text w)
    (untyped : entry.field "market_type".toList = .null)
    (keyless : entry.field "semantic_key".toList = .null) :
    ofLabels (.ofDatum entry) = ofText w := by
  have name : (Datum.text w : Datum α).label = w := by
    cases w <;> rfl
  rw [EntryLabels.ofDatum, named, untyped, keyless, name]
  rfl

theorem ofLabels_ofEntry (r : Entry α) : ofLabels (.ofEntry r) = r.semantic.coverage := rfl

end Coverage

namespace Entry

variable {α : Type} [Scalar α] {entry fallback : Datum α} {w : Text}

theorem semantic_of_ofDatum {r : Entry α} (read : ofDatum entry fallback = .ok r) :
    r.semantic = Semantic.ofText (fields entry).1 := by
  unfold ofDatum at read
  dsimp only at read
  cases standIn : fallback.number? with
  | error e =>
    rw [standIn] at read
    cases read
  | ok price =>
    cases odds : (fields entry).2.number? with
    | error e =>
      rw [standIn, odds] at read
      cases read
    | ok given =>
      rw [standIn, odds] at read
      cases read
      rfl

theorem fields_of_named (named : entry.field "name".toList = .text w) (filled : w ≠ []) :
    (fields entry).1 = w := by
  cases entry with
  | object fs =>
    have kept : (Datum.text w : Datum α).isVoid = false := by
      simpa [Datum.isVoid] using filled
    rw [fields]
    dsimp only
    rw [named, Datum.orElse, kept, if_neg Bool.false_ne_true, Datum.label, kept]
    rfl
  | _ => cases named

end Entry

section Labels

variable {α : Type} [Scalar α] {entry : Datum α} {w : Text}

/-- A mapping with an ordinary word for its name covers no result if and only if no part of the word
spells an outcome, which is so for all words without the word for a choice in them.  The entry that
it is normalized to covers the same results, or none when it belongs to another market. -/
theorem Coverage.ofLabels_ordinaryWord (word : IsOrdinaryWord w)
    (named : entry.field "name".toList = .text w)
    (untyped : entry.field "market_type".toList = .null)
    (keyless : entry.field "semantic_key".toList = .null) :
    (ofLabels (.ofDatum entry) = [] ↔
      ∀ part ∈ choices (lower w), Outcome.ofPoolSpelling? part = none) ∧
    (occursIn "or".toList (lower w) = false → ofLabels (.ofDatum entry) = []) ∧
    ∀ (fallback : Datum α) (r : Entry α), Entry.ofDatum entry fallback = .ok r →
      ofLabels (.ofEntry r) =
        if r.semantic.market = .other then ofLabels (.ofDatum entry) else [] := by
  rw [ofLabels_ofDatum named untyped keyless, ← word.ofText_eq_nil_iff]
  refine ⟨Iff.rfl, fun whole => ?_, fun fallback r read => ?_⟩
  · rw [word.ofText_eq_nil_iff, choices_of_not_isInfix (occursIn_eq_false_iff.mp whole)]
    exact List.forall_mem_singleton.mpr word.unspelled
  · rw [ofLabels_ofEntry, Entry.semantic_of_ofDatum read,
      Entry.fields_of_named named word.filled, word.coverage_eq]

def Datum.named (name : Text) : Datum α := .object [("name".toList, .text name)]

theorem Coverage.ofLabels_ordinaryWord_goal :
    IsOrdinaryWord "Goal".toList ∧ ofLabels (.ofDatum (.named "Goal".toList : Datum Float)) = [] ∧
      ofLabels (.ofEntry (⟨Semantic.ofText "Goal".toList, none⟩ : Entry Float)) = [] := by
  have word : IsOrdinaryWord "Goal".toList := ⟨by decide, by simp, by decide, by decide⟩
  have name : (.named "Goal".toList : Datum Float).field "name".toList = .text "Goal".toList := rfl
  have labels := ofLabels_ordinaryWord word name rfl rfl
  have covers : ofLabels (.ofDatum (.named "Goal".toList : Datum Float)) = [] :=
    labels.2.1 (by decide)
  refine ⟨word, covers, ?_⟩
  rw [labels.2.2 .null ⟨Semantic.ofText "Goal".toList, none⟩ rfl, covers, ite_self]

/-- The word for a choice stands in an ordinary word, and what is around it is taken for a home win
and a draw. -/
theorem Coverage.exists_ordinaryWord_covering : ∃ w, IsOrdinaryWord w ∧
    (Semantic.ofText w : Semantic Float).market = .other ∧
    ofLabels (.ofDatum (.named w : Datum Float)) = [.win, .draw] ∧
    ofLabels (.ofEntry (⟨Semantic.ofText w, none⟩ : Entry Float)) = [.win, .draw] := by
  have word : IsOrdinaryWord "word".toList := ⟨by decide, by simp, by decide, by decide⟩
  exact ⟨"word".toList, word, by decide⟩

end Labels

end Wager
