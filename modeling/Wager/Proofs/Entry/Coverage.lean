import Wager.Entry.Coverage
import Wager.Proofs.Entry.Retyped
import Wager.Proofs.Text.Occurs

/-!
# What an entry covers

Coverage is read off texts: phrases anywhere in them, words between list marks, single characters.
Words are cut wherever the word for a choice stands, also inside of a longer word.
-/

namespace Wager

open Text

namespace Coverage

section Folds

variable {β : Type} {step : List Outcome → β → List Outcome} {names : β → Prop} {items : List β}
  {found : List Outcome}

/-- Going through items, of which some name outcomes, changes nothing when none does. -/
theorem foldl_eq_self (kept : ∀ found b, ¬names b → step found b = found)
    (none : ∀ b ∈ items, ¬names b) : items.foldl step found = found := by
  induction items with
  | nil => rfl
  | cons b items ih =>
    obtain ⟨front, later⟩ := List.forall_mem_cons.mp none
    rw [List.foldl_cons, kept found b front, ih later]

theorem foldl_eq_nil_iff (kept : ∀ found b, ¬names b → step found b = found)
    (filled : ∀ found b, names b → step found b ≠ []) :
    items.foldl step found = [] ↔ found = [] ∧ ∀ b ∈ items, ¬names b := by
  induction items generalizing found with
  | nil => simp
  | cons b items ih =>
    rw [List.foldl_cons, ih, List.forall_mem_cons]
    by_cases named : names b
    · simp [named, filled]
    · simp [named, kept]

end Folds

section Reading

variable {t : Text}

theorem add_ne_nil (found : List Outcome) (o : Outcome) : add found o ≠ [] := by
  rw [add]
  split
  next known =>
    rintro rfl
    cases known
  next => simp

def addWord (found : List Outcome) (word : Text) : List Outcome :=
  match Outcome.ofPoolSpelling? word with
  | some o => add found o
  | none => found

/-- Adds the outcomes of a double chance if one of its phrases stands in a text without blanks. -/
def addPair (bare : Text) (found : List Outcome) (phrase : Pair × List Text) : List Outcome :=
  if phrase.2.any (occursIn · bare) then add (add found phrase.1.first) phrase.1.second else found

theorem ofPhrases_eq_foldl (t : Text) : ofPhrases t = phrases.foldl (addPair (compact t)) [] := rfl

theorem ofText_eq_ite (t : Text) : ofText t =
    if ((listWords t).foldl addWord (ofPhrases t)).isEmpty then
      Outcome.all.filter fun o => t.contains o.character
    else (listWords t).foldl addWord (ofPhrases t) := rfl

theorem addWord_of_none (found : List Outcome) (word : Text)
    (h : ¬(Outcome.ofPoolSpelling? word).isSome) : addWord found word = found := by
  rw [addWord, Option.not_isSome_iff_eq_none.mp h]

theorem addPair_of_none {bare : Text} (found : List Outcome) (phrase : Pair × List Text)
    (h : ¬phrase.2.any (occursIn · bare)) : addPair bare found phrase = found := if_neg h

def Phraseless (t : Text) : Prop :=
  ∀ phrase ∈ phrases, ∀ spelled ∈ phrase.2, occursIn spelled (compact t) = false

def Unspelled (t : Text) : Prop := ∀ word ∈ listWords t, Outcome.ofPoolSpelling? word = none

theorem ofPhrases_eq_nil_iff : ofPhrases t = [] ↔ Phraseless t := by
  rw [ofPhrases_eq_foldl, foldl_eq_nil_iff addPair_of_none]
  · simp [Phraseless]
  · intro found phrase named
    rw [addPair, if_pos named]
    exact add_ne_nil _ _

theorem foldl_addWord_eq_nil_iff {found : List Outcome} :
    (listWords t).foldl addWord found = [] ↔ found = [] ∧ Unspelled t := by
  rw [foldl_eq_nil_iff addWord_of_none]
  · simp [Unspelled]
  · intro found word named
    obtain ⟨o, spelled⟩ := Option.isSome_iff_exists.mp named
    rw [addWord, spelled]
    exact add_ne_nil _ _

/-- Nothing is covered when no phrase, no word and no single character names an outcome. -/
theorem ofText_eq_nil_iff :
    ofText t = [] ↔ Phraseless t ∧ Unspelled t ∧ ∀ o : Outcome, o.character ∉ t := by
  rw [ofText_eq_ite, ← and_assoc, ← ofPhrases_eq_nil_iff, ← foldl_addWord_eq_nil_iff]
  split
  next bare =>
    have every (o : Outcome) : o ∈ Outcome.all := by
      cases o <;> decide
    rw [List.isEmpty_iff] at bare
    simp [bare, List.filter_eq_nil_iff, every]
  next filled =>
    rw [List.isEmpty_iff] at filled
    simp [filled]

theorem ofText_eq_ofPhrases (filled : ofPhrases t ≠ []) (bare : Unspelled t) :
    ofText t = ofPhrases t := by
  have words : (listWords t).foldl addWord (ofPhrases t) = ofPhrases t := by
    apply foldl_eq_self addWord_of_none
    simpa [Unspelled] using bare
  rw [ofText_eq_ite, words, if_neg]
  rwa [List.isEmpty_iff]

end Reading

section Choices

variable {t : Text}

/-- The parts of a word between the places where the word for a choice stands in it. -/
def choices : Text → List Text
  | [] => [[]]
  | 'o' :: 'r' :: rest => [] :: choices rest
  | c :: rest => (choices rest).modifyHead (c :: ·)

theorem splitWhere_replace (solid : ∀ c ∈ t, isBlank c = false) :
    splitWhere isBlank (replace "or".toList [' '] t) = choices t := by
  fun_induction choices t with
  | case1 => rfl
  | case2 rest ih =>
    have later : ∀ c ∈ rest, isBlank c = false :=
      fun c hc => solid c (List.mem_cons_of_mem _ (List.mem_cons_of_mem _ hc))
    have cut : replace "or".toList [' '] ('o' :: 'r' :: rest) =
        ' ' :: replace "or".toList [' '] rest := rfl
    rw [cut, splitWhere_cons, if_pos (by rfl), ih later]
  | case3 c rest other ih =>
    obtain ⟨front, later⟩ := List.forall_mem_cons.mp solid
    have unmatched : "or".toList.isPrefixOf (c :: rest) = false := by
      rw [Bool.eq_false_iff, ne_eq, List.isPrefixOf_iff_prefix]
      rintro ⟨tail, same⟩
      obtain ⟨first, second⟩ := List.cons.inj same
      exact other tail first.symm second.symm
    have kept : replace "or".toList [' '] (c :: rest) =
        c :: replace "or".toList [' '] rest := by
      rw [replace, replaceFrom, unmatched]
      rfl
    rw [kept, splitWhere_cons, if_neg (by simp [front]), ih later]

theorem choices_of_not_isInfix (h : ¬"or".toList <:+: t) : choices t = [t] := by
  fun_induction choices t with
  | case1 => rfl
  | case2 rest ih => exact absurd (List.prefix_append "or".toList rest).isInfix h
  | case3 c rest other ih => rw [ih fun inside => h (List.infix_cons inside), List.modifyHead]

/-- Without a blank or a list mark in it, a text is cut at the words for a choice alone. -/
theorem unspelled_iff (solid : ∀ c ∈ lower t, isBlank c = false ∧ isListMark c = false) :
    Unspelled t ↔ ∀ part ∈ choices (lower t), Outcome.ofPoolSpelling? part = none := by
  have unmarked : (lower t).map (fun c => if isListMark c then ' ' else c) = lower t := by
    rw [List.map_congr_left fun c hc => if_neg (by simp [(solid c hc).2]), List.map_id']
  have parts : listWords t = (choices (lower t)).filter (!·.isEmpty) := by
    rw [listWords, unmarked, words, splitWhere_replace fun c hc => (solid c hc).1]
  rw [Unspelled, parts]
  constructor
  · intro h part hp
    cases part with
    | nil => rfl
    | cons c part => exact h _ (List.mem_filter.mpr ⟨hp, rfl⟩)
  · exact fun h word hw => h word (List.mem_of_mem_filter hw)

end Choices

section Case

variable {t : Text}

theorem ofPhrases_foldCase : ofPhrases (foldCase t) = ofPhrases t := by
  rw [ofPhrases_eq_foldl, compact_foldCase, ofPhrases_eq_foldl]

theorem listWords_foldCase : listWords (foldCase t) = listWords t := by
  rw [listWords, lower_foldCase, listWords]

theorem ofText_foldCase : ofText (foldCase t) = ofText t := by
  have characters (o : Outcome) : (foldCase t).contains o.character = t.contains o.character := by
    have noLetter : o.character.isAlpha = false := by
      cases o <;> rfl
    simp [foldCase, toLower_eq_iff noLetter]
  rw [ofText_eq_ite, ofText_eq_ite, ofPhrases_foldCase, listWords_foldCase]
  simp only [characters]

end Case

end Coverage

namespace Semantic

variable {α : Type} [Scalar α]

def coverage (s : Semantic α) : List Outcome :=
  Coverage.ofLabels ⟨s.market.name, s.key, s.name⟩

theorem coverage_other (name : Text) : (⟨name, .other⟩ : Semantic α).coverage =
    if (Coverage.ofText (compact name)).isEmpty then Coverage.ofText name
    else Coverage.ofText (compact name) := rfl

theorem coverage_congr {s t : Semantic α} (reading : s.reading = t.reading)
    (names : foldCase s.name = foldCase t.name) : s.coverage = t.coverage := by
  have compacts : compact s.name = compact t.name := by
    rw [← compact_foldCase, names, compact_foldCase]
  have keys : s.key = t.key := by
    rw [key, reading, compacts, key]
  have texts : Coverage.ofText s.name = Coverage.ofText t.name := by
    rw [← Coverage.ofText_foldCase, names, Coverage.ofText_foldCase]
  rw [coverage, coverage, Coverage.ofLabels, Coverage.ofLabels, market, market, reading, keys,
    texts]

theorem foldCase_name_ofText (t : Text) :
    foldCase (ofText (foldCase t) : Semantic α).name = foldCase (ofText t : Semantic α).name := by
  have typed : List.Forall₂ Retyped t (foldCase t) := by
    rw [foldCase, List.forall₂_map_right_iff, List.forall₂_same]
    intro c _
    by_cases letter : c.isAlpha = true
    · exact .inr (.inl ⟨letter, Char.toLower_toLower_eq_toLower c⟩)
    · exact .inl (toLower_of_not_isAlpha (Bool.eq_false_iff.mpr letter))
  rw [ofText_eq, ofText_eq]
  exact foldCase_normalizeName_of_retyped typed

theorem coverage_foldCase (t : Text) :
    (ofText (foldCase t) : Semantic α).coverage = (ofText t : Semantic α).coverage := by
  have names := foldCase_name_ofText (α := α) t
  refine coverage_congr ?_ names
  rw [ofText_eq, ofText_eq] at names ⊢
  dsimp only at names ⊢
  rw [← Reading.ofName_foldCase, names, Reading.ofName_foldCase]

theorem isEmpty_name_foldCase (t : Text) :
    (ofText (foldCase t) : Semantic α).name.isEmpty = (ofText t : Semantic α).name.isEmpty := by
  rw [← isEmpty_foldCase, foldCase_name_ofText, isEmpty_foldCase]

end Semantic

end Wager
