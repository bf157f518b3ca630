import Wager.Proofs.Decimal.Written
import Wager.Proofs.Distribution.Model
import Wager.Proofs.Entry.Handicap

/-!
# Entries without a name

An entry without a name is named by its position.  No market knows such a name, but it is searched
for the phrases of double chances like any other, and the digits of some positions hold one.
-/

namespace Wager

open Text

section Position

theorem isDigits_ofNat (n : Nat) : IsDigits (Text.ofNat n) := by
  constructor
  · exact List.ne_nil_of_length_pos Nat.length_toDigits_pos
  · intro c hc
    rw [isDigit, digit?_of_isDigit (isDigit_of_mem_ofNat c hc)]
    rfl

theorem mem_digits {c : Char} (h : c.isDigit = true) : c ∈ "0123456789".toList := by
  obtain ⟨low, high⟩ := toNat_of_isDigit h
  rw [← Char.ofNat_toNat c]
  generalize c.toNat = n at low high
  interval_cases n <;> decide

variable (i : Nat)

/-- What holds of the letters of a name by position and of all digits holds of the whole name. -/
theorem forall_mem_entryName {p : Char → Bool}
    (each : ("entry-".toList ++ "0123456789".toList).all p = true) :
    ∀ c ∈ entryName i, p c = true := by
  intro c hc
  apply List.all_eq_true.mp each
  rcases List.mem_append.mp hc with letter | digit
  · exact List.mem_append_left _ letter
  · exact List.mem_append_right _ (mem_digits (isDigit_of_mem_ofNat c digit))

theorem entryName_mem_sideBySide :
    entryName i ∈ sideBySide "entry".toList ('-' :: Text.ofNat (i + 1)) := List.mem_cons_self

theorem isLine_position : IsLine ('-' :: Text.ofNat (i + 1)) :=
  .signed (.inr rfl) (.whole (isDigits_ofNat (i + 1)))

theorem isPlainName_entryName : IsPlainName (entryName i) :=
  (isPlainName_of_isWord (by decide)).of_mem_sideBySide (isLine_position i).isPlainName
    (entryName_mem_sideBySide i)

theorem lower_entryName : lower (entryName i) = entryName i := by
  have ascii := forall_mem_entryName i (p := fun c => decide (c.toNat < 0x80)) (by rfl)
  have small := forall_mem_entryName i (p := fun c => c.toLower == c) (by rfl)
  rw [lower_of_ascii fun c hc => of_decide_eq_true (ascii c hc),
    foldCase_eq_self fun c hc => beq_iff_eq.mp (small c hc)]

theorem squeeze_entryName : squeeze (entryName i) = entryName i :=
  List.filter_eq_self.mpr (forall_mem_entryName i (by rfl))

theorem compact_entryName : compact (entryName i) = entryName i := by
  rw [(isPlainName_entryName i).compact_eq, lower_entryName, squeeze_entryName]

variable {α : Type} [Scalar α]

theorem ofHandicap?_entryName : Reading.ofHandicap? (α := α) (entryName i) = none := by
  have word : isWord "entry".toList = true := by decide
  have core := Reading.handicapCore_mem word (by decide) (isLine_position i)
    (List.mem_append_left _ (entryName_mem_sideBySide i))
  have none : Outcome.ofToken? "entry".toList = none := by decide
  change (Reading.ofLeadingLine? (Reading.handicapCore (entryName i)) <|>
    Reading.ofTrailingLine? (Reading.handicapCore (entryName i))) = _
  rw [Reading.read_of_mem_sideBySide word (isLine_position i) core, none]
  cases (Scalar.ofText? ('-' :: Text.ofNat (i + 1)) : Option α) <;> rfl

theorem ofTotal?_entryName : Reading.ofTotal? (α := α) (entryName i) = none := by
  have digits := isDigits_ofNat (i + 1)
  have letters : ∀ c ∈ "entry-".toList, (!isDigit c) = true := List.all_eq_true.mp (by rfl)
  have front : ∀ c ∈ (Text.ofNat (i + 1)).head?, (!isDigit c) = false := by
    intro c hc
    rw [digits.2 c (List.mem_of_mem_head? hc), Bool.not_true]
  obtain ⟨taken, -⟩ := span_append letters front
  have noDirection : Direction.ofShortSpelling? "entry-".toList = none := by decide
  have noNumber : spanDecimal? (entryName i) = none := by
    apply spanDecimal?_of_front
    rintro c ⟨⟩
    rfl
  have word : (entryName i).takeWhile (!isDigit ·) = "entry-".toList := taken
  rw [Reading.ofTotal?, squeeze_entryName, Reading.ofLeadingDirection?, word, noDirection,
    Reading.ofTrailingDirection?, noNumber]
  rfl

theorem ofName_entryName : Reading.ofName (α := α) (entryName i) = .other := by
  have digits := isDigits_ofNat (i + 1)
  obtain ⟨c, hc⟩ := List.exists_mem_of_ne_nil _ digits.1
  have inside : c ∈ entryName i := List.mem_append_right _ hc
  have score : Reading.ofScore? (α := α) (entryName i) = none := by
    apply Reading.ofScore?_of_front
    rintro d ⟨⟩
    rfl
  rw [Reading.ofName_of_digit (digits.2 c hc) inside score, ofHandicap?_entryName,
    ofTotal?_entryName]
  rfl

end Position

section Coverage

open Coverage

/-- The phrases for the double chance of both sides that are written in digits. -/
def sidesInDigits : List Text := ["12".toList, "21".toList]

/-- Whether the digits of a number hold the double chance of both sides. -/
def spellsSides (n : Nat) : Bool := sidesInDigits.any (occursIn · (Text.ofNat n))

variable (i : Nat)

theorem unspelled_entryName : Unspelled (entryName i) := by
  have solid := forall_mem_entryName i (p := fun c => !isBlank c && !isListMark c) (by rfl)
  have noChoice : ¬"or".toList <:+: entryName i := by
    intro inside
    have others := forall_mem_entryName i (p := (· != 'o')) (by rfl)
    exact absurd (others 'o' (inside.subset List.mem_cons_self)) (by decide)
  have dash : '-' ∈ entryName i := List.mem_append_left _ (by decide)
  have unknown : Outcome.ofPoolSpelling? (entryName i) = none := by
    rw [Outcome.ofPoolSpelling?, List.find?_eq_none]
    intro o _ spelled
    simp only [Bool.or_eq_true, List.contains_iff_mem, beq_iff_eq] at spelled
    rcases spelled with word | digit
    · have letter := (isWord_iff.mp (o.isWord_of_mem_spellings word)).2 '-' dash
      revert letter
      decide
    · rw [digit, List.mem_singleton] at dash
      revert dash
      cases o <;> decide
  rw [unspelled_iff (by simpa [lower_entryName] using solid), lower_entryName,
    choices_of_not_isInfix noChoice]
  exact List.forall_mem_singleton.mpr unknown

theorem occursIn_sidesInDigits {piece : Text} (h : piece ∈ sidesInDigits) :
    occursIn piece (entryName i) = occursIn piece (Text.ofNat (i + 1)) := by
  have front : ∃ c rest, piece = c :: rest ∧ c ∉ "entry-".toList := by
    rcases List.mem_pair.mp h with rfl | rfl
    · exact ⟨'1', ['2'], rfl, by decide⟩
    · exact ⟨'2', ['1'], rfl, by decide⟩
  obtain ⟨c, rest, rfl, free⟩ := front
  exact occursIn_append free _

theorem occursIn_phrase {phrase : Pair × List Text} {spelled : Text} (hp : phrase ∈ phrases)
    (hs : spelled ∈ phrase.2) (other : spelled ∉ sidesInDigits) :
    occursIn spelled (entryName i) = false := by
  have table : (phrases.all fun phrase => phrase.2.all fun spelled =>
      sidesInDigits.contains spelled ||
        spelled.any fun c => !("entry-".toList ++ "0123456789".toList).contains c) = true := by
    rfl
  have found := List.all_eq_true.mp (List.all_eq_true.mp table phrase hp) spelled hs
  rw [Bool.or_eq_true, List.contains_iff_mem, or_iff_right other, List.any_eq_true] at found
  obtain ⟨c, hc, foreign⟩ := found
  rw [occursIn_eq_false_iff]
  intro inside
  have own := forall_mem_entryName i
    (p := fun c => ("entry-".toList ++ "0123456789".toList).contains c) (by rfl)
  rw [own c (inside.subset hc)] at foreign
  cases foreign

theorem ofPhrases_of_spellsSides (sides : spellsSides (i + 1) = true) :
    ofPhrases (entryName i) = [.win, .lose] := by
  -- The phrases of the other two pairs come first, and none of them is in the name.
  have others : (phrases.take 2).foldl (addPair (entryName i)) [] = [] := by
    apply foldl_eq_self addPair_of_none
    intro phrase hp
    have letters : ((phrases.take 2).all fun phrase => phrase.2.all fun spelled =>
        !sidesInDigits.contains spelled) = true := by
      rfl
    rw [List.any_eq_true]
    rintro ⟨spelled, hs, inside⟩
    have other := List.all_eq_true.mp (List.all_eq_true.mp letters phrase hp) spelled hs
    rw [occursIn_phrase i (List.mem_of_mem_take hp) hs (by simpa using other)] at inside
    cases inside
  have both : ∃ spelled, phrases.drop 2 = [(⟨.win, .lose⟩, spelled)] ∧
      ∀ piece ∈ sidesInDigits, piece ∈ spelled := ⟨_, rfl, by decide⟩
  obtain ⟨spelled, last, known⟩ := both
  have named : spelled.any (occursIn · (entryName i)) = true := by
    obtain ⟨piece, member, inside⟩ := List.any_eq_true.mp sides
    rw [← occursIn_sidesInDigits i member] at inside
    exact List.any_eq_true.mpr ⟨piece, known piece member, inside⟩
  rw [ofPhrases_eq_foldl, compact_entryName, ← List.take_append_drop 2 phrases,
    List.foldl_append, others, last, List.foldl_cons, List.foldl_nil, addPair, if_pos named]
  rfl

theorem phraseless_of_not_spellsSides (sides : spellsSides (i + 1) = false) :
    Phraseless (entryName i) := by
  rw [Phraseless, compact_entryName]
  intro phrase hp spelled hs
  by_cases digits : spelled ∈ sidesInDigits
  · rw [occursIn_sidesInDigits i digits, Bool.eq_false_iff]
    exact List.any_eq_false.mp sides spelled digits
  · exact occursIn_phrase i hp hs digits

/-- The name by position covers both sides where its digits hold their double chance, and nothing
elsewhere. -/
theorem ofText_entryName :
    ofText (entryName i) = if spellsSides (i + 1) then [.win, .lose] else [] := by
  cases sides : spellsSides (i + 1) with
  | true =>
    have phrase := ofPhrases_of_spellsSides i sides
    rw [ofText_eq_ofPhrases (by simp [phrase]) (unspelled_entryName i), phrase, if_pos rfl]
  | false =>
    have characters (o : Outcome) : o.character ∉ entryName i := by
      intro inside
      have own := forall_mem_entryName i (p := fun c => c.toNat.blt 0x80) (by rfl)
      have ascii := own _ inside
      revert ascii
      cases o <;> decide
    rw [if_neg Bool.false_ne_true, ofText_eq_nil_iff]
    exact ⟨phraseless_of_not_spellsSides i sides, unspelled_entryName i, characters⟩

variable {α : Type} [Scalar α]

theorem Semantic.coverage_entryName : (ofText (entryName i) : Semantic α).coverage =
    if spellsSides (i + 1) then [.win, .lose] else [] := by
  rw [ofText_eq, (isPlainName_entryName i).normalizeName_eq, ofName_entryName]
  rw [coverage_other, compact_entryName, ite_self, ofText_entryName]

end Coverage

namespace MatchDistribution

variable {α : Type} [Scalar α] {entries : List (Datum α)} {e : Datum α}
  {unionProbability fallback : Datum α}
  {splitting : Option (List (Datum α))} {i : Nat}

/-- An entry without a name makes each entry of its match an atom of its own, unless the digits of
its position hold the double chance of both sides.  There it covers the two, and what the other
entries cover decides. -/
theorem build_nameless (at_i : entries[i]? = some e)
    (nameless : normalizeName (Entry.fields e).1 = []) (pays : Entry.pays fallback e = true)
    (readable : readsOutsized entries unionProbability fallback splitting = false) :
    ∃ d, build entries unionProbability fallback splitting = .ok d ∧
      if spellsSides (i + 1) then
        (PricedEntry.meaning e i).coverage = [.win, .lose] ∧
          d.IsOver (Atom.spread
            ((PricedEntry.usable entries fallback).map fun p => p.semantic.coverage))
      else d.IsOver (Atom.singles (PricedEntry.usable entries fallback).length) := by
  have named : PricedEntry.meaning e i = Semantic.ofText (entryName i) := by
    rw [PricedEntry.meaning, Semantic.ofText_eq, nameless]
    rfl
  obtain ⟨odds, member⟩ := PricedEntry.exists_mem_usable at_i pays
  obtain ⟨d, built, spread⟩ := build_isOver readable
  rw [priced_eq_usable at_i pays] at spread
  refine ⟨d, built, ?_⟩
  rw [named] at member ⊢
  rw [Semantic.coverage_entryName]
  split
  next => exact ⟨rfl, spread⟩
  next other =>
    have none : (Semantic.ofText (entryName i) : Semantic α).coverage = [] := by
      rw [Semantic.coverage_entryName, if_neg other]
    rw [Atom.spread_of_nil_mem, List.length_map] at spread
    · exact spread
    · exact List.mem_map.mpr ⟨_, member, none⟩

theorem build_nameless_second :
    [Datum.bet "主胜" 2, .bet " " 3][1]? = some (.bet " " 3 : Datum Float) ∧
    normalizeName (Entry.fields (.bet " " 3 : Datum Float)).1 = [] ∧
    Entry.pays (.null : Datum Float) (.bet " " 3) = true ∧
    readsOutsized (α := Float) [.bet "主胜" 2, .bet " " 3] .null .null none = false ∧
    ∃ d, build (α := Float) [.bet "主胜" 2, .bet " " 3] .null .null none = .ok d ∧
      d.IsOver [[.entry 0], [.entry 1]] := by
  have second : [Datum.bet "主胜" 2, .bet " " 3][1]? = some (.bet " " 3 : Datum Float) := rfl
  have nameless : normalizeName (Entry.fields (.bet " " 3 : Datum Float)).1 = [] := by
    decide
  have pays : Entry.pays (.null : Datum Float) (.bet " " 3) = true := by
    decide
  have readable :
      readsOutsized (α := Float) [.bet "主胜" 2, .bet " " 3] .null .null none = false := by
    decide
  have count : (PricedEntry.usable [Datum.bet "主胜" 2, .bet " " 3]
      (.null : Datum Float)).length = 2 := by
    rw [← List.length_map (·.odds), PricedEntry.map_odds_usable]
    decide
  obtain ⟨d, built, spread⟩ := build_nameless second nameless pays readable
  rw [if_neg (by decide), count] at spread
  exact ⟨second, nameless, pays, readable, d, built, spread⟩

/-- Behind eleven home wins, an entry without a name is taken for the double chance of both
sides. -/
theorem exists_nameless_covering :
    ∃ d, build (α := Float) (List.replicate 11 (.bet "主胜" 2) ++ [.bet "" 2]) .null .null none =
      .ok d ∧
      d.IsOver (List.replicate 11 [.outcome .win] ++ [[.outcome .win, .outcome .lose]]) := by
  have readable : readsOutsized (α := Float)
      (List.replicate 11 (.bet "主胜" 2) ++ [.bet "" 2]) .null .null none = false := by
    decide
  have covered : (priced (α := Float) (List.replicate 11 (.bet "主胜" 2) ++ [.bet "" 2])
      .null).map (fun e => e.semantic.coverage) =
        List.replicate 11 [.win] ++ [[.win, .lose]] := by
    decide
  obtain ⟨d, built, spread⟩ := build_isOver readable
  rw [covered] at spread
  exact ⟨d, built, spread⟩

end MatchDistribution

end Wager
