import Wager.Proofs.Entry.Line
import Wager.Slip.Keyword

/-!
# Numbers of a slip

A number is read off the front of a text if neither a second fraction nor the other half of a score
goes on behind it, and takes at least one character.  Its digits are no letters of any keyword.
-/

namespace Wager

open Text

section Digit

variable {c : Char} (digit : isDigit c = true)
include digit

theorem ne_of_isDigit {d : Char} (noDigit : isDigit d = false) : c ≠ d := by
  rintro rfl
  rw [digit] at noDigit
  cases noDigit

theorem isAlpha_of_isDigit : c.isAlpha = false :=
  (Bool.or_eq_false_iff.mp (wordless_of_isDigit digit).noLetter).1

theorem isLatinLetter_of_isDigit : isLatinLetter c = false := by
  have dotted : c ≠ '\u0130' := ne_of_isDigit digit (by decide)
  have dotless : c ≠ '\u0131' := ne_of_isDigit digit (by decide)
  have long : c ≠ '\u017F' := ne_of_isDigit digit (by decide)
  have kelvin : c ≠ '\u212A' := ne_of_isDigit digit (by decide)
  simp [isLatinLetter, isAlpha_of_isDigit digit, dotted, dotless, long, kelvin]

theorem sameLetter_of_isDigit {k : Char} (noDigit : isDigit k = false) :
    sameLetter k c = false := by
  have letter := isLatinLetter_of_isDigit digit
  simp only [isLatinLetter, Char.isAlpha, Bool.or_eq_false_iff] at letter
  obtain ⟨⟨⟨⟨⟨small, -⟩, dotted⟩, dotless⟩, long⟩, kelvin⟩ := letter
  simp [sameLetter, ne_of_isDigit digit noDigit, small, dotted, dotless, long, kelvin]

end Digit

/-- A plain number: digits with an optional fraction, or a fraction alone. -/
inductive IsNumeral : Text → Prop where
  | decimal {t : Text} : IsDecimal t → IsNumeral t
  | fraction {places : Text} : IsDigits places → IsNumeral ('.' :: places)

namespace Keyword

theorem ne_nil_of_spanDecimal? {t digits rest : Text}
    (read : spanDecimal? t = some (digits, rest)) : digits ≠ [] := by
  unfold spanDecimal? at read
  dsimp only at read
  split at read
  · cases read
  next filled =>
    split at read
    · split at read
      · obtain ⟨rfl, -⟩ := Prod.mk.inj (Option.some.inj read)
        simpa using filled
      · obtain ⟨rfl, -⟩ := Prod.mk.inj (Option.some.inj read)
        simp
    · obtain ⟨rfl, -⟩ := Prod.mk.inj (Option.some.inj read)
      simpa using filled

theorem append_of_spanNumber? {t digits rest : Text} (read : spanNumber? t = some (digits, rest)) :
    digits ++ rest = t ∧ digits ≠ [] := by
  unfold spanNumber? at read
  split at read
  next tail =>
    dsimp only at read
    split at read
    · cases read
    · obtain ⟨rfl, rfl⟩ := Prod.mk.inj (Option.some.inj read)
      exact ⟨congrArg ('.' :: ·) List.takeWhile_append_dropWhile, List.cons_ne_nil _ _⟩
  next =>
    exact ⟨(append_of_spanDecimal? read).1, ne_nil_of_spanDecimal? read⟩

theorem fractionFollows_of_endsNumber {t : Text} (ends : EndsNumber t) :
    fractionFollows t = false := by
  unfold fractionFollows
  split
  next c rest =>
    have noPoint := (ends '.' rfl).2
    exact absurd rfl noPoint
  next => rfl

theorem scoreFollows_cons_cons {mark d : Char} (marked : mark = '-' ∨ mark = ':')
    (digit : isDigit d = true) (rest : Text) : scoreFollows (mark :: d :: rest) = true := by
  have skipped : skipBlanks (d :: rest) = d :: rest :=
    List.dropWhile_cons_of_neg (by simp [(wordless_of_isDigit digit).solid])
  have solid : skipBlanks (mark :: d :: rest) = mark :: d :: rest := by
    rcases marked with rfl | rfl <;> rfl
  rw [scoreFollows, solid]
  simp [skipped, marked, digit]

theorem skipBlanks_suffix (t : Text) : skipBlanks t <:+ t := List.dropWhile_suffix isBlank

theorem length_lt_of_number? {t digits rest : Text} (read : number? t = some (digits, rest)) :
    rest.length < t.length := by
  obtain ⟨⟨digits', rest'⟩, spanned, checked⟩ := Option.bind_eq_some_iff.mp read
  obtain ⟨-, -, same⟩ := Option.bind_eq_some_iff.mp checked
  obtain ⟨rfl, rfl⟩ := Prod.mk.inj (Option.some.inj same)
  obtain ⟨parts, filled⟩ := append_of_spanNumber? spanned
  have positive := List.length_pos_iff.mpr filled
  rw [← parts, List.length_append]
  omega

theorem length_lt_of_nextNumber? {t digits rest : Text}
    (read : nextNumber? t = some (digits, rest)) : rest.length < t.length := by
  have behind := (skipBlanks_suffix t).length_le
  unfold nextNumber? at read
  split at read
  next tail front =>
    rw [front, List.length_cons] at behind
    exact ((length_lt_of_number? read).trans_le (skipBlanks_suffix tail).length_le).trans behind
  next tail front =>
    rw [front, List.length_cons] at behind
    exact ((length_lt_of_number? read).trans_le (skipBlanks_suffix tail).length_le).trans behind
  next =>
    split at read
    next shorter => exact (length_lt_of_number? read).trans shorter
    next => cases read

end Keyword

namespace IsNumeral

variable {t rest : Text}

theorem exists_cons (h : IsNumeral t) : ∃ c tail, t = c :: tail ∧ (isDigit c = true ∨ c = '.') := by
  cases h with
  | decimal number =>
    obtain ⟨c, tail, rfl, digit⟩ := number.exists_cons
    exact ⟨c, tail, rfl, .inl digit⟩
  | @fraction places digits => exact ⟨'.', places, rfl, .inr rfl⟩

theorem isDigit_or_point (h : IsNumeral t) : ∀ c ∈ t, isDigit c = true ∨ c = '.' := by
  cases h with
  | decimal number => exact number.isDigit_or_point
  | fraction digits =>
    intro c hc
    rcases List.mem_cons.mp hc with rfl | hc
    · exact .inr rfl
    · exact .inl (digits.2 c hc)

theorem spanNumber?_append (h : IsNumeral t) (ends : EndsNumber rest) :
    Keyword.spanNumber? (t ++ rest) = some (t, rest) := by
  cases h with
  | decimal number =>
    have spanned := number.spanDecimal?_append ends
    obtain ⟨c, tail, rfl, digit⟩ := number.exists_cons
    have noPoint : c ≠ '.' := ne_of_isDigit digit (by decide)
    rw [← spanned]
    simp [Keyword.spanNumber?, noPoint]
  | @fraction places digits =>
    obtain ⟨taken, left⟩ := span_append digits.2 fun c hc => (ends c hc).1
    simp [Keyword.spanNumber?, taken, left, digits.1]

theorem number?_append (h : IsNumeral t) (ends : EndsNumber rest) : Keyword.number? (t ++ rest) =
    if Keyword.scoreFollows rest then none else some (t, rest) := by
  rw [Keyword.number?, h.spanNumber?_append ends]
  cases follows : Keyword.scoreFollows rest <;>
    simp [Keyword.fractionFollows_of_endsNumber ends, follows]

end IsNumeral

end Wager
