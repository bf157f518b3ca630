import Wager.Proofs.Entry.Word

/-!
# Lines

The numbers of handicaps and totals: digits, an optional fraction and, in handicaps, an optional
sign.  Put in front of anything that cannot continue it, a line is split off whole.
-/

namespace Wager

open Text

def IsDigits (t : Text) : Prop := t ≠ [] ∧ ∀ c ∈ t, isDigit c = true

/-- An unsigned line: digits with an optional fraction. -/
inductive IsDecimal : Text → Prop where
  | whole {t : Text} : IsDigits t → IsDecimal t
  | fraction {t places : Text} : IsDigits t → IsDigits places → IsDecimal (t ++ '.' :: places)

inductive IsLine : Text → Prop where
  | unsigned {t : Text} : IsDecimal t → IsLine t
  | signed {sign : Char} {t : Text} : sign = '+' ∨ sign = '-' → IsDecimal t → IsLine (sign :: t)

def EndsNumber (t : Text) : Prop := ∀ c ∈ t.head?, isDigit c = false ∧ c ≠ '.'

theorem endsNumber_nil : EndsNumber [] := by
  rintro c ⟨⟩

variable {line rest : Text}

/-- What satisfies a condition and what begins with something that does not are told apart. -/
theorem span_append {p : Char → Bool} {x y : Text} (all : ∀ c ∈ x, p c = true)
    (front : ∀ c ∈ y.head?, p c = false) :
    (x ++ y).takeWhile p = x ∧ (x ++ y).dropWhile p = y := by
  have behind := dropWhile_of_front front
  have nothing : y.takeWhile p = [] := by
    cases y with
    | nil => rfl
    | cons c y => rw [List.takeWhile_cons_of_neg (by simp [front c rfl])]
  rw [List.takeWhile_append_of_pos all, List.dropWhile_append_of_pos all, nothing, behind]
  exact ⟨List.append_nil x, rfl⟩

theorem IsDigits.exists_cons {t : Text} (h : IsDigits t) :
    ∃ c tail, t = c :: tail ∧ isDigit c = true := by
  obtain ⟨c, tail, rfl⟩ := List.exists_cons_of_ne_nil h.1
  exact ⟨c, tail, rfl, h.2 c List.mem_cons_self⟩

namespace IsDecimal

theorem exists_cons (h : IsDecimal line) : ∃ c tail, line = c :: tail ∧ isDigit c = true := by
  cases h with
  | whole digits => exact digits.exists_cons
  | fraction digits places =>
    obtain ⟨c, tail, rfl, digit⟩ := digits.exists_cons
    exact ⟨c, _, rfl, digit⟩

theorem isDigit_or_point (h : IsDecimal line) : ∀ c ∈ line, isDigit c = true ∨ c = '.' := by
  intro c hc
  cases h with
  | whole digits => exact .inl (digits.2 c hc)
  | fraction digits places =>
    rcases List.mem_append.mp hc with hc | hc
    · exact .inl (digits.2 c hc)
    · rcases List.mem_cons.mp hc with rfl | hc
      · exact .inr rfl
      · exact .inl (places.2 c hc)

theorem spanDecimal?_append (h : IsDecimal line) (ends : EndsNumber rest) :
    spanDecimal? (line ++ rest) = some (line, rest) := by
  have free : ∀ c ∈ rest.head?, isDigit c = false := fun c hc => (ends c hc).1
  unfold spanDecimal?
  dsimp only
  cases h with
  | whole digits =>
    obtain ⟨taken, left⟩ := span_append digits.2 free
    rw [taken, left, if_neg (by simpa using digits.1)]
    split
    next point =>
      have other := (ends '.' (by simp)).2
      exact absurd rfl other
    next => rfl
  | @fraction t places digits more =>
    have point : ∀ c ∈ ('.' :: places ++ rest).head?, isDigit c = false := by
      rintro c ⟨⟩
      rfl
    obtain ⟨taken, left⟩ := span_append digits.2 point
    obtain ⟨inner, outer⟩ := span_append more.2 free
    rw [List.append_assoc, taken, left, if_neg (by simpa using digits.1)]
    change (if ((places ++ rest).takeWhile isDigit).isEmpty then some (t, '.' :: (places ++ rest))
      else some (t ++ '.' :: (places ++ rest).takeWhile isDigit,
        (places ++ rest).dropWhile isDigit)) = _
    rw [inner, outer, if_neg (by simpa using more.1)]

end IsDecimal

namespace IsLine

theorem ne_nil (h : IsLine line) : line ≠ [] := by
  cases h with
  | unsigned number =>
    obtain ⟨c, tail, rfl, -⟩ := number.exists_cons
    exact List.cons_ne_nil c tail
  | signed _ _ => exact List.cons_ne_nil _ _

theorem isDigit_or_mark (h : IsLine line) :
    ∀ c ∈ line, isDigit c = true ∨ c ∈ ['.', '+', '-'] := by
  intro c hc
  cases h with
  | unsigned number =>
    refine (number.isDigit_or_point c hc).imp_right ?_
    rintro rfl
    simp
  | signed sign number =>
    rcases List.mem_cons.mp hc with rfl | hc
    · right
      rcases sign with rfl | rfl <;> simp
    · refine (number.isDigit_or_point c hc).imp_right ?_
      rintro rfl
      simp

theorem isWordChar_eq_false (h : IsLine line) : ∀ c ∈ line, isWordChar c = false := by
  intro c hc
  rcases h.isDigit_or_mark c hc with digit | mark
  · exact (wordless_of_isDigit digit).noLetter
  · simp only [List.mem_cons, List.not_mem_nil, or_false] at mark
    rcases mark with rfl | rfl | rfl <;> decide

theorem exists_digit (h : IsLine line) : ∃ c ∈ line, isDigit c = true := by
  cases h with
  | unsigned number =>
    obtain ⟨c, tail, rfl, digit⟩ := number.exists_cons
    exact ⟨c, List.mem_cons_self, digit⟩
  | signed _ number =>
    obtain ⟨c, tail, rfl, digit⟩ := number.exists_cons
    exact ⟨c, List.mem_cons_of_mem _ List.mem_cons_self, digit⟩

theorem spanLine?_append (h : IsLine line) (ends : EndsNumber rest) :
    spanLine? (line ++ rest) = some (line, rest) := by
  cases h with
  | unsigned number =>
    have split := number.spanDecimal?_append ends
    obtain ⟨c, tail, rfl, digit⟩ := number.exists_cons
    have unsigned : (c == '+' || c == '-') = false := by
      rw [Bool.or_eq_false_iff, beq_eq_false_iff_ne, beq_eq_false_iff_ne]
      constructor <;> rintro rfl <;> revert digit <;> decide
    rw [List.cons_append] at split ⊢
    rw [spanLine?, unsigned, if_neg Bool.false_ne_true, split]
  | signed sign number =>
    have marked : (‹Char› == '+' || ‹Char› == '-') = true := by
      rcases sign with rfl | rfl <;> rfl
    rw [List.cons_append, spanLine?, marked, if_pos rfl, number.spanDecimal?_append ends]
    rfl

end IsLine

theorem spanDecimal?_of_front {t : Text} (front : ∀ c ∈ t.head?, isDigit c = false) :
    spanDecimal? t = none := by
  obtain ⟨nothing, -⟩ := span_append (x := []) (by simp) front
  rw [List.nil_append] at nothing
  simp [spanDecimal?, nothing]

theorem spanLine?_of_digitless {t : Text} (digitless : ∀ c ∈ t, isDigit c = false) :
    spanLine? t = none := by
  cases t with
  | nil => rfl
  | cons c t =>
    have later := spanDecimal?_of_front fun d hd =>
      digitless d (List.mem_cons_of_mem c (List.mem_of_mem_head? hd))
    have whole := spanDecimal?_of_front fun d hd => digitless d (List.mem_of_mem_head? hd)
    rw [spanLine?, later, whole]
    split <;> rfl

theorem spanLine?_of_front {c : Char} {t : Text} (letter : isWordChar c = true) :
    spanLine? (c :: t) = none := by
  have unsigned : (c == '+' || c == '-') = false := by
    rw [Bool.or_eq_false_iff, beq_eq_false_iff_ne, beq_eq_false_iff_ne]
    constructor <;> rintro rfl <;> revert letter <;> decide
  rw [spanLine?, unsigned, if_neg Bool.false_ne_true]
  apply spanDecimal?_of_front
  rintro d ⟨⟩
  exact isDigit_of_isWordChar letter

end Wager
