import Wager.Proofs.Slip.Led
import Wager.Proofs.Slip.Score
import Wager.Proofs.Slip.Typed

/-!
# Scores are left alone

No keyword takes a number of a score.  A pattern that spares scores matches nowhere inside one,
matches in front of one what it matches in front of any other, and behind one looks no further
back than to see whether a digit is ASCII.  Every pattern of the extraction spares scores, so a
score in front of the remark is kept as it is, and what is read does not hang on it.
-/

namespace Wager

open Text

/-- Two runs of digits with a dash or colon between them. -/
inductive IsScore : Text → Prop where
  | between {home away : Text} {mark : Char} :
    IsDigits home → mark = '-' ∨ mark = ':' → IsDigits away → IsScore (home ++ mark :: away)

def isScoreChar (c : Char) : Bool := isDigit c || c == '-' || c == ':'

namespace IsScore

variable {s : Text} (h : IsScore s)
include h

theorem isScoreChar : ∀ c ∈ s, isScoreChar c = true := by
  cases h with
  | between home mark away =>
    intro c hc
    rcases List.mem_append.mp hc with hc | hc
    · simp [Wager.isScoreChar, home.2 c hc]
    · rcases List.mem_cons.mp hc with rfl | hc
      · rcases mark with rfl | rfl <;> rfl
      · simp [Wager.isScoreChar, away.2 c hc]

theorem beginsScore (rest : Text) : BeginsScore (s.head?.any Char.isDigit) (s ++ rest) := by
  cases h with
  | @between home away mark homes marked aways =>
    obtain ⟨d, away', rfl, second⟩ := aways.exists_cons
    have ends : EndsNumber (mark :: d :: (away' ++ rest)) := by
      rintro e ⟨⟩
      rcases marked with rfl | rfl <;> decide
    have number := (IsNumeral.decimal (.whole homes)).number?_append ends
    rw [Keyword.scoreFollows_cons_cons marked second, if_pos rfl] at number
    obtain ⟨c, home', rfl, first⟩ := homes.exists_cons
    refine ⟨⟨c, _, rfl, first, rfl⟩, ?_⟩
    simpa using number

theorem ne_nil : s ≠ [] := by
  cases h
  simp

theorem solid : ∀ c ∈ s, isBlank c = false := by
  intro c hc
  have char := h.isScoreChar c hc
  simp only [Wager.isScoreChar, Bool.or_eq_true, beq_iff_eq] at char
  rcases char with (digit | rfl) | rfl
  · exact (wordless_of_isDigit digit).solid
  · rfl
  · rfl

theorem exists_getLast : ∃ c, s.getLast? = some c ∧ isDigit c = true := by
  cases h with
  | @between home away mark homes marked aways =>
    have some_digit := aways.1
    refine ⟨away.getLast some_digit, ?_, aways.2 _ (List.getLast_mem some_digit)⟩
    rw [List.getLast?_append_of_ne_nil _ (List.cons_ne_nil mark away),
      List.getLast?_cons_of_ne_nil some_digit, List.getLast?_eq_getLast_of_ne_nil some_digit]

end IsScore

/-- Another score with ASCII digits on the same ends. -/
structure Alike (score other : Text) : Prop where
  isScore : IsScore other
  front : other.head?.any Char.isDigit = score.head?.any Char.isDigit
  back : other.getLast?.any Char.isDigit = score.getLast?.any Char.isDigit

theorem Alike.refl {score : Text} (h : IsScore score) : Alike score score := ⟨h, rfl, rfl⟩

namespace Keyword

variable {β γ δ : Type}

/-- A word without digits that begins with no character of a score. -/
def isScoreless (w : Text) : Bool := w.head?.any (!isScoreChar ·) && w.all (!isDigit ·)

section Words

variable {w : Text} (scoreless : isScoreless w = true)
include scoreless

theorem digitless_of_isScoreless : Digitless w := by
  have digitless := (Bool.and_eq_true_iff.mp scoreless).2
  simpa [Digitless] using digitless

theorem exists_of_isScoreless : ∃ k tail, w = k :: tail ∧ isScoreChar k = false := by
  have front := (Bool.and_eq_true_iff.mp scoreless).1
  cases w with
  | nil => cases front
  | cons k tail => exact ⟨k, tail, rfl, by simpa using front⟩

theorem afterWord?_of_isScoreChar {c : Char} (char : isScoreChar c = true) (rest : Text) :
    afterWord? w (c :: rest) = none := by
  obtain ⟨k, tail, rfl, noChar⟩ := exists_of_isScoreless scoreless
  simp only [isScoreChar, Bool.or_eq_false_iff, beq_eq_false_iff_ne] at noChar
  have other : sameLetter k c = false := by
    simp only [isScoreChar, Bool.or_eq_true, beq_iff_eq] at char
    rcases char with (digit | rfl) | rfl
    · exact sameLetter_of_isDigit digit noChar.1.1
    · simp [sameLetter, Ne.symm noChar.1.2]
    · simp [sameLetter, Ne.symm noChar.2]
  rw [afterWord?, other]
  rfl

theorem mark?_of_isScoreChar {c : Char} (char : isScoreChar c = true) (rest : Text) :
    mark? w (c :: rest) = none := by
  obtain ⟨k, tail, rfl, noChar⟩ := exists_of_isScoreless scoreless
  have other : k ≠ c := by
    rintro rfl
    rw [char] at noChar
    cases noChar
  rw [mark?, isPrefixOf_cons_of_ne other, if_neg Bool.false_ne_true]

end Words

/-- Whether a pattern leaves scores alone: what it reads in front of one does not hang on it, it
matches nowhere in one, and behind one all that counts is whether the last digit is ASCII. -/
structure Spares (p : Pattern β) : Prop where
  reads : ∀ before, Reads (p before)
  misses : ∀ {s}, IsScore s → ∀ before rest, p.Misses before s rest
  behind : ∀ {c d}, SameKind c d → p (some c) = p (some d)

theorem misses_of_starts {p : Pattern β} {s : Text} (chars : ∀ c ∈ s, isScoreChar c = true)
    (starts : ∀ {c}, isScoreChar c = true → ∀ before rest, p before (c :: rest) = none)
    (before : Option Char) (rest : Text) : p.Misses before s rest := by
  induction s generalizing before with
  | nil => trivial
  | cons c s ih =>
    obtain ⟨first, later⟩ := List.forall_mem_cons.mp chars
    exact ⟨starts first before _, ih later (some c)⟩

theorem Led.spares {ws ms : List Text} {p : Pattern β} (h : Led ws ms p)
    (scoreless : (ws ++ ms).all isScoreless = true) (reads : ∀ before, Reads (p before)) :
    Spares p where
  reads := reads
  misses scored := misses_of_starts scored.isScoreChar fun char before rest =>
    have scoreless (w : Text) (hw : w ∈ ws ++ ms) : isScoreless w = true :=
      List.all_eq_true.mp scoreless w hw
    h.nothing
      (fun w hw => afterWord?_of_isScoreChar (scoreless w (List.mem_append_left _ hw)) char rest)
      (fun m hm => mark?_of_isScoreChar (scoreless m (List.mem_append_right _ hm)) char rest) before
  behind := h.behind

theorem spares_numbersAfter {ws ms : List Text} {lead : Option Char → Text → Option Text}
    (led : Led ws ms lead) (scoreless : (ws ++ ms).all isScoreless = true)
    (passes : ∀ before, Passes (lead before)) : Spares (numbersAfter lead) :=
  (led.bind _).spares scoreless fun before =>
    (passes before).bind (keeps_skipAssign.reads reads_numbers?)

theorem startsNumber_of_isScoreChar {c : Char} (char : isScoreChar c = true) :
    startsNumber (some c) = false := by
  simp only [isScoreChar, Bool.or_eq_true, beq_iff_eq] at char
  rcases char with (digit | rfl) | rfl <;> simp [startsNumber, *]

theorem numberBefore_of_isScoreChar {c : Char} (char : isScoreChar c = true)
    (trail : Text → Option Text) (t : Text) : numberBefore trail (some c) t = none := by
  rw [numberBefore, startsNumber_of_isScoreChar char]
  rfl

theorem misses_numberBefore {s : Text} (chars : ∀ c ∈ s, isScoreChar c = true) {before : Char}
    (char : isScoreChar before = true) (trail : Text → Option Text) (rest : Text) :
    (numberBefore trail).Misses (some before) s rest := by
  induction s generalizing before with
  | nil => trivial
  | cons c s ih =>
    obtain ⟨first, later⟩ := List.forall_mem_cons.mp chars
    exact ⟨numberBefore_of_isScoreChar char trail _, ih later first⟩

theorem spares_numberBefore {trail : Text → Option Text} (passes : Passes trail) :
    Spares (numberBefore trail) where
  reads before := by
    have behind (digits : Text) :
        Reads fun t => (trail (skipBlanks t)).bind fun t => some ([digits], t) :=
      (keeps_skipBlanks.passes passes).bind (keeps_id.pure [digits])
    exact (tests_const (startsNumber before)).reads (reads_number?.bind behind)
  misses {s} scored before rest := by
    have chars := scored.isScoreChar
    have numberless := (scored.beginsScore rest).numberless
    obtain ⟨c, tail, rfl⟩ := List.exists_cons_of_ne_nil scored.ne_nil
    obtain ⟨first, later⟩ := List.forall_mem_cons.mp chars
    refine ⟨?_, misses_numberBefore later first trail rest⟩
    rw [numberBefore, ← List.cons_append, numberless]
    cases startsNumber before <;> rfl
  behind {c d} same := by
    funext t
    rw [numberBefore_of_isScoreChar (by simp [isScoreChar, same.left]),
      numberBefore_of_isScoreChar (by simp [isScoreChar, same.right])]

section Sides

variable {w : Text} {value : Text → Option (β × Text)}

theorem reads_sided {side : Text → Option (Side × Text)} (hs : Reads side) (hv : Reads value) :
    Reads fun t => (side t).bind fun a => (value a.2).bind fun b => some ((a.1, b.1), b.2) :=
  hs.bind fun s => hv.bind fun v => keeps_id.pure (s, v)

theorem reads_side : Reads fun t => sideWord? t <|> sideCharacter? t :=
  reads_sideWord?.orElse reads_sideCharacter?

theorem spares_sideAfter (scoreless : isScoreless w = true) (h : Reads value) :
    Spares (sided (sideAfter w) value) := by
  have behind : Reads fun t => (sideWord? t <|> sideCharacter? t).bind fun a =>
      some (a.1, skipAssign a.2) := reads_side.bind fun side => keeps_skipAssign.pure side
  have keyword : Reads fun t => (afterWord? w t).bind fun t =>
      (sideWord? (skipJoints t) <|> sideCharacter? (skipJoints t)).bind fun a =>
        some (a.1, skipAssign a.2) :=
    (passes_afterWord? (digitless_of_isScoreless scoreless)).bind (keeps_skipJoints.reads behind)
  have side (before : Option Char) : Reads (sideAfter w before) :=
    (tests_const (standsFree before)).reads keyword
  exact (led_sideAfter w value).spares (by simp [scoreless]) fun before =>
    reads_sided (side before) h

theorem spares_sideBefore (digitless : Digitless w) (h : Reads value) :
    Spares (sided (sideBefore w) value) := by
  have front (before : Option Char) : Reads fun t =>
      (if standsFree before then sideWord? t else none) <|> sideCharacter? t := by
    cases standsFree before with
    | false => exact reads_none.orElse reads_sideCharacter?
    | true => exact reads_side
  have keyword (side : Side) : Reads fun t => (afterWord? w (skipJoints t)).bind fun t =>
      some (side, skipAssign t) :=
    keeps_skipJoints.reads ((passes_afterWord? digitless).bind (keeps_skipAssign.pure side))
  have side (before : Option Char) : Reads (sideBefore w before) := (front before).bind keyword
  exact (led_sideBefore w value).spares (by decide) fun before => reads_sided (side before) h

end Sides

theorem spares_codesAfter : Spares codesAfter := by
  have pair (first : Tys) := reads_endingCode?.nextItem?.map fun second => [first, second]
  have single (first : Tys) := tests_endsWord.reads (keeps_id.pure [first])
  have keyword := (passes_afterWord? (w := "tys".toList) (by decide)).bind
    (keeps_skipAssign.reads (reads_code?.bind fun first => (pair first).orElse (single first)))
  rw [← secondCode?_eq] at keyword
  refine led_codesAfter.spares (by decide) fun before =>
    (tests_const (standsFree before)).reads (cast (congrArg Reads (funext fun t => ?_)) keyword)
  refine congrArg _ (funext fun rest => congrArg _ (funext fun first => ?_))
  dsimp only
  cases secondCode? first.2 <;> rfl

end Keyword

end Wager
