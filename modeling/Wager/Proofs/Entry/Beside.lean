import Wager.Proofs.Entry.Line

/-!
# Words beside lines

A word and a line are written in either order, with a space between them or none.  Such texts are
in the form of a name already, and no reader of scores, pairs or results understands them.
-/

namespace Wager

open Text

/-- A word and a line side by side, in either order, joined or a space apart. -/
def sideBySide (word line : Text) : List Text :=
  [word ++ line, line ++ word, word ++ ' ' :: line, line ++ ' ' :: word]

def IsGap (t : Text) : Prop := t = [] ∨ t = [' ']

theorem isGap_nil : IsGap [] := .inl rfl

theorem isGap_space : IsGap [' '] := .inr rfl

theorem mem_sideBySide {word line t : Text} (ht : t ∈ sideBySide word line) :
    ∃ gap, IsGap gap ∧ (t = word ++ (gap ++ line) ∨ t = line ++ (gap ++ word)) := by
  simp only [sideBySide, List.mem_cons, List.not_mem_nil, or_false] at ht
  rcases ht with rfl | rfl | rfl | rfl
  · exact ⟨[], isGap_nil, .inl rfl⟩
  · exact ⟨[], isGap_nil, .inr rfl⟩
  · exact ⟨[' '], isGap_space, .inl rfl⟩
  · exact ⟨[' '], isGap_space, .inr rfl⟩

theorem IsGap.skipBlanks_append {gap t : Text} (h : IsGap gap)
    (front : ∀ c ∈ t.head?, isBlank c = false) : skipBlanks (gap ++ t) = t := by
  rcases h with rfl | rfl
  · exact dropWhile_of_front front
  · rw [skipBlanks, List.singleton_append, List.dropWhile_cons_of_pos (by decide)]
    exact dropWhile_of_front front

/-- A text without commas that is the name of an entry as it stands. -/
structure IsPlainName (t : Text) : Prop extends IsName t where
  filled : t ≠ []
  commaless : ',' ∉ t

namespace IsPlainName

variable {x y t : Text}

theorem normalizeName_eq (h : IsPlainName t) : normalizeName t = t :=
  h.toIsName.normalizeName_eq (spaceCommas_of_notMem h.commaless)

theorem of_solid (filled : t ≠ []) (solid : ∀ c ∈ t, halfWidth c = c ∧ isSeparator c = false) :
    IsPlainName t where
  plain c hc := (solid c hc).1
  spaced := by
    have unblank : ∀ c ∈ t, isBlank c = false :=
      fun c hc => isBlank_eq_false_of_isSeparator (solid c hc).2
    constructor
    · intro c hc blank
      rw [unblank c hc] at blank
      cases blank
    · rw [List.isChain_iff_getElem]
      intro i hi _
      exact unblank _ (List.getElem_mem _)
  ends := ⟨fun c hc => (solid c (List.mem_of_mem_head? hc)).2,
    fun c hc => (solid c (List.mem_of_mem_getLast? hc)).2⟩
  filled := filled
  commaless comma := absurd (solid _ comma).2 (by decide)

/-- Two names side by side make up a name, and so do two names with a space between them. -/
theorem append {gap : Text} (single : IsGap gap) (hx : IsPlainName x)
    (hy : IsPlainName y) : IsPlainName (x ++ (gap ++ y)) where
  plain := by
    intro c hc
    simp only [List.mem_append] at hc
    rcases hc with hc | hc | hc
    · exact hx.plain c hc
    · rcases single with rfl | rfl
      · cases hc
      · rw [List.mem_singleton.mp hc]
        rfl
    · exact hy.plain c hc
  spaced := by
    have behind : SingleSpaced (gap ++ y) := by
      rcases single with rfl | rfl
      · exact hy.spaced
      · exact (SingleSpaced.singleton fun _ => rfl).append hy.spaced (.inr hy.bare.front)
    exact hx.spaced.append behind (.inl hx.bare.back)
  ends := by
    obtain ⟨c, x', rfl⟩ := List.exists_cons_of_ne_nil hx.filled
    constructor
    · exact hx.ends.front
    · intro d hd
      apply hy.ends.back d
      rw [List.getLast?_append, List.getLast?_append] at hd
      rw [List.getLast?_eq_some_getLast hy.filled] at hd ⊢
      exact hd
  filled := by
    simp [hx.filled]
  commaless := by
    rcases single with rfl | rfl
    · simp [hx.commaless, hy.commaless]
    · simp [hx.commaless, hy.commaless]

theorem of_mem_sideBySide (hx : IsPlainName x) (hy : IsPlainName y) (ht : t ∈ sideBySide x y) :
    IsPlainName t := by
  obtain ⟨gap, single, rfl | rfl⟩ := mem_sideBySide ht
  · exact hx.append single hy
  · exact hy.append single hx

end IsPlainName

section

variable {c : Char} {w line t : Text}

theorem isSeparator_of_isWordChar (h : isWordChar c = true) : isSeparator c = false := by
  rw [isSeparator, isBlank_of_isWordChar h, Bool.or_false, Bool.or_eq_false_iff,
    beq_eq_false_iff_ne, beq_eq_false_iff_ne]
  constructor <;> rintro rfl <;> revert h <;> decide

theorem isSeparator_of_isDigit (h : isDigit c = true) : isSeparator c = false := by
  rw [isSeparator, (wordless_of_isDigit h).solid, Bool.or_false, Bool.or_eq_false_iff,
    beq_eq_false_iff_ne, beq_eq_false_iff_ne]
  constructor <;> rintro rfl <;> revert h <;> decide

theorem isPlainName_of_isWord (h : isWord w = true) : IsPlainName w := by
  rw [isWord_iff] at h
  exact .of_solid h.1 fun c hc =>
    ⟨halfWidth_of_isWordChar (h.2 c hc), isSeparator_of_isWordChar (h.2 c hc)⟩

theorem IsLine.solid (h : IsLine line) :
    ∀ c ∈ line, halfWidth c = c ∧ isSeparator c = false := by
  intro c hc
  rcases h.isDigit_or_mark c hc with digit | mark
  · exact ⟨halfWidth_of_isDigit digit, isSeparator_of_isDigit digit⟩
  · simp only [List.mem_cons, List.not_mem_nil, or_false] at mark
    rcases mark with rfl | rfl | rfl <;> decide

theorem IsLine.isPlainName (h : IsLine line) : IsPlainName line := .of_solid h.ne_nil h.solid

theorem mem_of_mem_sideBySide (hc : c ∈ line) (ht : t ∈ sideBySide w line) : c ∈ t := by
  obtain ⟨gap, -, rfl | rfl⟩ := mem_sideBySide ht <;> simp [hc]

theorem endsNumber_append {gap : Text} (single : IsGap gap) (word : isWord w = true) :
    EndsNumber (gap ++ w) := by
  rcases single with rfl | rfl
  · intro c hc
    have letter := (isWord_iff.mp word).2 c (List.mem_of_mem_head? hc)
    refine ⟨isDigit_of_isWordChar letter, ?_⟩
    rintro rfl
    revert letter
    decide
  · rintro c ⟨⟩
    decide

end

namespace Reading

variable {α : Type} {t : Text}

theorem ofScore?_of_front (front : ∀ c ∈ t.head?, isDigit c = false) :
    ofScore? (α := α) t = none := by
  obtain ⟨nothing, -⟩ := span_append (x := []) (by simp) front
  rw [List.nil_append] at nothing
  rw [ofScore?, nothing]
  dsimp only
  split <;> simp

theorem ofScore?_of_notMem (dash : '-' ∉ t) (colon : ':' ∉ t) : ofScore? (α := α) t = none := by
  rw [ofScore?]
  split
  next mark rest cut =>
    have inside : mark ∈ t :=
      (List.dropWhile_sublist _).subset ((List.dropWhile_sublist _).subset
        (cut ▸ List.mem_cons_self : mark ∈ skipBlanks (t.dropWhile isDigit)))
    have unmarked : (mark == '-' || mark == ':') = false := by
      rw [Bool.or_eq_false_iff, beq_eq_false_iff_ne, beq_eq_false_iff_ne]
      constructor
      · rintro rfl
        exact dash inside
      · rintro rfl
        exact colon inside
    simp [unmarked]
  next => rfl

theorem ofScore?_sideBySide {w line : Text} (word : isWord w = true) (number : IsLine line)
    (ht : t ∈ sideBySide w line) : ofScore? (α := α) t = none := by
  rw [isWord_iff] at word
  obtain ⟨c, w, rfl⟩ := List.exists_cons_of_ne_nil word.1
  have letter : ∀ d ∈ some c, isDigit d = false := by
    rintro d ⟨⟩
    exact isDigit_of_isWordChar (word.2 c List.mem_cons_self)
  obtain ⟨gap, single, ht⟩ := mem_sideBySide ht
  cases number with
  | @signed mark _ sign _ =>
    -- Neither a word nor a sign begins a score.
    have mark : ∀ d ∈ some mark, isDigit d = false := by
      rintro _ ⟨⟩
      rcases sign with rfl | rfl <;> decide
    rcases ht with rfl | rfl
    · exact ofScore?_of_front letter
    · exact ofScore?_of_front mark
  | unsigned digits =>
    have free {d : Char} (noDigit : isDigit d = false) (noLetter : isWordChar d = false)
        (other : d ≠ '.' ∧ d ≠ ' ') : d ∉ t := by
      have inLine : d ∉ line := by
        intro hd
        rcases digits.isDigit_or_point d hd with digit | point
        · rw [noDigit] at digit
          cases digit
        · exact other.1 point
      have inWord : d ∉ c :: w := by
        intro hd
        rw [word.2 d hd] at noLetter
        cases noLetter
      have inGap : d ∉ gap := by
        rcases single with rfl | rfl <;> simp [other.2]
      rcases ht with rfl | rfl
      · simp only [List.mem_append, inWord, inGap, inLine, or_self, not_false_eq_true]
      · simp only [List.mem_append, inWord, inGap, inLine, or_self, not_false_eq_true]
    exact ofScore?_of_notMem (free (by decide) (by decide) (by decide))
      (free (by decide) (by decide) (by decide))

theorem ofName_of_digit [Scalar α] {c : Char} (digit : isDigit c = true) (hc : c ∈ t)
    (score : ofScore? (α := α) t = none) :
    ofName (α := α) t = (ofHandicap? t <|> ofTotal? t).getD .other := by
  have wordless := wordless_of_isDigit digit
  have apart : c ∉ ['-', '/', '|', '>', '→'] := by
    intro joiner
    simp only [List.mem_cons, List.not_mem_nil, or_false] at joiner
    rcases joiner with rfl | rfl | rfl | rfl | rfl <;> revert digit <;> decide
  simp [ofName, score, ofHalfFull?_eq_none wordless apart hc, ofResult?,
    wordless.ofToken?_eq_none hc]

end Reading

end Wager
