import Wager.Proofs.Entry.Foreign

/-!
# Words and digits

Spellings are typed in any letter case.  A text that is a spelling in lower case is made of word
letters, so every reader takes it for one word.  Digits, of whatever script, are in no word.
-/

namespace Wager

open Text

section Characters

variable {c : Char}

theorem isWordChar_iff : isWordChar c = true ↔ (0x41 ≤ c.toNat ∧ c.toNat ≤ 0x5A) ∨
    (0x61 ≤ c.toNat ∧ c.toNat ≤ 0x7A) ∨ (0x4E00 ≤ c.toNat ∧ c.toNat ≤ 0x9FA5) := by
  simp only [isWordChar, Char.isAlpha, Char.isUpper, Char.isLower, Char.toNat, Bool.or_eq_true,
    Bool.and_eq_true, decide_eq_true_eq, ge_iff_le, UInt32.le_iff_toNat_le, or_assoc]
  rfl

theorem exists_base_of_isDigit (h : isDigit c = true) :
    ∃ base ∈ digitZeros, base ≤ c.toNat ∧ c.toNat ≤ base + 9 := by
  unfold isDigit digit? at h
  split at h
  next =>
    split at h
    next digit =>
      simp only [Char.isDigit, Bool.and_eq_true, decide_eq_true_eq, ge_iff_le,
        UInt32.le_iff_toNat_le] at digit
      exact ⟨0x30, by decide, digit.1, digit.2⟩
    next => cases h
  next =>
    rw [Option.isSome_map, List.find?_isSome] at h
    obtain ⟨base, member, within⟩ := h
    simp only [Bool.and_eq_true, decide_eq_true_eq] at within
    exact ⟨base, member, within.1, Nat.le_of_lt_succ within.2⟩

private theorem digitZeros_apart : ∀ base ∈ digitZeros, (base = 0x30 ∨ 0x660 ≤ base) ∧
    (base + 9 < 0x1680 ∨ 0x1680 < base) ∧ (base + 9 < 0x2000 ∨ 0x3000 < base) ∧
    (base + 9 < 0x4E00 ∨ 0x9FA5 < base) := by
  decide

set_option maxRecDepth 20000 in
private theorem digitZeros_caseless : (digitZeros.all fun base => lowerRanges.all fun r =>
    r.last.blt base || (base + 9).blt r.first) = true := by
  decide

private theorem lowerChar_of_isDigit (h : isDigit c = true) (noLetter : isWordChar c = false) :
    lowerChar c = [c] := by
  obtain ⟨base, member, low, high⟩ := exists_base_of_isDigit h
  have uncovered : lowerRanges.find? (·.covers c.toNat) = none := by
    rw [List.find?_eq_none]
    intro r hr
    have apart := List.all_eq_true.mp (List.all_eq_true.mp digitZeros_caseless base member) r hr
    simp only [Bool.or_eq_true, Nat.blt_eq] at apart
    simp only [CaseRange.covers, Bool.and_eq_true, decide_eq_true_eq]
    omega
  have small : c.isUpper = false := by
    simp only [isWordChar, Char.isAlpha, Bool.or_eq_false_iff] at noLetter
    exact noLetter.1.1
  have undotted : c ≠ '\u0130' := by
    rintro rfl
    revert h
    decide
  simp [lowerChar, small, undotted, CaseRange.apply, uncovered]

theorem wordless_of_isDigit (h : isDigit c = true) : Wordless c := by
  obtain ⟨base, member, low, high⟩ := exists_base_of_isDigit h
  obtain ⟨latin, blank, space, ideograph⟩ := digitZeros_apart base member
  have noLetter : isWordChar c = false := by
    rw [Bool.eq_false_iff, ne_eq, isWordChar_iff]
    omega
  constructor
  · simp only [isBlank, Bool.or_eq_false_iff, Bool.and_eq_false_iff, decide_eq_false_iff_not,
      beq_eq_false_iff_ne]
    omega
  · exact noLetter
  · rintro rfl
    revert h
    decide
  · exact lowerChar_of_isDigit h noLetter

theorem isDigit_of_isWordChar (h : isWordChar c = true) : isDigit c = false := by
  by_contra digit
  have noLetter := (wordless_of_isDigit (by simpa using digit)).noLetter
  rw [h] at noLetter
  cases noLetter

theorem isBlank_of_isWordChar (h : isWordChar c = true) : isBlank c = false := by
  rw [isWordChar_iff] at h
  simp only [isBlank, Bool.or_eq_false_iff, Bool.and_eq_false_iff, decide_eq_false_iff_not,
    beq_eq_false_iff_ne]
  omega

private def fullWidthMarks : List Char :=
  ['，', '；', '。', '：', '（', '）', '／', '“', '”', '‘', '’', '—', '–', '－', '﹣', '−', '　']

private theorem halfWidth_eq_self {p : Char → Bool} (h : p c = true)
    (marks : fullWidthMarks.all (!p ·) = true) : halfWidth c = c := by
  have unmarked : c ∉ fullWidthMarks := by
    intro mark
    have no := List.all_eq_true.mp marks c mark
    simp [h] at no
  unfold halfWidth
  split
  case h_18 => rfl
  all_goals simp [fullWidthMarks] at unmarked

theorem halfWidth_of_isDigit (h : isDigit c = true) : halfWidth c = c :=
  halfWidth_eq_self h (by rfl)

theorem halfWidth_of_isWordChar (h : isWordChar c = true) : halfWidth c = c :=
  halfWidth_eq_self h (by rfl)

set_option maxRecDepth 4000 in
/-- Beyond the ASCII letters no capital has a small form that is a word letter or a blank, but for
the sign of the kelvin, whose small form is the letter k. -/
private theorem lowerRanges_apart : ∀ r ∈ lowerRanges, r.last < 0x80 ∨
    (r.first = 0x212A ∧ r.last = 0x212A ∧ r.shift = -8383) ∨
    0xA0 < r.first + r.shift ∧ (r.last + r.shift < 0x1680 ∨ 0x1680 < r.first + r.shift) ∧
      (r.last + r.shift < 0x2000 ∨ 0x205F < r.first + r.shift) ∧
      (r.last + r.shift < 0x3000 ∨ 0x3000 < r.first + r.shift) ∧
      (r.last + r.shift < 0x4E00 ∨ 0x9FA5 < r.first + r.shift) := by
  decide

/-- A character beyond ASCII and its small form: the same character, the letter k or neither a word
letter nor a blank. -/
private theorem apply_lowerRanges (beyond : 0x80 ≤ c.toNat) :
    CaseRange.apply lowerRanges c = c ∨ CaseRange.apply lowerRanges c = 'k' ∨
      isWordChar (CaseRange.apply lowerRanges c) = false ∧
        isBlank (CaseRange.apply lowerRanges c) = false := by
  unfold CaseRange.apply
  split
  next r found =>
    right
    have covered := List.find?_some found
    simp only [CaseRange.covers, Bool.and_eq_true, decide_eq_true_eq] at covered
    rcases lowerRanges_apart r (List.mem_of_find?_eq_some found) with low | kelvin | apart
    · omega
    · obtain ⟨first, last, shift⟩ := kelvin
      have code : c.toNat = 0x212A := by omega
      rw [shift, code]
      exact .inl rfl
    · right
      rw [Bool.eq_false_iff, ne_eq, isWordChar_iff, isBlank]
      simp only [Bool.or_eq_false_iff, Bool.and_eq_false_iff, decide_eq_false_iff_not,
        beq_eq_false_iff_ne, Char.toNat_ofNat]
      split <;> omega
  next => exact .inl rfl

theorem isWordChar_of_lowerChar (h : ∀ d ∈ lowerChar c, isWordChar d = true ∧ d ≠ 'k') :
    isWordChar c = true := by
  unfold lowerChar at h
  split at h
  next =>
    obtain ⟨word, -⟩ := h _ List.mem_cons_self
    split at word
    next capital => simp [isWordChar, Char.isAlpha, capital]
    next => exact word
  next beyond =>
    split at h
    next => exact absurd (h '\u0307' (by simp)).1 (by decide)
    next =>
      obtain ⟨word, other⟩ := h _ List.mem_cons_self
      rcases apply_lowerRanges (not_lt.mp beyond) with same | kelvin | apart
      · rwa [same] at word
      · exact absurd kelvin other
      · rw [apart.1] at word
        cases word

theorem isBlank_of_lowerChar (solid : isBlank c = false) :
    ∀ d ∈ lowerChar c, isBlank d = false := by
  unfold lowerChar
  split
  next =>
    intro d hd
    rw [List.mem_singleton.mp hd]
    split
    next capital =>
      simp only [Char.isUpper, decide_eq_true_eq, ge_iff_le, UInt32.le_iff_toNat_le] at capital
      apply isBlank_of_isWordChar
      rw [isWordChar_iff, Char.toNat_ofNat]
      have low : 65 ≤ c.toNat := capital.1
      have high : c.toNat ≤ 90 := capital.2
      have valid : (c.toNat + 32).isValidChar := .inl (by omega)
      rw [if_pos valid]
      omega
    next => exact solid
  next beyond =>
    split
    next =>
      intro d hd
      rcases List.mem_pair.mp hd with rfl | rfl <;> rfl
    next =>
      intro d hd
      rw [List.mem_singleton.mp hd]
      rcases apply_lowerRanges (not_lt.mp beyond) with same | kelvin | apart
      · rwa [same]
      · rw [kelvin]
        rfl
      · exact apart.2

end Characters

section Words

variable {t w : Text}

theorem lower_eq_flatMap (h : '\u03A3' ∉ t) : lower t = t.flatMap lowerChar := by
  suffices flat : ∀ before, lowerFrom before t = t.flatMap lowerChar from flat []
  intro before
  induction t generalizing before with
  | nil => rfl
  | cons c rest ih =>
    obtain ⟨other, later⟩ := not_or.mp (mt List.mem_cons.mpr h)
    rw [lowerFrom, if_neg (by simpa using Ne.symm other), ih later, List.flatMap_cons]

/-- What the lower case of a text says of the text, character by character.  No capital sigma is
behind a lower case in which neither small sigma may be. -/
theorem forall_of_lowerFrom {p q : Char → Prop} (chars : ∀ c, (∀ d ∈ lowerChar c, p d) → q c)
    (medial : ¬p '\u03C3') (final : ¬p '\u03C2') {before : Text}
    (h : ∀ d ∈ lowerFrom before t, p d) : ∀ c ∈ t, q c := by
  induction t generalizing before with
  | nil => simp
  | cons c rest ih =>
    rw [lowerFrom] at h
    split at h
    next =>
      have sigma := h _ List.mem_cons_self
      split at sigma
      · exact absurd sigma final
      · exact absurd sigma medial
    next =>
      have front := chars c fun d hd => h d (List.mem_append_left _ hd)
      have later := ih fun d hd => h d (List.mem_append_right _ hd)
      exact List.forall_mem_cons.mpr ⟨front, later⟩

theorem isWordChar_of_lower (h : ∀ d ∈ lower w, isWordChar d = true ∧ d ≠ 'k') :
    ∀ c ∈ w, isWordChar c = true :=
  forall_of_lowerFrom (fun _ => isWordChar_of_lowerChar) (by decide) (by decide) h

theorem isBlank_or_isWordChar_of_lower
    (h : ∀ d ∈ lower t, isBlank d = false → isWordChar d = true ∧ d ≠ 'k') :
    ∀ c ∈ t, isBlank c = true ∨ isWordChar c = true := by
  refine forall_of_lowerFrom (fun c small => ?_) (by decide) (by decide) h
  rw [or_iff_not_imp_left, Bool.not_eq_true]
  exact fun solid =>
    isWordChar_of_lowerChar fun d hd => small d hd (isBlank_of_lowerChar solid d hd)

theorem isWord_iff : isWord w = true ↔ w ≠ [] ∧ ∀ c ∈ w, isWordChar c = true := by
  simp [isWord]

private theorem isWord_of_letters {v : Text} (filled : v ≠ [])
    (letters : ∀ d ∈ v, isWordChar d = true ∧ d ≠ 'k') (h : lower w = v) : isWord w = true := by
  subst h
  refine isWord_iff.mpr ⟨?_, isWordChar_of_lower letters⟩
  rintro rfl
  exact filled rfl

theorem Outcome.letters_of_mem_spellings {o : Outcome} {v : Text} (h : v ∈ o.spellings) :
    ∀ d ∈ v, isWordChar d = true ∧ d ≠ 'k' := by
  have all : (o.spellings.all fun v => v.all fun d => isWordChar d && d != 'k') = true := by
    cases o <;> rfl
  simpa using List.all_eq_true.mp all v h

theorem Direction.letters_of_mem_spellings {d : Direction} {v : Text} (h : v ∈ d.spellings) :
    ∀ c ∈ v, isWordChar c = true ∧ c ≠ 'k' := by
  have all : (d.spellings.all fun v => v.all fun c => isWordChar c && c != 'k') = true := by
    cases d <;> rfl
  simpa using List.all_eq_true.mp all v h

theorem Outcome.isWord_of_lower {o : Outcome} (h : lower w ∈ o.spellings) : isWord w = true := by
  refine isWord_of_letters ?_ (o.letters_of_mem_spellings h) rfl
  exact (isWord_iff.mp (o.isWord_of_mem_spellings h)).1

theorem Direction.isWord_of_lower {d : Direction} (h : lower w ∈ d.spellings) :
    isWord w = true := by
  refine isWord_of_letters ?_ (d.letters_of_mem_spellings h) rfl
  intro empty
  rw [empty] at h
  revert h
  cases d <;> decide

theorem isBlank_of_mem_lower (h : ∀ c ∈ w, isWordChar c = true) :
    ∀ d ∈ lower w, isBlank d = false := by
  have free : '\u03A3' ∉ w := fun sigma => absurd (h _ sigma) (by decide)
  rw [lower_eq_flatMap free]
  intro d hd
  obtain ⟨c, hc, inside⟩ := List.mem_flatMap.mp hd
  exact isBlank_of_lowerChar (isBlank_of_isWordChar (h c hc)) d inside

theorem compact_of_word (h : ∀ c ∈ w, isWordChar c = true) : compact w = lower w := by
  have bare : trim w = w := by
    apply BareEnds.trimWhere_eq
    constructor
    · exact fun c hc => isBlank_of_isWordChar (h c (List.mem_of_mem_head? hc))
    · exact fun c hc => isBlank_of_isWordChar (h c (List.mem_of_mem_getLast? hc))
  rw [compact, bare, squeeze, List.filter_eq_self]
  exact fun c hc => by simp [isBlank_of_mem_lower h c hc]

theorem Outcome.ofToken?_of_lower {o : Outcome} (h : lower w ∈ o.spellings) :
    Outcome.ofToken? w = some o := by
  have own : (o.spellings.all fun v => Outcome.ofSpelling? v == some o) = true := by
    cases o <;> rfl
  rw [Outcome.ofToken?, compact_of_word (isWord_iff.mp (o.isWord_of_lower h)).2]
  simpa using List.all_eq_true.mp own _ h

theorem Direction.ofToken?_of_lower {d : Direction} (h : lower w ∈ d.spellings) :
    Outcome.ofToken? w = none := by
  have other : (d.spellings.all fun v => (Outcome.ofSpelling? v).isNone) = true := by
    cases d <;> rfl
  have spelled := List.all_eq_true.mp other _ h
  rw [Outcome.ofToken?, compact_of_word (isWord_iff.mp (d.isWord_of_lower h)).2]
  exact Option.isNone_iff_eq_none.mp spelled

theorem Direction.ofShortSpelling?_of_lower {d : Direction} (h : lower w ∈ d.spellings) :
    Direction.ofShortSpelling? w = if lower w ∈ d.shortSpellings then some d else none := by
  have own : (d.spellings.all fun v => Direction.all.find? (·.shortSpellings.contains v) ==
      if d.shortSpellings.contains v then some d else none) = true := by
    cases d <;> rfl
  have spelled := List.all_eq_true.mp own _ h
  rw [beq_iff_eq] at spelled
  rw [Direction.ofShortSpelling?, spelled]
  simp

end Words

end Wager
