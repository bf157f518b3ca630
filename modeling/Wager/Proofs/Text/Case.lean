import Wager.Proofs.Entry.Word

/-!
# Letter case

What reads a text does so in any case of its ASCII letters: cutting, trimming and spacing take no
notice of them, and lower case forgets them.
-/

namespace Wager.Text

def foldCase (t : Text) : Text := t.map Char.toLower

section

variable {c : Char} {t : Text}

@[simp] theorem foldCase_nil : foldCase [] = [] := rfl

@[simp] theorem foldCase_cons : foldCase (c :: t) = c.toLower :: foldCase t := rfl

@[simp] theorem length_foldCase : (foldCase t).length = t.length := List.length_map _

@[simp] theorem foldCase_eq_nil : foldCase t = [] ↔ t = [] := List.map_eq_nil_iff

@[simp] theorem isEmpty_foldCase : (foldCase t).isEmpty = t.isEmpty := List.isEmpty_map

theorem foldCase_eq_self (small : ∀ c ∈ t, c.toLower = c) : foldCase t = t := by
  rw [foldCase, List.map_congr_left small, List.map_id']

end

section Characters

def capitals : List Char := "ABCDEFGHIJKLMNOPQRSTUVWXYZ".toList

theorem mem_capitals {c : Char} (h : c.isUpper = true) : c ∈ capitals := by
  simp only [Char.isUpper, decide_eq_true_eq, ge_iff_le, UInt32.le_iff_toNat_le] at h
  have low : 65 ≤ c.toNat := h.1
  have high : c.toNat ≤ 90 := h.2
  rw [← Char.ofNat_toNat c]
  generalize c.toNat = n at low high
  interval_cases n <;> decide

/-- A function of characters that is the same on both cases of a letter. -/
def CaseBlind {β : Type} (f : Char → β) : Prop := ∀ c, f c.toLower = f c

theorem caseBlind_of_all {β : Type} [BEq β] [LawfulBEq β] {f : Char → β}
    (h : (capitals.all fun c => f c.toLower == f c) = true) : CaseBlind f := by
  intro c
  by_cases capital : c.isUpper = true
  · exact beq_iff_eq.mp (List.all_eq_true.mp h c (mem_capitals capital))
  · rw [Char.toLower_eq_of_not_isUpper capital]

theorem caseBlind_isBlank : CaseBlind isBlank := caseBlind_of_all (by rfl)

theorem caseBlind_isSeparator : CaseBlind isSeparator := caseBlind_of_all (by rfl)

theorem caseBlind_digit? : CaseBlind digit? := caseBlind_of_all (by rfl)

theorem caseBlind_isDigit : CaseBlind isDigit :=
  fun c => congrArg Option.isSome (caseBlind_digit? c)

theorem caseBlind_isWordChar : CaseBlind isWordChar := caseBlind_of_all (by rfl)

theorem caseBlind_lowerChar : CaseBlind lowerChar := caseBlind_of_all (by rfl)

private theorem caseBlind_cased : CaseBlind (inRanges casedRanges) := caseBlind_of_all (by rfl)

set_option maxRecDepth 2000 in
private theorem caseBlind_skipped : CaseBlind (inRanges skippedRanges) :=
  caseBlind_of_all (by rfl)

theorem CaseBlind.not {p : Char → Bool} (h : CaseBlind p) : CaseBlind (!p ·) :=
  fun c => congrArg Bool.not (h c)

theorem toLower_of_not_isAlpha {c : Char} (h : c.isAlpha = false) : c.toLower = c := by
  apply Char.toLower_eq_of_not_isUpper
  intro capital
  rw [Char.isAlpha, capital, Bool.true_or] at h
  cases h

theorem toLower_eq_iff {m : Char} (mark : m.isAlpha = false) (c : Char) :
    c.toLower = m ↔ c = m := by
  constructor
  · intro h
    apply (Char.toLower_eq_of_not_isUpper _).symm.trans h
    intro capital
    have letter : c.toLower.isAlpha = true := by
      simp [Char.isAlpha, capital]
    rw [h, mark] at letter
    cases letter
  · rintro rfl
    exact toLower_of_not_isAlpha mark

theorem caseBlind_beq {m : Char} (mark : m.isAlpha = false) : CaseBlind (· == m) := by
  intro c
  by_cases h : c = m <;> simp [h, toLower_eq_iff mark]

end Characters

section Cutting

variable {p : Char → Bool} {t : Text}

theorem CaseBlind.comp_toLower (h : CaseBlind p) : p ∘ Char.toLower = p := funext h

theorem takeWhile_foldCase (h : CaseBlind p) :
    (foldCase t).takeWhile p = foldCase (t.takeWhile p) := by
  rw [foldCase, List.takeWhile_map, h.comp_toLower, foldCase]

theorem dropWhile_foldCase (h : CaseBlind p) :
    (foldCase t).dropWhile p = foldCase (t.dropWhile p) := by
  rw [foldCase, List.dropWhile_map, h.comp_toLower, foldCase]

theorem filter_foldCase (h : CaseBlind p) : (foldCase t).filter p = foldCase (t.filter p) := by
  rw [foldCase, List.filter_map, h.comp_toLower, foldCase]

theorem all_foldCase (h : CaseBlind p) : (foldCase t).all p = t.all p := by
  rw [foldCase, List.all_map, h.comp_toLower]

theorem trimWhere_foldCase (h : CaseBlind p) :
    trimWhere p (foldCase t) = foldCase (trimWhere p t) := by
  have reverse_foldCase (t : Text) : (foldCase t).reverse = foldCase t.reverse :=
    List.map_reverse.symm
  rw [trimWhere, dropWhile_foldCase h, reverse_foldCase, dropWhile_foldCase h, reverse_foldCase,
    trimWhere]

theorem trim_foldCase : trim (foldCase t) = foldCase (trim t) :=
  trimWhere_foldCase caseBlind_isBlank

theorem skipBlanks_foldCase : skipBlanks (foldCase t) = foldCase (skipBlanks t) :=
  dropWhile_foldCase caseBlind_isBlank

theorem squeeze_foldCase : squeeze (foldCase t) = foldCase (squeeze t) :=
  filter_foldCase caseBlind_isBlank.not

theorem collapse_foldCase : collapse (foldCase t) = foldCase (collapse t) := by
  suffices runs : ∀ inRun, collapseFrom inRun (foldCase t) = foldCase (collapseFrom inRun t) from
    runs false
  intro inRun
  induction t generalizing inRun with
  | nil => rfl
  | cons c t ih =>
    rw [foldCase_cons, collapseFrom, collapseFrom, caseBlind_isBlank c, ih, ih]
    split
    · split
      · rfl
      · rfl
    · rfl

theorem splitWhere_foldCase (h : CaseBlind p) :
    splitWhere p (foldCase t) = (splitWhere p t).map foldCase := by
  induction t with
  | nil => rfl
  | cons c t ih =>
    rw [foldCase_cons, splitWhere_cons, splitWhere_cons, h c, ih]
    split
    · rfl
    · cases splitWhere p t with
      | nil => rfl
      | cons piece more => rfl

theorem words_foldCase : words (foldCase t) = (words t).map foldCase := by
  rw [words, splitWhere_foldCase caseBlind_isBlank, List.filter_map, words]
  congr 2
  funext piece
  simp

section Marks

variable {mark : Char} (noLetter : mark.isAlpha = false)
include noLetter

theorem dropBlanksBefore_foldCase :
    dropBlanksBefore mark (foldCase t) = foldCase (dropBlanksBefore mark t) := by
  induction t with
  | nil => rfl
  | cons c t ih =>
    have front : ((dropBlanksBefore mark (foldCase t)).head? == some mark) =
        ((dropBlanksBefore mark t).head? == some mark) := by
      rw [ih]
      cases dropBlanksBefore mark t with
      | nil => rfl
      | cons d rest => exact caseBlind_beq noLetter d
    show (if isBlank c.toLower && (dropBlanksBefore mark (foldCase t)).head? == some mark
      then dropBlanksBefore mark (foldCase t)
      else c.toLower :: dropBlanksBefore mark (foldCase t)) =
      foldCase (if isBlank c && (dropBlanksBefore mark t).head? == some mark
        then dropBlanksBefore mark t else c :: dropBlanksBefore mark t)
    rw [front, caseBlind_isBlank c, ih]
    split
    · rfl
    · rfl

theorem dropBlanksAfter_foldCase :
    dropBlanksAfter mark (foldCase t) = foldCase (dropBlanksAfter mark t) := by
  suffices runs : ∀ behind,
      dropBlanksBehind mark behind (foldCase t) = foldCase (dropBlanksBehind mark behind t) from
    runs false
  intro behind
  induction t generalizing behind with
  | nil => rfl
  | cons c t ih =>
    have same : (c.toLower == mark) = (c == mark) := caseBlind_beq noLetter c
    rw [foldCase_cons, dropBlanksBehind, dropBlanksBehind, caseBlind_isBlank c, same, ih, ih]
    split
    · rfl
    · rfl

end Marks

theorem spaceCommas_foldCase : spaceCommas (foldCase t) = foldCase (spaceCommas t) := by
  have comma (c : Char) : (if c.toLower == ',' then [',', ' '] else [c.toLower]) =
      foldCase (if c == ',' then [',', ' '] else [c]) := by
    have same : (c.toLower == ',') = (c == ',') := caseBlind_beq (by rfl) c
    rw [same]
    split
    · rfl
    · rfl
  rw [spaceCommas, dropBlanksBefore_foldCase (by rfl), dropBlanksAfter_foldCase (by rfl),
    spaceCommas, foldCase, List.flatMap_map, foldCase, List.map_flatMap]
  exact List.flatMap_congr fun c _ => comma c

end Cutting

section Lowering

variable {t : Text}

private theorem meetsCased_foldCase : meetsCased (foldCase t) = meetsCased t := by
  have skipped : (foldCase t).find? (!inRanges skippedRanges ·) =
      (t.find? (!inRanges skippedRanges ·)).map Char.toLower := by
    rw [foldCase, List.find?_map, caseBlind_skipped.not.comp_toLower]
  rw [meetsCased, skipped, meetsCased]
  cases t.find? (!inRanges skippedRanges ·) with
  | none => rfl
  | some c => exact caseBlind_cased c

/-- Lower case forgets the case of ASCII letters.  A letter is cased in either case, so a sigma
takes the same form behind it. -/
theorem lower_foldCase : lower (foldCase t) = lower t := by
  suffices runs : ∀ before, lowerFrom (foldCase before) (foldCase t) = lowerFrom before t from
    runs []
  intro before
  induction t generalizing before with
  | nil => rfl
  | cons c t ih =>
    have sigma : (c.toLower == '\u03A3') = (c == '\u03A3') := caseBlind_beq (by rfl) c
    have later := ih (c :: before)
    rw [foldCase_cons] at later
    rw [foldCase_cons, lowerFrom, lowerFrom, sigma, meetsCased_foldCase, meetsCased_foldCase,
      caseBlind_lowerChar c, later]

private theorem lowerChar_of_ascii {c : Char} (h : c.toNat < 0x80) : lowerChar c = [c.toLower] := by
  by_cases capital : c.isUpper = true
  · have all : (capitals.all fun c => lowerChar c == [c.toLower]) = true := by rfl
    exact beq_iff_eq.mp (List.all_eq_true.mp all c (mem_capitals capital))
  · rw [lowerChar, if_pos h, if_neg capital, Char.toLower_eq_of_not_isUpper capital]

theorem lower_of_ascii (h : ∀ c ∈ t, c.toNat < 0x80) : lower t = foldCase t := by
  have free : '\u03A3' ∉ t := fun sigma => absurd (h _ sigma) (by decide)
  rw [lower_eq_flatMap free, List.flatMap_congr fun c hc => lowerChar_of_ascii (h c hc), foldCase,
    List.map_eq_flatMap]

theorem compact_foldCase : compact (foldCase t) = compact t := by
  rw [compact, trim_foldCase, lower_foldCase, compact]

end Lowering

section Normalizing

variable {t : Text}

/-- The normal form of a name depends on its half-width marks and its small letters alone, but for
the case of its own letters. -/
theorem foldCase_normalizeName :
    foldCase (normalizeName t) =
      trimWhere isSeparator (spaceCommas (trim (collapse (foldCase (t.map halfWidth))))) := by
  rw [collapse_foldCase, trim_foldCase, spaceCommas_foldCase,
    trimWhere_foldCase caseBlind_isSeparator]
  rfl

end Normalizing

end Wager.Text
