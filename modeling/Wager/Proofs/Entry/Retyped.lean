import Wager.Proofs.Entry.Result
import Wager.Proofs.Text.Case
import Wager.Scalar.Double

/-!
# Entries typed otherwise

The same entry can be typed in capitals or in small letters, and with full-width marks or with
half-width ones.  Every reader takes both for one bet, and where none understands the entry both
have one key.
-/

namespace Wager

open Text

section Parts

variable {c : Char} {t w : Text}

theorem toLower_of_isWordChar (h : isWordChar c = false) : c.toLower = c := by
  rw [isWordChar, Bool.or_eq_false_iff] at h
  exact toLower_of_not_isAlpha h.1

theorem toLower_of_isDigit (h : isDigit c = true) : c.toLower = c :=
  toLower_of_isWordChar (wordless_of_isDigit h).noLetter

theorem takeWhile_isDigit_foldCase : (foldCase t).takeWhile isDigit = t.takeWhile isDigit := by
  rw [takeWhile_foldCase caseBlind_isDigit]
  apply foldCase_eq_self
  intro c hc
  exact toLower_of_isDigit (List.mem_takeWhile_imp hc)

theorem isWord_foldCase : isWord (foldCase t) = isWord t := by
  rw [isWord, isEmpty_foldCase, all_foldCase caseBlind_isWordChar, isWord]

theorem Outcome.ofToken?_foldCase : ofToken? (foldCase w) = ofToken? w := by
  rw [ofToken?, compact_foldCase, ofToken?]

theorem Direction.ofShortSpelling?_foldCase :
    ofShortSpelling? (foldCase w) = ofShortSpelling? w := by
  rw [ofShortSpelling?, lower_foldCase, ofShortSpelling?]

theorem spanDecimal?_foldCase :
    spanDecimal? (foldCase t) = (spanDecimal? t).map (Prod.map id foldCase) := by
  unfold spanDecimal?
  dsimp only
  rw [takeWhile_isDigit_foldCase, dropWhile_foldCase caseBlind_isDigit]
  cases (t.takeWhile isDigit).isEmpty with
  | true => rfl
  | false =>
    cases t.dropWhile isDigit with
    | nil => rfl
    | cons c tail =>
      by_cases point : c = '.'
      · subst point
        have small : ('.').toLower = '.' := rfl
        rw [foldCase_cons, small]
        show (if ((foldCase tail).takeWhile isDigit).isEmpty = true
            then some (t.takeWhile isDigit, '.' :: foldCase tail)
            else some (t.takeWhile isDigit ++ '.' :: (foldCase tail).takeWhile isDigit,
              (foldCase tail).dropWhile isDigit)) =
          (if (tail.takeWhile isDigit).isEmpty = true then some (t.takeWhile isDigit, '.' :: tail)
            else some (t.takeWhile isDigit ++ '.' :: tail.takeWhile isDigit,
              tail.dropWhile isDigit)).map (Prod.map id foldCase)
        rw [takeWhile_isDigit_foldCase, dropWhile_foldCase caseBlind_isDigit]
        cases (tail.takeWhile isDigit).isEmpty with
        | true => rfl
        | false => rfl
      · have other : c.toLower ≠ '.' := by simpa [toLower_eq_iff] using point
        simp [point, other]

theorem spanLine?_foldCase :
    spanLine? (foldCase t) = (spanLine? t).map (Prod.map id foldCase) := by
  cases t with
  | nil => rfl
  | cons c t =>
    have plus : (c.toLower == '+') = (c == '+') := caseBlind_beq (by rfl) c
    have minus : (c.toLower == '-') = (c == '-') := caseBlind_beq (by rfl) c
    have whole := spanDecimal?_foldCase (t := c :: t)
    rw [foldCase_cons] at whole
    rw [foldCase_cons, spanLine?, spanLine?, plus, minus, whole, spanDecimal?_foldCase]
    split
    next sign =>
      have small : c.toLower = c := by
        apply toLower_of_isWordChar
        simp only [Bool.or_eq_true, beq_iff_eq] at sign
        rcases sign with rfl | rfl <;> rfl
      rw [small, Option.map_map, Option.map_map]
      rfl
    next => rfl

end Parts

namespace Reading

variable {α : Type} {t : Text}

theorem ofScore?_foldCase : ofScore? (α := α) (foldCase t) = ofScore? t := by
  unfold ofScore?
  dsimp only
  rw [takeWhile_isDigit_foldCase, dropWhile_foldCase caseBlind_isDigit, skipBlanks_foldCase]
  cases skipBlanks (t.dropWhile isDigit) with
  | nil => rfl
  | cons mark rest =>
    have dash : (mark.toLower == '-') = (mark == '-') := caseBlind_beq (by rfl) mark
    have colon : (mark.toLower == ':') = (mark == ':') := caseBlind_beq (by rfl) mark
    rw [foldCase_cons]
    dsimp only
    rw [dash, colon, skipBlanks_foldCase, length_foldCase, all_foldCase caseBlind_isDigit]
    cases digits : (skipBlanks rest).all isDigit with
    | true =>
      have small : foldCase (skipBlanks rest) = skipBlanks rest := by
        apply foldCase_eq_self
        intro c hc
        exact toLower_of_isDigit (List.all_eq_true.mp digits c hc)
      rw [small]
    | false => simp

theorem ofWords?_foldCase {half full : Text} :
    ofWords? (α := α) (foldCase half) (foldCase full) = ofWords? half full := by
  rw [ofWords?, Outcome.ofToken?_foldCase, Outcome.ofToken?_foldCase, ofWords?]

theorem dashed_foldCase : dashed (foldCase t) = foldCase (dashed t) := by
  have joined : ((foldCase t).map fun c =>
        if c == '/' || c == '|' || c == '>' || c == '→' then '-' else c) =
      foldCase (t.map fun c =>
        if c == '/' || c == '|' || c == '>' || c == '→' then '-' else c) := by
    rw [foldCase, foldCase, List.map_map, List.map_map]
    apply List.map_congr_left
    intro c _
    have blind {m : Char} (mark : m.isAlpha = false) : (c.toLower == m) = (c == m) :=
      caseBlind_beq mark c
    simp only [Function.comp_apply, blind (m := '/') rfl, blind (m := '|') rfl,
      blind (m := '>') rfl, blind (m := '→') rfl]
    split
    · rfl
    · rfl
  rw [dashed, joined, dropBlanksBefore_foldCase (by rfl), dropBlanksAfter_foldCase (by rfl), dashed]

theorem ofDashedPair?_foldCase : ofDashedPair? (α := α) (foldCase t) = ofDashedPair? t := by
  rw [ofDashedPair?, splitWhere_foldCase (caseBlind_beq (by rfl)), ofDashedPair?]
  rcases splitWhere (· == '-') t with _ | ⟨half, _ | ⟨full, _ | ⟨more, rest⟩⟩⟩
  · rfl
  · rfl
  · simp only [List.map_cons, List.map_nil, isWord_foldCase, ofWords?_foldCase]
  · rfl

theorem ofSpacedPair?_foldCase : ofSpacedPair? (α := α) (foldCase t) = ofSpacedPair? t := by
  rw [ofSpacedPair?, words_foldCase, ofSpacedPair?]
  rcases words t with _ | ⟨half, _ | ⟨full, _ | ⟨more, rest⟩⟩⟩
  · rfl
  · rfl
  · exact ofWords?_foldCase
  · rfl

theorem caseBlind_isPairLetter : CaseBlind isPairLetter := caseBlind_of_all (by rfl)

theorem caseBlind_isPairCharacter : CaseBlind isPairCharacter := caseBlind_of_all (by rfl)

theorem ofPairedCharacters?_foldCase :
    ofPairedCharacters? (α := α) (foldCase t) = ofPairedCharacters? t := by
  rcases t with _ | ⟨half, _ | ⟨full, _ | ⟨more, rest⟩⟩⟩
  · rfl
  · rfl
  · have pair : ofWords? (α := α) (foldCase [half]) (foldCase [full]) = ofWords? [half] [full] :=
      ofWords?_foldCase
    simp only [foldCase_cons, foldCase_nil] at pair
    rw [foldCase_cons, foldCase_cons, foldCase_nil, ofPairedCharacters?, ofPairedCharacters?,
      caseBlind_isPairLetter half, caseBlind_isPairLetter full, caseBlind_isPairCharacter half,
      caseBlind_isPairCharacter full, pair]
  · rfl

theorem ofJoinedWords?_foldCase : ofJoinedWords? (α := α) (foldCase t) = ofJoinedWords? t := by
  rw [ofJoinedWords?, lower_foldCase, ofJoinedWords?]

theorem ofHalfFull?_foldCase : ofHalfFull? (α := α) (foldCase t) = ofHalfFull? t := by
  have bare : (foldCase (dashed t)).filter (· != '-') =
      foldCase ((dashed t).filter (· != '-')) :=
    filter_foldCase (caseBlind_beq (by rfl)).not
  rw [ofHalfFull?, dashed_foldCase, bare, ofDashedPair?_foldCase, ofSpacedPair?_foldCase,
    ofPairedCharacters?_foldCase, ofJoinedWords?_foldCase]
  rfl

theorem dropHandicapWord_foldCase :
    dropHandicapWord (foldCase t) = foldCase (dropHandicapWord t) := by
  have blind {m : Char} (mark : m.isAlpha = false) (c : Char) : c.toLower = m ↔ c = m :=
    toLower_eq_iff mark c
  fun_induction dropHandicapWord t with
  | case1 rest ih => exact congrArg (' ' :: ·) ih
  | case2 rest alone ih =>
    have front : dropHandicapWord ('让' :: foldCase rest) =
        ' ' :: dropHandicapWord (foldCase rest) := by
      rw [dropHandicapWord]
      intro tail h
      cases rest with
      | nil => cases h
      | cons c rest =>
        rw [foldCase_cons, List.cons.injEq, blind rfl] at h
        exact alone rest (by rw [h.1])
    exact front.trans (congrArg (' ' :: ·) ih)
  | case3 c rest _ other ih =>
    have front : dropHandicapWord (c.toLower :: foldCase rest) =
        c.toLower :: dropHandicapWord (foldCase rest) := by
      rw [dropHandicapWord]
      · intro _ word _
        exact other ((blind rfl c).mp word)
      · intro word
        exact other ((blind rfl c).mp word)
    rw [foldCase_cons, front, ih, foldCase_cons]
  | case4 => rfl

theorem closeSigns_foldCase : closeSigns (foldCase t) = foldCase (closeSigns t) := by
  have step (c : Char) (u : Text) : closeSigns (c :: u) =
      if (c == '+' || c == '-') && (skipBlanks (closeSigns u)).head?.any isDigit
      then c :: skipBlanks (closeSigns u) else c :: closeSigns u := rfl
  induction t with
  | nil => rfl
  | cons c t ih =>
    have plus : (c.toLower == '+') = (c == '+') := caseBlind_beq (by rfl) c
    have minus : (c.toLower == '-') = (c == '-') := caseBlind_beq (by rfl) c
    have front : (foldCase (skipBlanks (closeSigns t))).head?.any isDigit =
        (skipBlanks (closeSigns t)).head?.any isDigit := by
      cases skipBlanks (closeSigns t) with
      | nil => rfl
      | cons d rest => exact caseBlind_isDigit d
    rw [foldCase_cons, step, step, plus, minus, ih, skipBlanks_foldCase, front]
    split
    · rfl
    · rfl

theorem handicapCore_foldCase : handicapCore (foldCase t) = foldCase (handicapCore t) := by
  have bare : (foldCase t).map (fun c => if c == '(' || c == ')' then ' ' else c) =
      foldCase (t.map fun c => if c == '(' || c == ')' then ' ' else c) := by
    rw [foldCase, foldCase, List.map_map, List.map_map]
    apply List.map_congr_left
    intro c _
    have left : (c.toLower == '(') = (c == '(') := caseBlind_beq (by rfl) c
    have right : (c.toLower == ')') = (c == ')') := caseBlind_beq (by rfl) c
    rw [Function.comp_apply, Function.comp_apply, left, right]
    split
    · rfl
    · rfl
  rw [handicapCore, bare, dropHandicapWord_foldCase, closeSigns_foldCase, collapse_foldCase,
    trim_foldCase, handicapCore]

variable [Scalar α]

theorem ofLeadingLine?_foldCase : ofLeadingLine? (α := α) (foldCase t) = ofLeadingLine? t := by
  rw [ofLeadingLine?, spanLine?_foldCase, ofLeadingLine?]
  cases spanLine? t with
  | none => rfl
  | some split =>
    simp [skipBlanks_foldCase, isWord_foldCase, Outcome.ofToken?_foldCase]

theorem ofTrailingLine?_foldCase : ofTrailingLine? (α := α) (foldCase t) = ofTrailingLine? t := by
  unfold ofTrailingLine?
  dsimp only
  rw [takeWhile_foldCase caseBlind_isWordChar, dropWhile_foldCase caseBlind_isWordChar,
    skipBlanks_foldCase, spanLine?_foldCase, isEmpty_foldCase, Outcome.ofToken?_foldCase]
  cases spanLine? (skipBlanks (t.dropWhile isWordChar)) with
  | none => rfl
  | some split => simp

theorem ofHandicap?_foldCase : ofHandicap? (α := α) (foldCase t) = ofHandicap? t := by
  rw [ofHandicap?, handicapCore_foldCase, ofLeadingLine?_foldCase, ofTrailingLine?_foldCase]
  rfl

theorem ofLeadingDirection?_foldCase :
    ofLeadingDirection? (α := α) (foldCase t) = ofLeadingDirection? t := by
  rw [ofLeadingDirection?, takeWhile_foldCase caseBlind_isDigit.not,
    dropWhile_foldCase caseBlind_isDigit.not, Direction.ofShortSpelling?_foldCase,
    spanDecimal?_foldCase, ofLeadingDirection?]
  cases spanDecimal? (t.dropWhile (!isDigit ·)) with
  | none => rfl
  | some split => simp

theorem ofTrailingDirection?_foldCase :
    ofTrailingDirection? (α := α) (foldCase t) = ofTrailingDirection? t := by
  rw [ofTrailingDirection?, spanDecimal?_foldCase, ofTrailingDirection?]
  cases spanDecimal? t with
  | none => rfl
  | some split => simp [Direction.ofShortSpelling?_foldCase]

theorem ofTotal?_foldCase : ofTotal? (α := α) (foldCase t) = ofTotal? t := by
  rw [ofTotal?, squeeze_foldCase, ofLeadingDirection?_foldCase, ofTrailingDirection?_foldCase]
  rfl

omit [Scalar α] in
theorem ofResult?_foldCase : ofResult? (α := α) (foldCase t) = ofResult? t := by
  rw [ofResult?, Outcome.ofToken?_foldCase, ofResult?]

theorem ofName_foldCase : ofName (α := α) (foldCase t) = ofName t := by
  rw [ofName, ofScore?_foldCase, ofHalfFull?_foldCase, ofHandicap?_foldCase, ofTotal?_foldCase,
    ofResult?_foldCase, ofName]

end Reading

section Retyping

variable {c d : Char} {s t : Text}

/-- The half-width marks that are typed in another width, or as another dash, too. -/
def variedMarks : List Char := [',', ';', ':', '(', ')', '/', '-']

/-- Whether `d` is typed for `c`: as it is, a letter in either case, a mark in any of its forms. -/
def Retyped (c d : Char) : Prop :=
  d = c ∨ (c.isAlpha = true ∧ d.toLower = c.toLower) ∨ (c ∈ variedMarks ∧ halfWidth d = c)

instance decidableRetyped : DecidableRel Retyped :=
  fun c d => inferInstanceAs (Decidable (d = c ∨ _ ∨ _))

theorem Retyped.toLower_halfWidth (h : Retyped c d) :
    (halfWidth d).toLower = (halfWidth c).toLower := by
  rcases h with rfl | ⟨letter, same⟩ | ⟨-, same⟩
  · rfl
  · have wordChar : isWordChar c = true := by simp [isWordChar, letter]
    have other : isWordChar d = true := by
      rw [← caseBlind_isWordChar d, same, caseBlind_isWordChar c, wordChar]
    rw [halfWidth_of_isWordChar wordChar, halfWidth_of_isWordChar other, same]
  · rw [← same, halfWidth_halfWidth]

theorem foldCase_normalizeName_of_retyped (h : List.Forall₂ Retyped s t) :
    foldCase (normalizeName t) = foldCase (normalizeName s) := by
  have typed : foldCase (t.map halfWidth) = foldCase (s.map halfWidth) := by
    induction h with
    | nil => rfl
    | cons first _ ih =>
      rw [List.map_cons, foldCase_cons, first.toLower_halfWidth, ih, List.map_cons, foldCase_cons]
  rw [foldCase_normalizeName, typed, foldCase_normalizeName]

variable {α : Type} [Scalar α]

/-- However the letters and the marks of an entry are typed, its market, its key and all that it
says are the same. -/
theorem Semantic.ofText_of_retyped (h : List.Forall₂ Retyped s t) :
    (ofText t : Semantic α).market = (ofText s : Semantic α).market ∧
      (ofText t : Semantic α).key = (ofText s : Semantic α).key ∧
      (ofText t : Semantic α).reading = (ofText s : Semantic α).reading := by
  have names := foldCase_normalizeName_of_retyped h
  have reading : (ofText t : Semantic α).reading = (ofText s : Semantic α).reading := by
    rw [ofText_eq, ofText_eq]
    dsimp only
    rw [← Reading.ofName_foldCase, names, Reading.ofName_foldCase]
  -- Only an entry that no reader understands has its own name in its key.
  have unread : compact (ofText t : Semantic α).name = compact (ofText s : Semantic α).name := by
    rw [ofText_eq, ofText_eq]
    dsimp only
    rw [← compact_foldCase, names, compact_foldCase]
  have same_market : (ofText t : Semantic α).market = (ofText s : Semantic α).market := by
    rw [market, reading, market]
  have same_key : (ofText t : Semantic α).key = (ofText s : Semantic α).key := by
    rw [key, reading, unread, key]
  exact ⟨same_market, same_key, reading⟩

/-- An away win with a handicap: the word in mixed case, wide brackets and a minus for a dash. -/
theorem Semantic.ofText_of_retyped_awayHandicap :
    List.Forall₂ Retyped "让球(-1)away".toList "让球（−1）aWaY".toList ∧
      (ofText "让球（−1）aWaY".toList : Semantic Float).market = .handicap ∧
      (ofText "让球（−1）aWaY".toList : Semantic Float).key = "-1:lose".toList := by
  have typed : List.Forall₂ Retyped "让球(-1)away".toList "让球（−1）aWaY".toList := by
    decide
  have same := ofText_of_retyped (α := Float) typed
  have reading : (ofText "让球(-1)away".toList : Semantic Float).reading =
      .handicap (-1.0) .lose := by
    decide
  have market : (ofText "让球(-1)away".toList : Semantic Float).market = .handicap := by
    rw [market, reading]
    rfl
  have key : (ofText "让球(-1)away".toList : Semantic Float).key = "-1:lose".toList := by
    rw [key, reading]
    decide
  exact ⟨typed, same.1.trans market, same.2.1.trans key⟩

end Retyping

end Wager
