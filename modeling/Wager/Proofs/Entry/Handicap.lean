import Wager.Proofs.Entry.Beside
import Wager.Scalar.Double

/-!
# Handicaps

An outcome and a line side by side are a handicap.  Brackets around the line, the handicap word in
front and the blanks they leave make no difference.
-/

namespace Wager

open Text

def bracketed (word line : Text) : List Text :=
  ['(' :: (line ++ ')' :: word), word ++ '(' :: (line ++ [')'])]

/-- The ways in which the handicap word is put in front, none included. -/
def handicapPrefixes : List Text :=
  [[], "让".toList, "让 ".toList, "让球".toList, "让球 ".toList]

namespace Reading

variable {α : Type} {w line t : Text}

/-- A handicap before its blanks are counted: brackets and the handicap word are spaces, and every
sign stands at its number. -/
def opened (t : Text) : Text :=
  closeSigns (dropHandicapWord (t.map fun c => if c == '(' || c == ')' then ' ' else c))

theorem handicapCore_eq (t : Text) : handicapCore t = trim (collapse (opened t)) := rfl

@[simp] theorem opened_nil : opened [] = [] := rfl

section Opened

theorem closeSigns_cons {c : Char} (plus : c ≠ '+') (minus : c ≠ '-') (t : Text) :
    closeSigns (c :: t) = c :: closeSigns t := by
  rw [closeSigns, List.foldr_cons, if_neg]
  · rfl
  · simp [plus, minus]

theorem opened_cons {c : Char} (plain : c ∉ ['(', ')', '让', '+', '-']) (t : Text) :
    opened (c :: t) = c :: opened t := by
  simp only [List.mem_cons, List.not_mem_nil, or_false, not_or] at plain
  obtain ⟨left, right, word, plus, minus⟩ := plain
  have bare : (if c == '(' || c == ')' then ' ' else c) = c := by
    simp [left, right]
  have kept (u : Text) : dropHandicapWord (c :: u) = c :: dropHandicapWord u := by
    rw [dropHandicapWord]
    · rintro _ rfl
      exact absurd rfl word
    · exact word
  rw [opened, List.map_cons, bare, kept, closeSigns_cons plus minus, opened]

theorem opened_append {x : Text} (plain : ∀ c ∈ x, c ∉ ['(', ')', '让', '+', '-']) (t : Text) :
    opened (x ++ t) = x ++ opened t := by
  induction x with
  | nil => rfl
  | cons c x ih =>
    rw [List.cons_append, opened_cons (plain c List.mem_cons_self),
      ih fun d hd => plain d (List.mem_cons_of_mem c hd), List.cons_append]

theorem opened_space (t : Text) : opened (' ' :: t) = ' ' :: opened t :=
  opened_cons (by decide) t

theorem opened_bracket {c : Char} (bracket : c = '(' ∨ c = ')') (t : Text) :
    opened (c :: t) = ' ' :: opened t := by
  rw [← opened_space]
  rcases bracket with rfl | rfl <;> rfl

theorem opened_sign {sign : Char} (marked : sign = '+' ∨ sign = '-') {t : Text}
    (front : (opened t).head?.any isDigit = true) : opened (sign :: t) = sign :: opened t := by
  have bare : opened (sign :: t) = closeSigns (sign :: dropHandicapWord
      (t.map fun c => if c == '(' || c == ')' then ' ' else c)) := by
    rcases marked with rfl | rfl <;> rfl
  have closed (u : Text) : closeSigns (sign :: u) =
      if (sign == '+' || sign == '-') && (skipBlanks (closeSigns u)).head?.any isDigit
      then sign :: skipBlanks (closeSigns u) else sign :: closeSigns u := rfl
  have solid : skipBlanks (opened t) = opened t := by
    apply dropWhile_of_front
    intro c hc
    rw [hc] at front
    exact (wordless_of_isDigit front).solid
  rw [bare, closed]
  -- With no blank to skip, both branches are the same text.
  change (if _ && (skipBlanks (opened t)).head?.any isDigit then sign :: skipBlanks (opened t)
    else sign :: opened t) = _
  rw [solid, ite_self]

theorem opened_line (number : IsLine line) (t : Text) : opened (line ++ t) = line ++ opened t := by
  have unsigned {digits : Text} (h : IsDecimal digits) :
      opened (digits ++ t) = digits ++ opened t := by
    refine opened_append (fun c hc marked => ?_) t
    rcases h.isDigit_or_point c hc with digit | rfl
    · simp only [List.mem_cons, List.not_mem_nil, or_false] at marked
      rcases marked with rfl | rfl | rfl | rfl | rfl <;> revert digit <;> decide
    · revert marked
      decide
  cases number with
  | unsigned digits => exact unsigned digits
  | signed marked digits =>
    have front : (opened (‹Text› ++ t)).head?.any isDigit = true := by
      obtain ⟨c, tail, rfl, digit⟩ := digits.exists_cons
      rw [unsigned digits]
      exact digit
    rw [List.cons_append, opened_sign marked front, unsigned digits, List.cons_append]

theorem opened_word (word : isWord w = true) (other : '让' ∉ w) (t : Text) :
    opened (w ++ t) = w ++ opened t := by
  refine opened_append (fun c hc marked => ?_) t
  have letter := (isWord_iff.mp word).2 c hc
  simp only [List.mem_cons, List.not_mem_nil, or_false] at marked
  rcases marked with rfl | rfl | rfl | rfl | rfl
  case inr.inr.inl => exact other hc
  all_goals revert letter; decide

end Opened

section Core

variable (word : isWord w = true) (other : '让' ∉ w) (number : IsLine line)
include word other number

theorem opened_of_mem_sideBySide (ht : t ∈ sideBySide w line) : opened t = t := by
  have closed_word : opened w = w := by
    simpa using opened_word word other []
  have closed_line : opened line = line := by
    simpa using opened_line number []
  have closed_gap {gap : Text} (single : IsGap gap) (u : Text) :
      opened (gap ++ u) = gap ++ opened u := by
    rcases single with rfl | rfl
    · rfl
    · exact opened_space u
  obtain ⟨gap, single, rfl | rfl⟩ := mem_sideBySide ht
  · rw [opened_word word other, closed_gap single, closed_line]
  · rw [opened_line number, closed_gap single, closed_word]

theorem handicapCore_mem (ht : t ∈ sideBySide w line ++ bracketed w line) :
    handicapCore t ∈ sideBySide w line := by
  have plain {u : Text} (hu : u ∈ sideBySide w line) : IsPlainName u :=
    (isPlainName_of_isWord word).of_mem_sideBySide number.isPlainName hu
  have kept {u : Text} (hu : u ∈ sideBySide w line) : handicapCore u = u := by
    rw [handicapCore_eq, opened_of_mem_sideBySide word other number hu,
      (plain hu).spaced.collapse_eq, trim, (plain hu).bare.trimWhere_eq]
  rcases List.mem_append.mp ht with ht | ht
  · rwa [kept ht]
  · have behind : line ++ ' ' :: w ∈ sideBySide w line := by simp [sideBySide]
    have front : w ++ ' ' :: line ∈ sideBySide w line := by simp [sideBySide]
    rcases List.mem_pair.mp ht with rfl | rfl
    · have core : handicapCore ('(' :: (line ++ ')' :: w)) = handicapCore (line ++ ' ' :: w) := by
        rw [handicapCore_eq, opened_bracket (.inl rfl), opened_line number,
          opened_bracket (.inr rfl), ← opened_space, ← opened_line number, trim_collapse_space,
          ← handicapCore_eq]
      rwa [core, kept behind]
    · have core : opened (w ++ '(' :: (line ++ [')'])) = w ++ ' ' :: line ++ [' '] := by
        rw [opened_word word other, opened_bracket (.inl rfl), opened_line number,
          opened_bracket (.inr rfl), List.append_assoc]
        rfl
      rwa [handicapCore_eq, core, (plain front).trim_collapse_append_space]

end Core

theorem opened_handicapWord (front : ∀ c ∈ t.head?, c ≠ '球') :
    opened ('让' :: t) = ' ' :: opened t := by
  cases t with
  | nil => rfl
  | cons c t =>
    have other : (if c == '(' || c == ')' then ' ' else c) ≠ '球' := by
      split
      · decide
      · exact front c rfl
    have drop {d : Char} (u : Text) (other : d ≠ '球') :
        dropHandicapWord ('让' :: d :: u) = ' ' :: dropHandicapWord (d :: u) := by
      rw [dropHandicapWord]
      rintro _ same
      exact other (List.cons.inj same).1
    have word : opened ('让' :: c :: t) = closeSigns (dropHandicapWord ('让' ::
        (if c == '(' || c == ')' then ' ' else c) ::
          t.map fun c => if c == '(' || c == ')' then ' ' else c)) := rfl
    rw [word, drop _ other, ← opened_space]
    rfl

theorem opened_longHandicapWord (t : Text) : opened ('让' :: '球' :: t) = ' ' :: opened t := by
  rw [← opened_space]
  rfl

theorem handicapCore_append {p : Text} (hp : p ∈ handicapPrefixes)
    (front : ∀ c ∈ t.head?, c ≠ '球') : handicapCore (p ++ t) = handicapCore t := by
  simp only [handicapPrefixes, List.mem_cons, List.not_mem_nil, or_false] at hp
  rcases hp with rfl | rfl | rfl | rfl | rfl
  · rfl
  · change trim (collapse (opened ('让' :: t))) = trim (collapse (opened t))
    rw [opened_handicapWord front, trim_collapse_space]
  · change trim (collapse (opened ('让' :: ' ' :: t))) = trim (collapse (opened t))
    have space : ∀ c ∈ (' ' :: t).head?, c ≠ '球' := by
      rintro c ⟨⟩
      decide
    rw [opened_handicapWord space, opened_space, trim_collapse_space, trim_collapse_space]
  · change trim (collapse (opened ('让' :: '球' :: t))) = trim (collapse (opened t))
    rw [opened_longHandicapWord, trim_collapse_space]
  · change trim (collapse (opened ('让' :: '球' :: ' ' :: t))) = trim (collapse (opened t))
    rw [opened_longHandicapWord, opened_space, trim_collapse_space, trim_collapse_space]

section Read

variable [Scalar α] (word : isWord w = true) (number : IsLine line)
include word number

/-- A reader of handicaps finds the line and the outcome of a core, in whichever order. -/
theorem read_of_mem_sideBySide (ht : t ∈ sideBySide w line) :
    (ofLeadingLine? t <|> ofTrailingLine? t) = (Scalar.ofText? (α := α) line).bind fun x =>
      (Outcome.ofToken? w).map (.handicap x) := by
  have letters := isWord_iff.mp word
  have wordFront : ∀ c ∈ w.head?, isBlank c = false :=
    fun c hc => isBlank_of_isWordChar (letters.2 c (List.mem_of_mem_head? hc))
  have noLetter := number.isWordChar_eq_false
  have solid : ∀ c ∈ line.head?, isBlank c = false := fun c hc =>
    isBlank_eq_false_of_isSeparator (number.solid c (List.mem_of_mem_head? hc)).2
  obtain ⟨gap, single, rfl | rfl⟩ := mem_sideBySide ht
  · have front : ∀ c ∈ (gap ++ line).head?, isWordChar c = false := by
      rcases single with rfl | rfl
      · exact fun c hc => noLetter c (List.mem_of_mem_head? hc)
      · rintro c ⟨⟩
        decide
    obtain ⟨taken, left⟩ := span_append letters.2 front
    have behind := single.skipBlanks_append solid
    have split : spanLine? line = some (line, []) := by
      simpa using number.spanLine?_append endsNumber_nil
    -- The leading line is tried first and fails at the first letter of the word.
    have leading : ofLeadingLine? (α := α) (w ++ (gap ++ line)) = none := by
      obtain ⟨c, w, rfl⟩ := List.exists_cons_of_ne_nil letters.1
      rw [ofLeadingLine?, List.cons_append, spanLine?_of_front (letters.2 c List.mem_cons_self)]
      rfl
    rw [leading, ofTrailingLine?, taken, left, behind, split]
    simp [letters.1, Option.map_eq_bind]
  · have split := number.spanLine?_append (endsNumber_append single word)
    have trailing : ofTrailingLine? (α := α) (line ++ (gap ++ w)) = none := by
      obtain ⟨c, tail, rfl⟩ := List.exists_cons_of_ne_nil number.ne_nil
      rw [ofTrailingLine?, List.cons_append,
        List.takeWhile_cons_of_neg (by simp [noLetter c List.mem_cons_self])]
      rfl
    rw [trailing, ofLeadingLine?, split]
    simp [single.skipBlanks_append wordFront, word, Option.map_eq_bind]

end Read

end Reading

section Spelled

variable {α : Type} [Scalar α] {o : Outcome} {w line : Text} {x : α}

/-- The characters of the handicap word are in no spelling of an outcome, whatever its case. -/
theorem Outcome.notMem_of_lower (spelled : lower w ∈ o.spellings) : '让' ∉ w ∧ '球' ∉ w := by
  have kept {c : Char} (noSigma : c ≠ '\u03A3') (small : lowerChar c = [c]) (hc : c ∈ w) :
      c ∈ lower w :=
    mem_lowerFrom_of_small noSigma small [] hc
  have free : (o.spellings.all fun v => !v.contains '让' && !v.contains '球') = true := by
    cases o <;> rfl
  have none := List.all_eq_true.mp free _ spelled
  simp only [Bool.and_eq_true, Bool.not_eq_true', List.contains_eq_mem, decide_eq_false_iff_not]
    at none
  exact ⟨fun h => none.1 (kept (by decide) (by decide) h),
    fun h => none.2 (kept (by decide) (by decide) h)⟩

theorem isPlainName_of_mem_bracketed {t : Text} (word : isWord w = true) (number : IsLine line)
    (ht : t ∈ sideBySide w line ++ bracketed w line) : IsPlainName t := by
  have enclosed : IsPlainName ('(' :: (line ++ [')'])) := by
    refine .of_solid (List.cons_ne_nil _ _) fun c hc => ?_
    simp only [List.mem_cons, List.mem_append, List.not_mem_nil, or_false] at hc
    rcases hc with rfl | hc | rfl
    · decide
    · exact number.solid c hc
    · decide
  have plain := isPlainName_of_isWord word
  rcases List.mem_append.mp ht with ht | ht
  · exact plain.of_mem_sideBySide number.isPlainName ht
  · rcases List.mem_pair.mp ht with rfl | rfl
    · simpa using enclosed.append isGap_nil plain
    · exact plain.append isGap_nil enclosed

theorem IsPlainName.behindHandicapWord {p t : Text} (hp : p ∈ handicapPrefixes)
    (name : IsPlainName t) : IsPlainName (p ++ t) := by
  have short : IsPlainName "让".toList := isPlainName_of_isWord (by decide)
  have long : IsPlainName "让球".toList := isPlainName_of_isWord (by decide)
  simp only [handicapPrefixes, List.mem_cons, List.not_mem_nil, or_false] at hp
  rcases hp with rfl | rfl | rfl | rfl | rfl
  · exact name
  · exact short.append isGap_nil name
  · exact short.append isGap_space name
  · exact long.append isGap_nil name
  · exact long.append isGap_space name

namespace Reading

variable {p t : Text}

omit [Scalar α] in
theorem ofScore?_handicap (word : isWord w = true) (number : IsLine line)
    (hp : p ∈ handicapPrefixes) (ht : t ∈ sideBySide w line ++ bracketed w line) :
    ofScore? (α := α) (p ++ t) = none := by
  have marked {c : Char} (noDigit : isDigit c = false) (rest : Text) :
      ofScore? (α := α) (c :: rest) = none := by
    apply ofScore?_of_front
    rintro d ⟨⟩
    exact noDigit
  simp only [handicapPrefixes, List.mem_cons, List.not_mem_nil, or_false] at hp
  rcases hp with rfl | rfl | rfl | rfl | rfl
  case inl =>
    rcases List.mem_append.mp ht with ht | ht
    · exact ofScore?_sideBySide word number ht
    · obtain ⟨c, v, rfl⟩ := List.exists_cons_of_ne_nil (isWord_iff.mp word).1
      have letter := (isWord_iff.mp word).2 c List.mem_cons_self
      rcases List.mem_pair.mp ht with rfl | rfl
      · exact marked (by decide) _
      · exact marked (isDigit_of_isWordChar letter) _
  all_goals exact marked (by decide) _

theorem ofHandicap?_eq (spelled : lower w ∈ o.spellings) (number : IsLine line)
    (read : Scalar.ofText? line = some x) (hp : p ∈ handicapPrefixes)
    (ht : t ∈ sideBySide w line ++ bracketed w line) :
    ofHandicap? (p ++ t) = some (.handicap x o) := by
  have word := o.isWord_of_lower spelled
  have apart := Outcome.notMem_of_lower spelled
  have noBall : ∀ c ∈ t.head?, c ≠ '球' := by
    rintro _ front rfl
    have inLine : '球' ∉ line :=
      fun hc => absurd (number.isWordChar_eq_false _ hc) (by decide)
    have hc := List.mem_of_mem_head? front
    simp only [sideBySide, bracketed, List.cons_append, List.nil_append, List.mem_cons,
      List.not_mem_nil, or_false] at ht
    rcases ht with rfl | rfl | rfl | rfl | rfl | rfl <;>
      simp [apart.2, inLine] at hc
  have core := handicapCore_mem word apart.1 number ht
  rw [ofHandicap?, handicapCore_append hp noBall]
  change (ofLeadingLine? (handicapCore t) <|> ofTrailingLine? (handicapCore t)) = _
  rw [read_of_mem_sideBySide word number core, read, Outcome.ofToken?_of_lower spelled]
  rfl

end Reading

/-- An outcome and a line make up a handicap in either order, joined or apart, with brackets around
the line or none, and with the handicap word in front or none.  All these texts share one key. -/
theorem Semantic.ofText_handicap (spelled : lower w ∈ o.spellings) (number : IsLine line)
    (read : Scalar.ofText? line = some x) :
    ∀ p ∈ handicapPrefixes, ∀ t ∈ sideBySide w line ++ bracketed w line,
      (ofText (p ++ t) : Semantic α).market = .handicap ∧
        (ofText (p ++ t) : Semantic α).reading = .handicap x o ∧
        (ofText (p ++ t) : Semantic α).key = lineText x ++ ':' :: o.key := by
  intro p hp t ht
  have word := o.isWord_of_lower spelled
  have name := (isPlainName_of_mem_bracketed word number ht).behindHandicapWord hp
  obtain ⟨c, inLine, digit⟩ := number.exists_digit
  have hc : c ∈ p ++ t := by
    apply List.mem_append_right
    rcases List.mem_append.mp ht with ht | ht
    · exact mem_of_mem_sideBySide inLine ht
    · rcases List.mem_pair.mp ht with rfl | rfl <;> simp [inLine]
  have reading : Reading.ofName (α := α) (p ++ t) = .handicap x o := by
    rw [Reading.ofName_of_digit digit hc (Reading.ofScore?_handicap word number hp ht),
      Reading.ofHandicap?_eq spelled number read hp ht]
    rfl
  rw [ofText_eq, name.normalizeName_eq, reading]
  exact ⟨rfl, rfl, rfl⟩

/-- An away win by one and a half: the line in brackets, the outcome in capitals, the handicap word
in front. -/
theorem Semantic.ofText_handicap_away :
    lower "AWAY".toList ∈ Outcome.lose.spellings ∧ IsLine "-1.5".toList ∧
      Scalar.ofText? "-1.5".toList = some (-1.5 : Float) ∧
      (ofText "让球 (-1.5)AWAY".toList : Semantic Float).market = .handicap ∧
      (ofText "让球 (-1.5)AWAY".toList : Semantic Float).key = "-1.5:lose".toList := by
  have spelled : lower "AWAY".toList ∈ Outcome.lose.spellings := by
    decide
  have whole : IsDigits ['1'] := ⟨List.cons_ne_nil _ _, List.forall_mem_singleton.mpr rfl⟩
  have places : IsDigits ['5'] := ⟨List.cons_ne_nil _ _, List.forall_mem_singleton.mpr rfl⟩
  have number : IsLine "-1.5".toList := .signed (.inr rfl) (.fraction whole places)
  have read : Scalar.ofText? "-1.5".toList = some (-1.5 : Float) := by
    decide
  have key : lineText (-1.5 : Float) ++ ':' :: Outcome.lose.key = "-1.5:lose".toList := by
    decide
  have text := ofText_handicap spelled number read "让球 ".toList (by decide) "(-1.5)AWAY".toList
    (by decide)
  exact ⟨spelled, number, read, text.1, text.2.2.trans key⟩

end Spelled

end Wager
