import Wager.Proofs.Entry.Handicap

/-!
# Goals totals

A direction and an unsigned line side by side are a goals total, but only where the direction has
one of the spellings that may stand at a number.  With any other spelling the text is in no market.
-/

namespace Wager

open Text

variable {α : Type} [Scalar α] {d : Direction} {w line t : Text} {x : α}

namespace Reading

theorem squeeze_of_mem_sideBySide (word : isWord w = true) (number : IsLine line)
    (ht : t ∈ sideBySide w line) : squeeze t = w ++ line ∨ squeeze t = line ++ w := by
  have kept {u : Text} (hu : ∀ c ∈ u, isBlank c = false) : squeeze u = u :=
    List.filter_eq_self.mpr fun c hc => by simp [hu c hc]
  have squeeze_append (u v : Text) : squeeze (u ++ v) = squeeze u ++ squeeze v :=
    List.filter_append u v
  have squeezed_word := kept fun c hc => isBlank_of_isWordChar ((isWord_iff.mp word).2 c hc)
  have squeezed_line := kept fun c hc => isBlank_eq_false_of_isSeparator (number.solid c hc).2
  obtain ⟨gap, single, rfl | rfl⟩ := mem_sideBySide ht
  all_goals
    have nothing : squeeze gap = [] := by
      rcases single with rfl | rfl <;> rfl
    simp [squeeze_append, squeezed_word, squeezed_line, nothing]

theorem ofTotal?_of_mem_sideBySide (word : isWord w = true) (number : IsDecimal line)
    (ht : t ∈ sideBySide w line) : ofTotal? (α := α) t =
      (Direction.ofShortSpelling? w).bind fun d => (Scalar.ofText? line).map (.total d) := by
  have letters := isWord_iff.mp word
  obtain ⟨c, tail, first, digit⟩ := number.exists_cons
  obtain ⟨b, v, second⟩ := List.exists_cons_of_ne_nil letters.1
  have wordless : ∀ b ∈ w, isDigit b = false := fun b hb => isDigit_of_isWordChar (letters.2 b hb)
  rw [ofTotal?]
  rcases squeeze_of_mem_sideBySide word (.unsigned number) ht with core | core
  · have front : ∀ c ∈ line.head?, (!isDigit c) = false := by
      rw [first]
      rintro c ⟨⟩
      simp [digit]
    obtain ⟨taken, left⟩ := span_append (p := (!isDigit ·)) (by simpa using wordless) front
    have split : spanDecimal? line = some (line, []) := by
      simpa using number.spanDecimal?_append endsNumber_nil
    have trailing : ofTrailingDirection? (α := α) (w ++ line) = none := by
      have none : spanDecimal? (w ++ line) = none := by
        apply spanDecimal?_of_front
        rw [second]
        rintro b ⟨⟩
        exact wordless _ (second ▸ List.mem_cons_self)
      simp [ofTrailingDirection?, none]
    simp [core, trailing, ofLeadingDirection?, taken, left, split, Option.map_eq_bind]
  · have split := number.spanDecimal?_append (endsNumber_append isGap_nil word)
    have leading : ofLeadingDirection? (α := α) (line ++ w) = none := by
      have none : (line ++ w).takeWhile (!isDigit ·) = [] := by
        rw [first, List.cons_append, List.takeWhile_cons_of_neg (by simp [digit])]
      simp [ofLeadingDirection?, none, Direction.ofShortSpelling?, Direction.all, lower, lowerFrom,
        Direction.shortSpellings]
    rw [List.nil_append] at split
    simp [core, leading, ofTrailingDirection?, split, Option.map_eq_bind]

/-- No spelling of a direction is read as an outcome, so a line beside it is no handicap. -/
theorem ofHandicap?_of_direction (spelled : lower w ∈ d.spellings) (number : IsLine line)
    (ht : t ∈ sideBySide w line) : ofHandicap? (α := α) t = none := by
  have word := d.isWord_of_lower spelled
  have other : '让' ∉ w := by
    intro hc
    have kept : '让' ∈ lower w := mem_lowerFrom_of_small (by decide) (by decide) [] hc
    have free : (d.spellings.all fun v => !v.contains '让') = true := by
      cases d <;> rfl
    have none := List.all_eq_true.mp free _ spelled
    simp [kept] at none
  have core := handicapCore_mem word other number (List.mem_append_left _ ht)
  change (ofLeadingLine? (handicapCore t) <|> ofTrailingLine? (handicapCore t)) = _
  rw [read_of_mem_sideBySide word number core, Direction.ofToken?_of_lower spelled]
  cases Scalar.ofText? (α := α) line <;> rfl

theorem ofName_of_direction (spelled : lower w ∈ d.spellings) (number : IsDecimal line)
    (read : Scalar.ofText? line = some x) (ht : t ∈ sideBySide w line) :
    ofName t = if lower w ∈ d.shortSpellings then .total d x else .other := by
  have word := d.isWord_of_lower spelled
  have signed : IsLine line := .unsigned number
  obtain ⟨c, inLine, digit⟩ := signed.exists_digit
  rw [ofName_of_digit digit (mem_of_mem_sideBySide inLine ht) (ofScore?_sideBySide word signed ht),
    ofHandicap?_of_direction spelled signed ht, ofTotal?_of_mem_sideBySide word number ht,
    Direction.ofShortSpelling?_of_lower spelled, read]
  split <;> rfl

end Reading

/-- A direction and an unsigned line are a total in either order, joined or a space apart, all with
one key; but not with the two spellings that name the ball, which may not stand at a number. -/
theorem Semantic.ofText_total (spelled : lower w ∈ d.spellings) (number : IsDecimal line)
    (read : Scalar.ofText? line = some x) : ∀ t ∈ sideBySide w line,
      (lower w ∈ d.shortSpellings → (ofText t : Semantic α).market = .total ∧
        (ofText t : Semantic α).reading = .total d x ∧
        (ofText t : Semantic α).key = d.key ++ ':' :: lineText x) ∧
      (lower w ∉ d.shortSpellings → (ofText t : Semantic α).market = .other) := by
  intro t ht
  have word := isPlainName_of_isWord (d.isWord_of_lower spelled)
  have name := word.of_mem_sideBySide (IsLine.unsigned number).isPlainName ht
  rw [ofText_eq, name.normalizeName_eq, Reading.ofName_of_direction spelled number read ht]
  constructor
  · intro short
    rw [if_pos short]
    exact ⟨rfl, rfl, rfl⟩
  · intro long
    rw [if_neg long]
    rfl

theorem Semantic.ofText_total_over :
    lower "OVER".toList ∈ Direction.over.spellings ∧ IsDecimal "2.5".toList ∧
      Scalar.ofText? "2.5".toList = some (2.5 : Float) ∧
      (ofText "2.5 OVER".toList : Semantic Float).market = .total ∧
      (ofText "2.5 OVER".toList : Semantic Float).key = "over:2.5".toList ∧
      (ofText "大球 2.5".toList : Semantic Float).market = .other := by
  have whole : IsDigits ['2'] := ⟨List.cons_ne_nil _ _, List.forall_mem_singleton.mpr rfl⟩
  have places : IsDigits ['5'] := ⟨List.cons_ne_nil _ _, List.forall_mem_singleton.mpr rfl⟩
  have number : IsDecimal "2.5".toList := .fraction whole places
  have spelled : lower "OVER".toList ∈ Direction.over.spellings := by
    decide
  have read : Scalar.ofText? "2.5".toList = some (2.5 : Float) := by
    decide
  have key : Direction.over.key ++ ':' :: lineText (2.5 : Float) = "over:2.5".toList := by
    decide
  have short := (ofText_total spelled number read "2.5 OVER".toList (by decide)).1 (by decide)
  have long := (ofText_total (d := .over) (w := "大球".toList) (by decide) number read
    "大球 2.5".toList (by decide)).2 (by decide)
  exact ⟨spelled, number, read, short.1, short.2.2.trans key, long⟩

/-- With the ball named, more than two and a half goals are in no market. -/
theorem Semantic.exists_direction_ne_total :
    ¬∀ (d : Direction) (w line t : Text) (x : Float), lower w ∈ d.spellings → IsDecimal line →
      Scalar.ofText? line = some x → t ∈ sideBySide w line →
      (ofText t : Semantic Float).market = .total ∧
        (ofText t : Semantic Float).key = d.key ++ ':' :: lineText x := by
  intro total
  have whole : IsDigits ['2'] := ⟨List.cons_ne_nil _ _, List.forall_mem_singleton.mpr rfl⟩
  have places : IsDigits ['5'] := ⟨List.cons_ne_nil _ _, List.forall_mem_singleton.mpr rfl⟩
  have claimed := (total .over "大球".toList "2.5".toList "大球2.5".toList 2.5 (by decide)
    (.fraction whole places) (by decide) (by decide)).1
  have actual : (ofText "大球2.5".toList : Semantic Float).market = .other := by
    decide
  rw [actual] at claimed
  cases claimed

end Wager
