import Mathlib
import Wager.Entry.Reader
import Wager.Proofs.Text.Listing

/-!
# Marks that entries do without

Every reader uses up the whole name of an entry, and knows only words, numbers, blanks and a few
marks.  A name with any other mark belongs to no market; one with a mark that joins the halves of a
pair can only be such a pair.
-/

namespace Wager

open Text

theorem Semantic.ofText_eq {α : Type} [Scalar α] (t : Text) :
    ofText (α := α) t = ⟨normalizeName t, Reading.ofName (normalizeName t)⟩ := by
  unfold ofText
  dsimp only

section Kept

variable {c : Char} {t : Text}

theorem mem_dropWhile_of_not {p : Char → Bool} (h : p c = false) (hc : c ∈ t) :
    c ∈ t.dropWhile p := by
  rw [← List.takeWhile_append_dropWhile (p := p) (l := t)] at hc
  rcases List.mem_append.mp hc with taken | hc
  · exact absurd (List.mem_takeWhile_imp taken) (by simp [h])
  · exact hc

theorem mem_trim (solid : isBlank c = false) (hc : c ∈ t) : c ∈ trim t := by
  have front : c ∈ t.dropWhile isBlank := mem_dropWhile_of_not solid hc
  rw [trim, trimWhere, List.mem_reverse]
  exact mem_dropWhile_of_not solid (List.mem_reverse.mpr front)

theorem mem_squeeze (solid : isBlank c = false) (hc : c ∈ t) : c ∈ squeeze t := by
  simp [squeeze, hc, solid]

theorem mem_collapse (solid : isBlank c = false) (hc : c ∈ t) : c ∈ collapse t := by
  suffices kept : ∀ inRun, c ∈ collapseFrom inRun t from kept false
  intro inRun
  induction t generalizing inRun with
  | nil => cases hc
  | cons d rest ih =>
    rw [collapseFrom]
    rcases List.mem_cons.mp hc with rfl | hc
    · simp [solid]
    · split
      · split
        · exact ih hc true
        · exact List.mem_cons_of_mem _ (ih hc true)
      · exact List.mem_cons_of_mem _ (ih hc false)

theorem mem_dropBlanksBefore (solid : isBlank c = false) (mark : Char) (hc : c ∈ t) :
    c ∈ dropBlanksBefore mark t := by
  induction t with
  | nil => cases hc
  | cons d rest ih =>
    change c ∈ (if isBlank d && (dropBlanksBefore mark rest).head? == some mark
      then dropBlanksBefore mark rest else d :: dropBlanksBefore mark rest)
    rcases List.mem_cons.mp hc with rfl | hc
    · simp [solid]
    · split
      · exact ih hc
      · exact List.mem_cons_of_mem _ (ih hc)

theorem mem_dropBlanksAfter (solid : isBlank c = false) (mark : Char) (hc : c ∈ t) :
    c ∈ dropBlanksAfter mark t := by
  suffices kept : ∀ behind, c ∈ dropBlanksBehind mark behind t from kept false
  intro behind
  induction t generalizing behind with
  | nil => cases hc
  | cons d rest ih =>
    rw [dropBlanksBehind]
    rcases List.mem_cons.mp hc with rfl | hc
    · simp [solid]
    · split
      · exact ih hc true
      · exact List.mem_cons_of_mem _ (ih hc _)

theorem mem_lowerFrom_of_small (noSigma : c ≠ '\u03A3') (small : lowerChar c = [c])
    (before : Text) (hc : c ∈ t) : c ∈ lowerFrom before t := by
  induction t generalizing before with
  | nil => cases hc
  | cons d rest ih =>
    rw [lowerFrom]
    rcases List.mem_cons.mp hc with rfl | hc
    · simp [noSigma, small]
    · split
      · exact List.mem_cons_of_mem _ (ih _ hc)
      · exact List.mem_append_right _ (ih _ hc)

end Kept

theorem append_of_spanDecimal? {t line rest : Text} (read : spanDecimal? t = some (line, rest)) :
    line ++ rest = t ∧ ∀ c ∈ line, isDigit c = true ∨ c = '.' := by
  have digits {u : Text} {c : Char} (hc : c ∈ u.takeWhile isDigit) :
      isDigit c = true ∨ c = '.' := .inl (List.mem_takeWhile_imp hc)
  have whole := List.takeWhile_append_dropWhile (p := isDigit) (l := t)
  unfold spanDecimal? at read
  dsimp only at read
  split at read
  · cases read
  · split at read
    next tail point =>
      have fraction := List.takeWhile_append_dropWhile (p := isDigit) (l := tail)
      split at read
      · obtain ⟨rfl, rfl⟩ := Prod.mk.inj (Option.some.inj read)
        exact ⟨point ▸ whole, fun c => digits⟩
      · obtain ⟨rfl, rfl⟩ := Prod.mk.inj (Option.some.inj read)
        constructor
        · rw [List.append_assoc, List.cons_append, fraction, ← point, whole]
        · intro c hc
          rcases List.mem_append.mp hc with hc | hc
          · exact digits hc
          · rcases List.mem_cons.mp hc with rfl | hc
            · exact .inr rfl
            · exact digits hc
    next rest _ =>
      obtain ⟨rfl, rfl⟩ := Prod.mk.inj (Option.some.inj read)
      exact ⟨whole, fun c => digits⟩

theorem append_of_spanLine? {t line rest : Text} (read : spanLine? t = some (line, rest)) :
    line ++ rest = t ∧ ∀ c ∈ line, isDigit c = true ∨ c ∈ ['.', '+', '-'] := by
  have unsigned {t line rest : Text} (read : spanDecimal? t = some (line, rest)) :
      line ++ rest = t ∧ ∀ c ∈ line, isDigit c = true ∨ c ∈ ['.', '+', '-'] := by
    obtain ⟨whole, made⟩ := append_of_spanDecimal? read
    refine ⟨whole, fun c hc => (made c hc).imp_right ?_⟩
    rintro rfl
    simp
  cases t with
  | nil => cases read
  | cons c tail =>
    rw [spanLine?] at read
    split at read
    next sign =>
      obtain ⟨⟨number, after⟩, found, made⟩ := Option.map_eq_some_iff.mp read
      obtain ⟨rfl, rfl⟩ := Prod.mk.inj made
      obtain ⟨whole, chars⟩ := unsigned found
      refine ⟨by rw [List.cons_append, whole], ?_⟩
      intro d hd
      rcases List.mem_cons.mp hd with rfl | hd
      · right
        simp only [Bool.or_eq_true, beq_iff_eq] at sign
        rcases sign with rfl | rfl <;> simp
      · exact chars d hd
    next => exact unsigned read

theorem Outcome.isWord_of_mem_spellings {o : Outcome} {w : Text} (hw : w ∈ o.spellings) :
    isWord w = true := by
  have words : o.spellings.all isWord = true := by
    cases o <;> rfl
  exact List.all_eq_true.mp words w hw

theorem Direction.isWord_of_mem_shortSpellings {d : Direction} {w : Text}
    (hw : w ∈ d.shortSpellings) : isWord w = true := by
  have words : d.shortSpellings.all isWord = true := by
    cases d <;> rfl
  exact List.all_eq_true.mp words w hw

theorem isWord_key_append (half full : Outcome) : isWord (half.key ++ full.key) = true := by
  cases half <;> cases full <;> rfl

/-- A character that no word has, that separates no words, and that lower case leaves alone. -/
structure Wordless (c : Char) : Prop where
  solid : isBlank c = false
  noLetter : isWordChar c = false
  noSigma : c ≠ '\u03A3'
  small : lowerChar c = [c]

/-- A mark that is in no word, number or bracket of an entry, and no dash, colon or blank. -/
structure Foreign (c : Char) : Prop extends Wordless c where
  noDigit : isDigit c = false
  noMark : c ∉ ['.', '+', '-', ':', '(', ')']

theorem foreign_comma : Foreign ',' :=
  ⟨by constructor <;> decide, by decide, by decide⟩

theorem foreign_bar : Foreign '|' :=
  ⟨by constructor <;> decide, by decide, by decide⟩

namespace Wordless

variable {c : Char} {t : Text}

theorem mem_lowerFrom (h : Wordless c) (before : Text) (hc : c ∈ t) : c ∈ lowerFrom before t :=
  mem_lowerFrom_of_small h.noSigma h.small before hc

theorem isWord_eq_false (h : Wordless c) (hc : c ∈ t) : isWord t = false := by
  rw [isWord, Bool.and_eq_false_iff]
  right
  rw [List.all_eq_false]
  exact ⟨c, hc, by simp [h.noLetter]⟩

theorem ofToken?_eq_none (h : Wordless c) (hc : c ∈ t) : Outcome.ofToken? t = none := by
  have kept : c ∈ compact t := mem_squeeze h.solid (h.mem_lowerFrom [] (mem_trim h.solid hc))
  rw [Outcome.ofToken?, Outcome.ofSpelling?, List.find?_eq_none]
  intro o _ spelled
  have word := o.isWord_of_mem_spellings (w := compact t) (by simpa using spelled)
  rw [h.isWord_eq_false kept] at word
  cases word

theorem ofShortSpelling?_eq_none (h : Wordless c) (hc : c ∈ t) :
    Direction.ofShortSpelling? t = none := by
  have kept : c ∈ lower t := h.mem_lowerFrom [] hc
  rw [Direction.ofShortSpelling?, List.find?_eq_none]
  intro d _ spelled
  have word := d.isWord_of_mem_shortSpellings (w := lower t) (by simpa using spelled)
  rw [h.isWord_eq_false kept] at word
  cases word

end Wordless

namespace Foreign

variable {c : Char} {t : Text}

theorem mem_of_spanLine? (h : Foreign c) (hc : c ∈ t) {line rest : Text}
    (read : spanLine? t = some (line, rest)) : c ∈ rest := by
  obtain ⟨rfl, chars⟩ := append_of_spanLine? read
  rcases List.mem_append.mp hc with hc | hc
  · rcases chars c hc with digit | mark
    · rw [h.noDigit] at digit
      cases digit
    · exact absurd (List.mem_append_left [':', '(', ')'] mark) h.noMark
  · exact hc

theorem mem_of_spanDecimal? (h : Foreign c) (hc : c ∈ t) {line rest : Text}
    (read : spanDecimal? t = some (line, rest)) : c ∈ rest := by
  obtain ⟨rfl, chars⟩ := append_of_spanDecimal? read
  rcases List.mem_append.mp hc with hc | hc
  · rcases chars c hc with digit | rfl
    · rw [h.noDigit] at digit
      cases digit
    · exact absurd (by simp) h.noMark
  · exact hc

end Foreign

namespace Reading

variable {α : Type} [Scalar α] {c : Char} {t : Text}

omit [Scalar α] in
theorem ofScore?_eq_none (h : Foreign c) (hc : c ∈ t) : ofScore? (α := α) t = none := by
  have later : c ∈ skipBlanks (t.dropWhile isDigit) :=
    mem_dropWhile_of_not h.solid (mem_dropWhile_of_not h.noDigit hc)
  rw [ofScore?]
  split
  next mark rest cut =>
    rw [cut] at later
    dsimp only
    split
    next shaped =>
      simp only [Bool.and_eq_true, Bool.or_eq_true, beq_iff_eq] at shaped
      obtain ⟨⟨⟨dash, -⟩, -⟩, digits⟩ := shaped
      rcases List.mem_cons.mp later with rfl | behind
      · rcases dash with rfl | rfl
        · exact absurd (by simp) h.noMark
        · exact absurd (by simp) h.noMark
      · have digit := List.all_eq_true.mp digits c (mem_dropWhile_of_not h.solid behind)
        rw [h.noDigit] at digit
        cases digit
    next => rfl
  next => rfl

theorem mem_dropHandicapWord (h : Foreign c) (hc : c ∈ t) : c ∈ dropHandicapWord t := by
  have foreign {d : Char} (letter : isWordChar d = true) : c ≠ d := by
    rintro rfl
    rw [h.noLetter] at letter
    cases letter
  fun_induction dropHandicapWord t with
  | case1 rest ih =>
    simp only [List.mem_cons, foreign (d := '让') (by decide), foreign (d := '球') (by decide),
      false_or] at hc
    exact List.mem_cons_of_mem _ (ih hc)
  | case2 rest _ ih =>
    simp only [List.mem_cons, foreign (d := '让') (by decide), false_or] at hc
    exact List.mem_cons_of_mem _ (ih hc)
  | case3 d rest _ _ ih =>
    rcases List.mem_cons.mp hc with rfl | hc
    · exact List.mem_cons_self
    · exact List.mem_cons_of_mem _ (ih hc)
  | case4 => cases hc

theorem mem_closeSigns (solid : isBlank c = false) (hc : c ∈ t) : c ∈ closeSigns t := by
  induction t with
  | nil => cases hc
  | cons d rest ih =>
    change c ∈ (if (d == '+' || d == '-') && (skipBlanks (closeSigns rest)).head?.any isDigit
      then d :: skipBlanks (closeSigns rest) else d :: closeSigns rest)
    rcases List.mem_cons.mp hc with rfl | hc
    · split <;> exact List.mem_cons_self
    · split
      · exact List.mem_cons_of_mem _ (mem_dropWhile_of_not solid (ih hc))
      · exact List.mem_cons_of_mem _ (ih hc)

theorem mem_handicapCore (h : Foreign c) (hc : c ∈ t) : c ∈ handicapCore t := by
  have bare : c ∈ t.map fun c => if c == '(' || c == ')' then ' ' else c := by
    refine List.mem_map.mpr ⟨c, hc, if_neg ?_⟩
    have brackets := h.noMark
    simp only [List.mem_cons, not_or] at brackets
    simp [brackets]
  exact mem_trim h.solid (mem_collapse h.solid
    (mem_closeSigns h.solid (mem_dropHandicapWord h bare)))

theorem ofHandicap?_eq_none (h : Foreign c) (hc : c ∈ t) : ofHandicap? (α := α) t = none := by
  have core := mem_handicapCore h hc
  have leading : ofLeadingLine? (α := α) (handicapCore t) = none := by
    rw [ofLeadingLine?]
    cases read : spanLine? (handicapCore t) with
    | none => rfl
    | some found =>
      have left := mem_dropWhile_of_not h.solid (h.mem_of_spanLine? core read)
      simp [skipBlanks, h.isWord_eq_false left, guard]
  have trailing : ofTrailingLine? (α := α) (handicapCore t) = none := by
    have later := mem_dropWhile_of_not h.solid (mem_dropWhile_of_not h.noLetter core)
    rw [ofTrailingLine?]
    cases read : spanLine? (skipBlanks ((handicapCore t).dropWhile isWordChar)) with
    | none => simp
    | some found =>
      have left := List.ne_nil_of_mem (h.mem_of_spanLine? later read)
      simp [left, guard]
  simp [ofHandicap?, leading, trailing]

theorem ofTotal?_eq_none (h : Foreign c) (hc : c ∈ t) : ofTotal? (α := α) t = none := by
  have core : c ∈ squeeze t := mem_squeeze h.solid hc
  have leading : ofLeadingDirection? (α := α) (squeeze t) = none := by
    rw [ofLeadingDirection?]
    rw [← List.takeWhile_append_dropWhile (p := (!isDigit ·)) (l := squeeze t)] at core
    rcases List.mem_append.mp core with front | behind
    · simp [h.ofShortSpelling?_eq_none front]
    · cases read : spanDecimal? ((squeeze t).dropWhile (!isDigit ·)) with
      | none => simp
      | some found =>
        have left := List.ne_nil_of_mem (h.mem_of_spanDecimal? behind read)
        simp [left, guard]
  have trailing : ofTrailingDirection? (α := α) (squeeze t) = none := by
    rw [ofTrailingDirection?]
    cases read : spanDecimal? (squeeze t) with
    | none => rfl
    | some found =>
      simp [h.ofShortSpelling?_eq_none (h.mem_of_spanDecimal? core read)]
  simp [ofTotal?, leading, trailing]

omit [Scalar α] in
theorem ofResult?_eq_none (h : Foreign c) (hc : c ∈ t) : ofResult? (α := α) t = none := by
  simp [ofResult?, h.ofToken?_eq_none hc]

theorem ofName_of_mem (h : Foreign c) (hc : c ∈ t) :
    ofName (α := α) t = (ofHalfFull? t).getD .other := by
  simp [ofName, ofScore?_eq_none h hc, ofHandicap?_eq_none h hc, ofTotal?_eq_none h hc,
    ofResult?_eq_none h hc]

section Pairs

omit [Scalar α]

theorem ofWords?_eq_some {half full : Text} {r : Reading α} (read : ofWords? half full = some r) :
    ∃ a b, Outcome.ofToken? half = some a ∧ Outcome.ofToken? full = some b ∧
      r = .halfFull a b := by
  simp only [ofWords?, Option.bind_eq_bind, Option.bind_eq_some_iff] at read
  obtain ⟨a, first, b, second, made⟩ := read
  exact ⟨a, b, first, second, (Option.some.inj made).symm⟩

theorem ofDashedPair?_eq_some {r : Reading α} (read : ofDashedPair? t = some r) :
    ∃ half full, splitWhere (· == '-') t = [half, full] ∧ isWord half = true ∧
      isWord full = true ∧ ofWords? half full = some r := by
  rw [ofDashedPair?] at read
  split at read
  next half full cut =>
    split at read
    next both =>
      rw [Bool.and_eq_true] at both
      exact ⟨half, full, cut, both.1, both.2, read⟩
    next => cases read
  next => cases read

theorem ofSpacedPair?_eq_some {r : Reading α} (read : ofSpacedPair? t = some r) :
    ∃ half full, words t = [half, full] ∧ ofWords? half full = some r := by
  rw [ofSpacedPair?] at read
  split at read
  next half full cut => exact ⟨half, full, cut, read⟩
  next => cases read

theorem ofPairedCharacters?_eq_some {r : Reading α} (read : ofPairedCharacters? t = some r) :
    ∃ half full, t = [half, full] ∧ ofWords? [half] [full] = some r := by
  rw [ofPairedCharacters?.eq_def] at read
  split at read
  next half full =>
    split at read
    next => exact ⟨half, full, rfl, read⟩
    next => cases read
  next => cases read

theorem ofJoinedWords?_eq_some {r : Reading α} (read : ofJoinedWords? t = some r) :
    ∃ half full, lower t = half.key ++ full.key ∧ r = .halfFull half full := by
  rw [ofJoinedWords?] at read
  obtain ⟨⟨half, full⟩, found, made⟩ := Option.map_eq_some_iff.mp read
  have spelled := List.find?_some found
  exact ⟨half, full, by simpa using spelled, made.symm⟩

theorem ofHalfFull?_cases {r : Reading α} (read : ofHalfFull? t = some r) :
    ofDashedPair? (dashed t) = some r ∨ ofSpacedPair? t = some r ∨
      ofPairedCharacters? ((dashed t).filter (· != '-')) = some r ∨
      ofJoinedWords? ((dashed t).filter (· != '-')) = some r := by
  simp only [ofHalfFull?, Option.orElse_eq_orElse, Option.orElse_eq_or, Option.or_eq_some_iff]
    at read
  tauto

theorem exists_of_ofHalfFull? {r : Reading α} (read : ofHalfFull? t = some r) :
    ∃ half full, r = .halfFull half full := by
  have words {half full : Text} (read : ofWords? half full = some r) :
      ∃ a b, r = .halfFull a b := by
    obtain ⟨a, b, -, -, made⟩ := ofWords?_eq_some read
    exact ⟨a, b, made⟩
  rcases ofHalfFull?_cases read with dash | spaced | paired | joined
  · obtain ⟨half, full, -, -, -, read⟩ := ofDashedPair?_eq_some dash
    exact words read
  · obtain ⟨half, full, -, read⟩ := ofSpacedPair?_eq_some spaced
    exact words read
  · obtain ⟨half, full, -, read⟩ := ofPairedCharacters?_eq_some paired
    exact words read
  · obtain ⟨half, full, -, made⟩ := ofJoinedWords?_eq_some joined
    exact ⟨half, full, made⟩

theorem mem_dashed (h : Wordless c) (apart : c ∉ ['/', '|', '>', '→']) (hc : c ∈ t) :
    c ∈ dashed t := by
  have joined : c ∈ t.map fun c =>
      if c == '/' || c == '|' || c == '>' || c == '→' then '-' else c := by
    refine List.mem_map.mpr ⟨c, hc, if_neg ?_⟩
    simp only [List.mem_cons, not_or] at apart
    simp [apart]
  exact mem_dropBlanksAfter h.solid '-' (mem_dropBlanksBefore h.solid '-' joined)

theorem ofWords?_eq_none (h : Wordless c) {half full : Text} (hc : c ∈ half ∨ c ∈ full) :
    ofWords? (α := α) half full = none := by
  rw [ofWords?]
  rcases hc with hc | hc
  · simp [h.ofToken?_eq_none hc]
  · simp [h.ofToken?_eq_none hc]

theorem ofHalfFull?_eq_none (h : Wordless c) (apart : c ∉ ['-', '/', '|', '>', '→']) (hc : c ∈ t) :
    ofHalfFull? (α := α) t = none := by
  obtain ⟨noDash, apart⟩ := not_or.mp (mt List.mem_cons.mpr apart)
  have undashed : (c == '-') = false := by simp [noDash]
  have dash := mem_dashed h apart hc
  have bare : c ∈ (dashed t).filter (· != '-') := by
    refine List.mem_filter.mpr ⟨dash, ?_⟩
    simp [bne, undashed]
  cases read : ofHalfFull? (α := α) t with
  | none => rfl
  | some r =>
    exfalso
    -- Each way of writing a pair leaves the mark in one of the halves, where no outcome has it.
    rcases ofHalfFull?_cases read with dashedPair | spaced | paired | joined
    · obtain ⟨half, full, cut, -, -, read⟩ := ofDashedPair?_eq_some dashedPair
      have piece := mem_splitWhere (p := (· == '-')) undashed dash
      rw [ofWords?_eq_none h (by simpa [cut] using piece)] at read
      cases read
    · obtain ⟨half, full, cut, read⟩ := ofSpacedPair?_eq_some spaced
      obtain ⟨piece, member, inside⟩ := mem_splitWhere h.solid hc
      have word : piece ∈ words t := by
        refine List.mem_filter.mpr ⟨member, ?_⟩
        simp [List.ne_nil_of_mem inside]
      have halves : c ∈ half ∨ c ∈ full := by
        rw [cut] at word
        rcases List.mem_pair.mp word with rfl | rfl
        · exact .inl inside
        · exact .inr inside
      rw [ofWords?_eq_none h halves] at read
      cases read
    · obtain ⟨half, full, made, read⟩ := ofPairedCharacters?_eq_some paired
      rw [ofWords?_eq_none h (by simpa [made] using bare)] at read
      cases read
    · obtain ⟨half, full, spelled, -⟩ := ofJoinedWords?_eq_some joined
      have lowered : c ∈ half.key ++ full.key := spelled ▸ h.mem_lowerFrom [] bare
      have word := isWord_key_append half full
      rw [h.isWord_eq_false lowered] at word
      cases word

end Pairs

theorem comma_notMem_of_market_ne_other (known : (ofName (α := α) t).market ≠ .other) :
    ',' ∉ t := by
  intro comma
  apply known
  rw [ofName_of_mem foreign_comma comma,
    ofHalfFull?_eq_none foreign_comma.toWordless (by decide) comma]
  rfl

theorem market_eq_halfFull_of_bar (known : (ofName (α := α) t).market ≠ .other) (bar : '|' ∈ t) :
    (ofName (α := α) t).market = .halfFull := by
  rw [ofName_of_mem foreign_bar bar] at known ⊢
  cases read : ofHalfFull? (α := α) t with
  | none => simp [read, market] at known
  | some r =>
    obtain ⟨half, full, rfl⟩ := exists_of_ofHalfFull? read
    rfl

end Reading

end Wager
