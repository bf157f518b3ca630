import Wager.Proofs.Scalar.Rational
import Wager.Proofs.Slip.Blocks
import Wager.Proofs.Slip.Score
import Wager.Proofs.Slip.Typed

/-!
# Blocks in any order

Every step of the extraction takes the blocks with its own keyword out of a listing, reads their
values as they were typed, and finds nothing in the other blocks or in what is left between them.
So blocks with different keywords can be listed in any order.
-/

namespace Wager

open Text

namespace Keyword

variable {β γ : Type} {ws ms : List Text}

theorem number?_of_endsNumber {t : Text} (ends : EndsNumber t) : number? t = none := by
  have nothing : spanNumber? t = none := by
    cases t with
    | nil => rfl
    | cons c t =>
      obtain ⟨noDigit, noPoint⟩ := ends c rfl
      have front : spanDecimal? (c :: t) = none := spanDecimal?_of_front fun d hd => (ends d hd).1
      simpa [spanNumber?, noPoint] using front
  rw [number?, nothing]
  rfl

end Keyword

/-- Behind a space a value is reached by every skip, and goes on no score. -/
structure Fronts (t : Text) : Prop where
  skipBlanks : skipBlanks (' ' :: t) = t
  skipAssign : Keyword.skipAssign (' ' :: t) = t
  skipJoints : Keyword.skipJoints (' ' :: t) = t
  apart : Keyword.scoreFollows (' ' :: t) = false
  noComma : ∀ r, t ≠ ',' :: r
  noSlash : ∀ r, t ≠ '/' :: r

theorem fronts_of_cons {c : Char} {t : Text} (solid : isBlank c = false)
    (other : c ∉ ['_', ':', '=', '-', ',', '/']) : Fronts (c :: t) := by
  simp only [List.mem_cons, List.not_mem_nil, or_false, not_or] at other
  obtain ⟨joint, colon, equals, dash, comma, slash⟩ := other
  have blank : isBlank ' ' = true := by decide
  have skipped : skipBlanks (' ' :: c :: t) = c :: t := by simp [skipBlanks, blank, solid]
  constructor
  · exact skipped
  · simp [Keyword.skipAssign, skipped, colon, equals]
  · simp [Keyword.skipJoints, blank, solid, joint]
  · simp [Keyword.scoreFollows, skipped, colon, dash]
  · exact fun r same => comma (List.cons.inj same).1
  · exact fun r same => slash (List.cons.inj same).1

theorem IsItem.fronts {t : Text} (h : IsItem t) (rest : Text) : Fronts (t ++ rest) := by
  rcases h with number | ⟨g, rfl⟩
  · obtain ⟨c, tail, rfl, digit | rfl⟩ := number.exists_cons
    · refine fronts_of_cons (wordless_of_isDigit digit).solid fun mark => ?_
      have noDigit : Digitless ['_', ':', '=', '-', ',', '/'] := by decide
      rw [noDigit c mark] at digit
      cases digit
    · exact fronts_of_cons rfl (by decide)
  · cases g <;> exact fronts_of_cons rfl (by decide)

namespace Block

def keywords : List Text :=
  ["conf".toList, "odds".toList, "fse".toList, "fid".toList, "tys".toList]

/-- The values of the blocks under a keyword of numbers, as typed. -/
def numbersOf (w : NumberWord) : Block → Option (List Text)
  | numbers w' first more => if w' = w then some (numbers w' first more).items else none
  | codes _ _ => none

def codesOf : Block → Option (List Tys)
  | numbers _ _ _ => none
  | codes first second => some (first :: second.toList)

theorem keyword_mem (b : Block) : b.keyword ∈ keywords := by
  cases b with
  | numbers w first more => cases w <;> simp [keyword, keywords, NumberWord.text]
  | codes first second => simp [keyword, keywords]

theorem isAlpha_keyword (b : Block) : b.keyword.all Char.isAlpha = true := by
  cases b with
  | numbers w first more => cases w <;> rfl
  | codes first second => rfl

theorem exists_items (b : Block) : ∃ x more, b.items = x :: more ∧ IsItem x := by
  cases b with
  | numbers w first more => exact ⟨_, _, rfl, .inl first.2⟩
  | codes first second => exact ⟨_, _, rfl, .inr ⟨first, rfl⟩⟩

end Block

section Misses

open Keyword Block

variable {β : Type} {p : Pattern β} {ws ms : List Text} {hit : Block → Option β}

theorem Keyword.Led.handles (h : Led ws ms p) (apart : areApart ws ms = true)
    (others : ∀ b, hit b = none → meets ws b.keyword = false)
    (reads : ∀ {b v rest}, hit b = some v → EndsBlock rest → ∀ before,
      before = none ∨ before = some ' ' → p before (b.text ++ rest) = some (v, rest)) :
    Handles p hit where
  reads := reads
  misses {b rest} nothing ends before _ := by
    rw [text_eq]
    exact h.misses_block apart b.isAlpha_keyword (others b nothing)
      (fun t => isItem_of_mem_items) ends.isPlain before
  space before := h.of_isPlain apart before rfl
  comma before := h.of_isPlain apart before rfl

theorem Keyword.Led.handles_none (h : Led ws ms p) (apart : areApart ws ms = true)
    (others : (keywords.all fun w => !meets ws w) = true) : Handles p fun _ => none :=
  h.handles apart (fun b _ => by simpa using List.all_eq_true.mp others _ b.keyword_mem) (by simp)

theorem handles_remarkMarker : Handles Extraction.remarkMarker fun _ => none :=
  Extraction.led_remarkMarker.handles_none (by decide) (by decide)

theorem handles_modeWord {w : Text} {m : Mode} (known : (w, m) ∈ Mode.aliases) :
    Handles (Extraction.modeWord w) fun _ => none := by
  have apart : (Mode.aliases.all fun a =>
      if Extraction.isAscii a.1 then areApart [a.1] [] && keywords.all fun w => !meets [a.1] w
      else areApart [] [a.1]) = true := by decide
  have checked := List.all_eq_true.mp apart (w, m) known
  split at checked
  next ascii =>
    obtain ⟨fresh, others⟩ := Bool.and_eq_true_iff.mp checked
    exact (Extraction.led_modeWord_of_isAscii ascii).handles_none fresh others
  next other =>
    have foreign := Extraction.led_modeWord_of_not_isAscii (Bool.eq_false_iff.mpr other)
    exact foreign.handles_none checked (by decide)

theorem handles_sideBefore (w : Text) (value : Text → Option (β × Text)) :
    Handles (sided (sideBefore w) value) fun _ => none :=
  (led_sideBefore w value).handles_none (by decide) (by decide)

theorem standsFree_of_space {before : Option Char} (stands : before = none ∨ before = some ' ') :
    standsFree before = true := by
  rcases stands with rfl | rfl <;> rfl

theorem afterWord?_append (w t : Text) : afterWord? w (w ++ t) = some t := by
  induction w with
  | nil => cases t <;> rfl
  | cons k w ih =>
    have same : sameLetter k k = true := by simp [sameLetter]
    rw [List.cons_append, afterWord?, same, if_pos rfl, ih]

theorem sideAfter_text (b : Block) {rest : Text} (ends : EndsBlock rest) (before : Option Char) :
    sideAfter b.keyword before (b.text ++ rest) = none := by
  obtain ⟨x, more, items, value⟩ := b.exists_items
  have noSide : (sideWord? (x ++ (spaced more ++ rest)) <|>
      sideCharacter? (x ++ (spaced more ++ rest))) = none :=
    (led_sideWord?.orElse led_sideCharacter?).of_isItem (by decide) value
      (front_append_items ends.isPlain) none
  have skipped := (value.fronts (spaced more ++ rest)).skipJoints
  rw [sideAfter, text_eq, items, List.append_assoc, afterWord?_append, spaced_cons,
    List.cons_append, List.append_assoc]
  cases standsFree before with
  | false => rfl
  | true =>
    change ((sideWord? (skipJoints _) <|> sideCharacter? (skipJoints _)).bind _) = none
    rw [skipped, noSide]
    rfl

theorem handles_sideAfter {w : Text} (value : Text → Option (β × Text))
    (apart : areApart [w] [] = true)
    (others : (keywords.all fun v => !meets [w] (if v = w then v.drop 1 else v)) = true) :
    Handles (sided (sideAfter w) value) fun _ => none where
  reads := by simp
  misses {b rest} _ ends before _ := by
    have checked := List.all_eq_true.mp others _ b.keyword_mem
    have letters := b.isAlpha_keyword
    by_cases own : b.keyword = w
    · rw [if_pos own] at checked
      subst own
      have here : sided (sideAfter b.keyword) value before (b.text ++ rest) = none := by
        rw [sided, sideAfter_text b ends]
        rfl
      rw [text_eq] at here ⊢
      generalize b.keyword = w at *
      cases w with
      | nil => cases apart
      | cons k v =>
        refine ⟨here, (led_sideAfter _ value).misses_block apart ?_ (by simpa using checked)
          (fun t => isItem_of_mem_items) ends.isPlain _⟩
        exact (Bool.and_eq_true_iff.mp letters).2
    · rw [if_neg own] at checked
      rw [text_eq]
      exact (led_sideAfter w value).misses_block apart letters (by simpa using checked)
        (fun t => isItem_of_mem_items) ends.isPlain before
  space before := (led_sideAfter w value).of_isPlain apart before rfl
  comma before := (led_sideAfter w value).of_isPlain apart before rfl

end Misses

section Numbers

open Keyword Block

variable {items : List Text} {rest : Text}

theorem EndsBlock.endsNumber_spaced (ends : EndsBlock rest) (values : ∀ t ∈ items, IsItem t) :
    EndsNumber (spaced items ++ rest) ∧ scoreFollows (spaced items ++ rest) = false := by
  cases items with
  | nil =>
    rcases ends with rfl | ⟨r, rfl, -⟩
    · exact ⟨endsNumber_nil, rfl⟩
    · refine ⟨?_, rfl⟩
      rintro c ⟨⟩
      decide
  | cons x items =>
    have front := (values x List.mem_cons_self).fronts (spaced items ++ rest)
    refine ⟨?_, ?_⟩
    · rintro c ⟨⟩
      decide
    · rw [spaced_cons, List.cons_append, List.append_assoc]
      exact front.apart

theorem number?_append_spaced {t : Text} (number : IsNumeral t) (ends : EndsBlock rest)
    (values : ∀ t ∈ items, IsItem t) :
    number? (t ++ (spaced items ++ rest)) = some (t, spaced items ++ rest) := by
  obtain ⟨ended, apart⟩ := ends.endsNumber_spaced values
  rw [number.number?_append ended, apart, if_neg Bool.false_ne_true]

theorem EndsBlock.nextItem?_eq_none {β : Type} {item : Text → Option (β × Text)}
    (nothing : ∀ t, (∀ c ∈ t.head?, c ∈ [',', 'c', 'o', 'f', 't']) → item t = none)
    (ends : EndsBlock rest) : nextItem? item rest = none := by
  rcases ends with rfl | ⟨r, rfl, front⟩
  · rfl
  · exact nothing (skipBlanks r) front

theorem number?_of_letter (t : Text) (front : ∀ c ∈ t.head?, c ∈ [',', 'c', 'o', 'f', 't']) :
    number? t = none := by
  apply number?_of_endsNumber
  intro c hc
  have letter := front c hc
  simp only [List.mem_cons, List.not_mem_nil, or_false] at letter
  rcases letter with rfl | rfl | rfl | rfl | rfl <;> decide

theorem nextItem?_space {β : Type} (item : Text → Option (β × Text)) {t : Text} (front : Fronts t) :
    nextItem? item (' ' :: t) = item t := by
  unfold nextItem?
  rw [front.skipBlanks]
  split
  next r => exact absurd rfl (front.noComma r)
  next r => exact absurd rfl (front.noSlash r)
  next => exact if_pos (Nat.lt_succ_self _)

theorem moreNumbers_spaced (numbers : ∀ t ∈ items, IsNumeral t) (ends : EndsBlock rest) {most : Nat}
    (enough : items.length ≤ most) : moreNumbers most (spaced items ++ rest) = (items, rest) := by
  induction items generalizing most with
  | nil =>
    cases most with
    | zero => rfl
    | succ most =>
      have stop : nextNumber? rest = none :=
        nextNumber?_eq ▸ ends.nextItem?_eq_none number?_of_letter
      rw [spaced_nil, List.nil_append, moreNumbers, stop]
  | cons x items ih =>
    obtain ⟨number, later⟩ := List.forall_mem_cons.mp numbers
    cases most with
    | zero => cases enough
    | succ most =>
      have value : IsItem x := .inl number
      have next : nextNumber? (' ' :: (x ++ (spaced items ++ rest))) =
          some (x, spaced items ++ rest) := by
        rw [nextNumber?_eq, nextItem?_space _ (value.fronts _)]
        exact number?_append_spaced number ends fun t ht => .inl (later t ht)
      rw [spaced_cons, List.cons_append, List.append_assoc, moreNumbers, next]
      simp only [ih later (Nat.le_of_succ_le_succ enough)]

theorem length_le_spaced (items : List Text) : items.length ≤ (spaced items).length := by
  induction items with
  | nil => exact le_rfl
  | cons x items ih =>
    rw [spaced_cons, List.length_cons, List.length_cons, List.length_append]
    omega

theorem numbers?_spaced {x : Text} {more : List Text} (numbers : ∀ t ∈ x :: more, IsNumeral t)
    (ends : EndsBlock rest) :
    numbers? (skipAssign (spaced (x :: more) ++ rest)) = some (x :: more, rest) := by
  obtain ⟨number, later⟩ := List.forall_mem_cons.mp numbers
  have value : IsItem x := .inl number
  have enough : more.length ≤ (spaced more ++ rest).length := by
    have := length_le_spaced more
    rw [List.length_append]
    omega
  rw [spaced_cons, List.cons_append, List.append_assoc, (value.fronts _).skipAssign, numbers?,
    number?_append_spaced number ends fun t ht => .inl (later t ht)]
  simp only [Option.bind_eq_bind, Option.bind_some, moreNumbers_spaced later ends enough]
  rfl

theorem word?_append (w : Text) {before : Option Char} (stands : before = none ∨ before = some ' ')
    (t : Text) : word? w before (w ++ ' ' :: t) = some (' ' :: t) := by
  rw [word?, standsFree_of_space stands, afterWord?_append]
  rfl

theorem numbersOf_eq_none_iff {w : NumberWord} {b : Block} :
    numbersOf w b = none ↔ b.keyword ≠ w.text := by
  cases b with
  | numbers w' first more => cases w <;> cases w' <;> simp [numbersOf, keyword, NumberWord.text]
  | codes first second => cases w <;> simp [numbersOf, keyword, NumberWord.text]

theorem numbersOf_eq_none_of_isSome {w w' : NumberWord} (other : w ≠ w') {b : Block}
    (h : (numbersOf w b).isSome = true) : numbersOf w' b = none := by
  cases b with
  | numbers v first more =>
    have own : v = w := by
      by_contra no
      simp [numbersOf, no] at h
    simp [numbersOf, own, other]
  | codes first second => rfl

theorem numbersOf_eq_none_of_codesOf {w : NumberWord} {b : Block}
    (h : (codesOf b).isSome = true) : numbersOf w b = none := by
  cases b with
  | numbers v first more => cases h
  | codes first second => rfl

theorem codesOf_eq_none_of_numbersOf {w : NumberWord} {b : Block}
    (h : (numbersOf w b).isSome = true) : codesOf b = none := by
  cases b with
  | numbers v first more => rfl
  | codes first second => cases h

theorem handles_numbersAfter {ws ms : List Text} {lead : Option Char → Text → Option Text}
    (w : NumberWord) (led : Led ws ms lead) (apart : areApart ws ms = true)
    (others : (keywords.all fun v => v == w.text || !meets ws v) = true)
    (own : ∀ {before}, before = none ∨ before = some ' ' →
      ∀ t, lead before (w.text ++ ' ' :: t) = some (' ' :: t)) :
    Handles (numbersAfter lead) (numbersOf w) := by
  refine (led.bind _).handles apart (fun b nothing => ?_)
    fun {b v rest} value ends before stands => ?_
  · have checked := List.all_eq_true.mp others _ b.keyword_mem
    simpa [numbersOf_eq_none_iff.mp nothing] using checked
  · cases b with
    | codes first second => cases value
    | numbers w' first more =>
      rw [numbersOf] at value
      split at value
      next same =>
        subst same
        cases value
        have numerals : ∀ t ∈ first.1 :: more.map (·.1), IsNumeral t := by
          simpa using ⟨first.2, fun t ht _ => ht⟩
        have read := numbers?_spaced numerals ends
        rw [text_eq, keyword, items, List.append_assoc]
        rw [spaced_cons, List.cons_append] at read ⊢
        change (lead before _).bind _ = _
        rw [own stands]
        exact read
      next => cases value

end Numbers

section Codes

open Keyword Block

theorem code?_code (g : Tys) (t : Text) : code? (g.code :: t) = some (g, t) := by
  cases g <;> rfl

theorem endingCode?_of_letter (t : Text) (front : ∀ c ∈ t.head?, c ∈ [',', 'c', 'o', 'f', 't']) :
    endingCode? t = none := by
  cases t with
  | nil => rfl
  | cons c t =>
    have letter := front c rfl
    simp only [List.mem_cons, List.not_mem_nil, or_false] at letter
    rcases letter with rfl | rfl | rfl | rfl | rfl <;> rfl

theorem EndsBlock.endsWord {rest : Text} (h : EndsBlock rest) : endsWord rest = true := by
  rcases h with rfl | ⟨r, rfl, -⟩ <;> rfl

theorem handles_codesAfter : Handles codesAfter codesOf := by
  refine led_codesAfter.handles (by decide) (fun b nothing => ?_)
    fun {b v rest} value ends before stands => ?_
  · cases b with
    | numbers w first more => cases w <;> rfl
    | codes first second => cases nothing
  · cases b with
    | numbers w first more => cases value
    | codes first second =>
      cases value
      have front (g : Tys) (t : Text) : Fronts (g.code :: t) := IsItem.fronts (.inr ⟨g, rfl⟩) t
      have assigned :=
        (front first (spaced (second.toList.map fun g => [g.code]) ++ rest)).skipAssign
      rw [text_eq, keyword, items, List.append_assoc, spaced_cons, List.cons_append,
        List.singleton_append, List.cons_append, codesAfter, standsFree_of_space stands,
        afterWord?_append]
      simp only [guard_true, Option.bind_eq_bind, Option.bind_some, assigned, code?_code]
      cases second with
      | none =>
        have stop : secondCode? rest = none :=
          secondCode?_eq ▸ ends.nextItem?_eq_none endingCode?_of_letter
        simp [stop, ends.endsWord]
      | some g =>
        have next : secondCode? (' ' :: g.code :: rest) = some (g, rest) := by
          rw [secondCode?_eq, nextItem?_space _ (front g rest), endingCode?, code?_code]
          simp [ends.endsWord]
        simp [spaced_cons, next]

end Codes

section Trails

open Keyword Block

variable {ws ms : List Text} {trail : Text → Option Text}

theorem numberBefore_of_endsNumber {t : Text} (ends : EndsNumber t) (before : Option Char) :
    numberBefore trail before t = none := by
  rw [numberBefore, number?_of_endsNumber ends]
  cases startsNumber before <;> rfl

theorem misses_numberBefore_of_isDigit {x : Text} (chars : ∀ c ∈ x, isDigit c = true ∨ c = '.')
    {before : Char} (char : isDigit before = true ∨ before = '.') (rest : Text) :
    (numberBefore trail).Misses (some before) x rest := by
  induction x generalizing before with
  | nil => trivial
  | cons c x ih =>
    obtain ⟨first, later⟩ := List.forall_mem_cons.mp chars
    refine ⟨?_, ih later first⟩
    have inside : startsNumber (some before) = false := by
      rcases char with digit | rfl
      · simp [startsNumber, digit]
      · rfl
    rw [numberBefore, inside]
    rfl

theorem misses_numberBefore_of_isAlpha {x : Text} (letters : x.all Char.isAlpha = true)
    (before : Option Char) (rest : Text) : (numberBefore trail).Misses before x rest := by
  induction x generalizing before with
  | nil => trivial
  | cons c x ih =>
    obtain ⟨first, later⟩ := Bool.and_eq_true_iff.mp letters
    refine ⟨numberBefore_of_endsNumber ?_ before, ih later (some c)⟩
    rintro d ⟨⟩
    refine ⟨isDigit_of_isWordChar (by simp [isWordChar, first]), ?_⟩
    rintro rfl
    cases first

theorem trail_skipBlanks (led : Led ws ms fun _ => trail) (apart : areApart ws ms = true)
    {items : List Text} {rest : Text} (ends : EndsBlock rest) (values : ∀ t ∈ items, IsItem t) :
    trail (skipBlanks (spaced items ++ rest)) = none := by
  cases items with
  | nil =>
    rcases ends with rfl | ⟨r, rfl, -⟩
    · exact led.of_nil apart none
    · exact led.of_isPlain apart none rfl _
  | cons x items =>
    have value := values x List.mem_cons_self
    rw [spaced_cons, List.cons_append, List.append_assoc, (value.fronts _).skipBlanks]
    exact led.of_isItem apart value (front_append_items ends.isPlain) none

theorem misses_numberBefore_spaced (led : Led ws ms fun _ => trail) (apart : areApart ws ms = true)
    {items : List Text} {rest : Text} (ends : EndsBlock rest) (values : ∀ t ∈ items, IsItem t)
    (before : Option Char) : (numberBefore trail).Misses before (spaced items) rest := by
  induction items generalizing before with
  | nil => trivial
  | cons x items ih =>
    obtain ⟨value, later⟩ := List.forall_mem_cons.mp values
    rw [spaced_cons]
    refine ⟨numberBefore_of_endsNumber (by rintro c ⟨⟩; decide) before,
      Pattern.misses_append.mpr ⟨?_, ih later _⟩⟩
    rcases value with number | ⟨g, rfl⟩
    · have read := number?_append_spaced number ends later
      have chars := number.isDigit_or_point
      obtain ⟨c, tail, rfl, front⟩ := number.exists_cons
      refine ⟨?_, misses_numberBefore_of_isDigit (List.forall_mem_cons.mp chars).2 front _⟩
      rw [← List.cons_append, numberBefore, read]
      simp [trail_skipBlanks led apart ends later]
    · exact misses_numberBefore_of_isAlpha (by cases g <;> rfl) _ _

theorem handles_numberBefore (led : Led ws ms fun _ => trail) (apart : areApart ws ms = true) :
    Handles (numberBefore trail) fun _ => none where
  reads := by simp
  misses {b rest} _ ends before _ := by
    rw [text_eq]
    exact Pattern.misses_append.mpr ⟨misses_numberBefore_of_isAlpha b.isAlpha_keyword _ _,
      misses_numberBefore_spaced led apart ends (fun t => isItem_of_mem_items) _⟩
  space before t := numberBefore_of_endsNumber (by rintro c ⟨⟩; decide) before
  comma before t := numberBefore_of_endsNumber (by rintro c ⟨⟩; decide) before

end Trails

namespace Extraction

open Keyword Block

variable {β : Type} {ws ms : List Text}

theorem sweep_of_handles_none {p : Pattern β} (h : Handles p fun _ => none)
    (l : List (Option Block)) : p.sweep (stage l) = ([], stage l) := by
  have same (o : Option Block) : cut (fun _ => (none : Option β)) o = o := by cases o <;> rfl
  have values : l.filterMap (·.bind fun _ => (none : Option β)) = [] := by simp
  rw [h.sweep_stage, values, List.map_congr_left fun o _ => same o, List.map_id']

theorem find_of_handles_none {p : Pattern β} (h : Handles p fun _ => none)
    (l : List (Option Block)) : p.find (stage l) = none :=
  Pattern.findFrom_of_sweepFrom (congrArg Prod.fst (sweep_of_handles_none h l))

theorem takeSided_stage {w : Text} (value : Text → Option (β × Text))
    (apart : areApart [w] [] = true)
    (others : (keywords.all fun v => !meets [w] (if v = w then v.drop 1 else v)) = true)
    (l : List (Option Block)) : takeSided w value (stage l) = ([], stage l) := by
  simp only [takeSided, sweep_of_handles_none (handles_sideAfter value apart others),
    sweep_of_handles_none (handles_sideBefore w value), List.append_nil]

theorem takeNumbers_stage {lead : Option Char → Text → Option Text} {trail : Text → Option Text}
    {hit : Block → Option (List Text)} {trails trailMarks : List Text}
    (reads : Handles (numbersAfter lead) hit) (led : Led trails trailMarks fun _ => trail)
    (apart : areApart trails trailMarks = true) (l : List (Option Block)) :
    takeNumbers lead trail (stage l) =
      (l.filterMap (·.bind hit), stage (l.map (cut hit))) := by
  simp only [takeNumbers, reads.sweep_stage,
    sweep_of_handles_none (handles_numberBefore led apart), List.append_nil]

theorem handles_fse : Handles (numbersAfter fseWord) (numbersOf .fse) :=
  handles_numbersAfter .fse (led_word? _) (by decide) (by decide) fun stands =>
    word?_append _ stands

theorem handles_conf : Handles (numbersAfter confLead) (numbersOf .conf) := by
  refine handles_numbersAfter .conf led_confLead (by decide) (by decide) fun {before} stands t => ?_
  have short : word? "confidence".toList before ("conf".toList ++ ' ' :: t) = none := by
    rcases stands with rfl | rfl <;> rfl
  rw [confLead, NumberWord.text, short, word?_append _ stands]
  rfl

theorem handles_odds : Handles (numbersAfter oddsLead) (numbersOf .odds) := by
  refine handles_numbersAfter .odds led_oddsLead (by decide) (by decide) fun stands t => ?_
  rw [oddsLead, NumberWord.text, word?_append _ stands]
  rfl

theorem handles_fid : Handles (numbersAfter fidLead) (numbersOf .fid) :=
  handles_numbersAfter .fid (led_word? _) (by decide) (by decide) fun stands =>
    word?_append _ stands

theorem filterMap_map_cut {γ : Type} {hit : Block → Option β} {other : Block → Option γ}
    (apart : ∀ b, (other b).isSome = true → hit b = none) (l : List (Option Block)) :
    (l.map (cut hit)).filterMap (·.bind other) = l.filterMap (·.bind other) := by
  rw [List.filterMap_map]
  apply List.filterMap_congr
  rintro (_ | b) -
  · rfl
  · cases value : other b with
    | none => cases taken : hit b <;> simp [cut, Option.filter, taken, value]
    | some v => simp [cut, Option.filter, apart b (by simp [value]), value]

theorem isPlain_or_isAlpha_of_mem_text {b : Block} {c : Char} (hc : c ∈ b.text) :
    isPlain c = true ∨ c.isAlpha = true := by
  rw [text_eq, spaced] at hc
  rcases List.mem_append.mp hc with hc | hc
  · exact .inr (List.all_eq_true.mp b.isAlpha_keyword c hc)
  · obtain ⟨x, hx, hc⟩ := List.mem_flatMap.mp hc
    rcases List.mem_cons.mp hc with rfl | hc
    · exact .inl rfl
    · rcases isItem_of_mem_items hx with number | ⟨g, rfl⟩
      · exact .inl (number.isPlain c hc)
      · obtain rfl := List.mem_singleton.mp hc
        right
        cases g <;> rfl

theorem isPlain_or_isAlpha_of_mem_listing {l : List Block} {c : Char} (hc : c ∈ listing l) :
    isPlain c = true ∨ c.isAlpha = true := by
  cases l with
  | nil => cases hc
  | cons b l =>
    rw [listing_eq_stage, List.map_cons, stage_cons] at hc
    rcases List.mem_append.mp hc with hc | hc
    · exact isPlain_or_isAlpha_of_mem_text hc
    · obtain ⟨x, hx, hc⟩ := List.mem_flatMap.mp hc
      simp only [List.map_map, List.mem_map] at hx
      obtain ⟨b', -, rfl⟩ := hx
      rcases List.mem_append.mp hc with hc | hc
      · simp only [List.mem_cons, List.not_mem_nil, or_false] at hc
        rcases hc with rfl | rfl
        · exact .inl rfl
        · exact .inl rfl
      · exact isPlain_or_isAlpha_of_mem_text hc

theorem indexOf?_of_notMem {k : Char} {piece t : Text} (free : k ∉ t) :
    indexOf? (k :: piece) t = none := by
  induction t with
  | nil => rfl
  | cons c t ih =>
    rw [List.mem_cons, not_or] at free
    rw [indexOf?_cons_of_not (isPrefixOf_cons_of_ne free.1 piece t), ih free.2]
    rfl

theorem takeLabel?_listing (l : List Block) : takeLabel? (listing l) = none := by
  have absent {c : Char} (other : isPlain c = false ∧ c.isAlpha = false) : c ∉ listing l := by
    intro hc
    rcases isPlain_or_isAlpha_of_mem_listing hc with plain | letter
    · rw [other.1] at plain
      cases plain
    · rw [other.2] at letter
      cases letter
  rw [takeLabel?, List.findSome?_eq_none_iff]
  intro m _
  rw [indexOf?_lower m.caseless_label (absent (by decide)), Option.map_eq_none_iff]
  cases m <;> exact indexOf?_of_notMem (absent (by decide))

theorem takeMode_listing (l : List Block) : takeMode (listing l) = (none, listing l) := by
  have noAlias : takeAlias? (listing l) = none := by
    rw [takeAlias?, List.findSome?_eq_none_iff, listing_eq_stage]
    intro (w, m) known
    exact congrArg (Option.map _) (find_of_handles_none (handles_modeWord known) _)
  rw [takeMode, takeLabel?_listing, noAlias]
  rfl

theorem takeRemark_listing (l : List Block) : takeRemark (listing l) = ([], listing l) := by
  rw [takeRemark, listing_eq_stage, find_of_handles_none handles_remarkMarker]

/-- What a listing of blocks states: the values of each keyword in the order of its blocks. -/
def stated (l : List Block) : Typed where
  remark := []
  mode := none
  fseSided := []
  fseBoth := l.filterMap (numbersOf .fse)
  tysSided := []
  tysBoth := l.filterMap codesOf
  conf := l.filterMap (numbersOf .conf)
  odds := l.filterMap (numbersOf .odds)
  fid := l.filterMap (numbersOf .fid)

theorem typed_listing (l : List Block) :
    typed (listing l) = (stated l, stage (l.map fun _ => none)) := by
  simp only [typed, takeRemark_listing, takeMode_listing]
  simp only [listing_eq_stage,
    takeSided_stage (w := "fse".toList) Keyword.numbers? (by decide) (by decide),
    handles_fse.sweep_stage,
    takeSided_stage (w := "tys".toList) Keyword.endingCode? (by decide) (by decide),
    handles_codesAfter.sweep_stage, takeNumbers_stage handles_conf led_confTrail (by decide),
    takeNumbers_stage handles_odds led_oddsTrail (by decide),
    takeNumbers_stage handles_fid led_fidTrail (by decide)]
  have values {γ : Type} (hit : Block → Option γ) :
      (l.map some).filterMap (·.bind hit) = l.filterMap hit := by
    rw [List.filterMap_map]
    rfl
  have gone : (((((l.map some).map (cut (numbersOf .fse))).map (cut codesOf)).map
      (cut (numbersOf .conf))).map (cut (numbersOf .odds))).map (cut (numbersOf .fid)) =
        l.map fun _ => none := by
    simp only [List.map_map]
    apply List.map_congr_left
    intro b _
    cases b with
    | numbers w first more => cases w <;> rfl
    | codes first second => rfl
  rw [gone]
  have apart {w w' : NumberWord} (other : w ≠ w') (l : List (Option Block)) :
      (l.map (cut (numbersOf w'))).filterMap (·.bind (numbersOf w)) =
        l.filterMap (·.bind (numbersOf w)) :=
    filterMap_map_cut (fun b => numbersOf_eq_none_of_isSome other) l
  simp only [filterMap_map_cut fun b => numbersOf_eq_none_of_codesOf,
    filterMap_map_cut fun b => codesOf_eq_none_of_numbersOf,
    @apart .conf .fse (by decide), @apart .odds .conf (by decide), @apart .odds .fse (by decide),
    @apart .fid .odds (by decide), @apart .fid .conf (by decide), @apart .fid .fse (by decide),
    values, stated]

theorem mem_stage_none {l : List Block} {c : Char} (hc : c ∈ stage (l.map fun _ => none)) :
    c = ',' ∨ c = ' ' := by
  cases l with
  | nil => cases hc
  | cons b l =>
    rw [List.map_cons, stage_cons] at hc
    rcases List.mem_append.mp hc with hc | hc
    · exact .inr (List.mem_singleton.mp hc)
    · obtain ⟨x, hx, hc⟩ := List.mem_flatMap.mp hc
      simp only [List.map_map, List.mem_map] at hx
      obtain ⟨b', -, rfl⟩ := hx
      simpa [place] using hc

theorem length_filterMap_le {hit : Block → Option β} {k : Text}
    (under : ∀ b v, hit b = some v → b.keyword = k) (l : List Block) :
    (l.filterMap hit).length ≤ (l.map Block.keyword).count k := by
  induction l with
  | nil => exact le_rfl
  | cons b l ih =>
    rw [List.map_cons, List.count_cons]
    cases value : hit b with
    | none =>
      rw [List.filterMap_cons_none value]
      omega
    | some v =>
      rw [List.filterMap_cons_some value, List.length_cons, under b v value,
        if_pos (beq_self_eq_true k)]
      omega

theorem filterMap_eq_of_perm {hit : Block → Option β} {k : Text}
    (under : ∀ b v, hit b = some v → b.keyword = k) {l l' : List Block}
    (distinct : (l.map Block.keyword).Nodup) (perm : l.Perm l') :
    l.filterMap hit = l'.filterMap hit := by
  have few := (length_filterMap_le under l).trans (List.nodup_iff_count_le_one.mp distinct k)
  have same := perm.filterMap hit
  generalize l.filterMap hit = values at few same ⊢
  match values with
  | [] => exact (List.nil_perm.mp same).symm
  | [v] => exact List.singleton_perm.mp same
  | v :: w :: more =>
    simp only [List.length_cons] at few
    omega

theorem stated_eq_of_perm {l l' : List Block} (distinct : (l.map Block.keyword).Nodup)
    (perm : l.Perm l') : stated l = stated l' := by
  have numbers (w : NumberWord) : l.filterMap (numbersOf w) = l'.filterMap (numbersOf w) := by
    refine filterMap_eq_of_perm (k := w.text) (fun b v value => ?_) distinct perm
    by_contra other
    rw [numbersOf_eq_none_iff.mpr other] at value
    cases value
  have codes : l.filterMap codesOf = l'.filterMap codesOf := by
    refine filterMap_eq_of_perm (k := "tys".toList) (fun b v value => ?_) distinct perm
    cases b with
    | numbers w first more => cases value
    | codes first second => rfl
  simp only [stated, numbers, codes]

variable {α : Type} [Scalar α]

theorem ofText_listing (l : List Block) : (ofText (listing l) : Extraction α) =
    { params := (stated l).params
      remarks := (stated l).remarks α
      residual := trim (collapse (stage (l.map fun _ => none))) } := by
  rw [ofText_eq_typed, typed_listing]

/-- Blocks with different keywords state the same in any order, and nothing but commas and spaces
remains of them. -/
theorem ofText_listing_perm {l l' : List Block} (distinct : (l.map Block.keyword).Nodup)
    (perm : l.Perm l') :
    (ofText (listing l) : Extraction α).params = (ofText (listing l')).params ∧
      (ofText (listing l) : Extraction α).remarks = (ofText (listing l') : Extraction α).remarks ∧
      ∀ c ∈ (ofText (listing l) : Extraction α).residual, c = ',' ∨ c = ' ' := by
  rw [ofText_listing, ofText_listing, stated_eq_of_perm distinct perm]
  refine ⟨rfl, rfl, fun c hc => ?_⟩
  have kept := (trimWhere_isInfixOf isBlank _).subset hc
  exact (mem_collapseFrom kept).elim mem_stage_none .inr

def tenths : { t : Text // IsNumeral t } :=
  ⟨"3.5".toList, .decimal (@IsDecimal.fraction ['3'] ['5'] (by simp [IsDigits]; decide)
    (by simp [IsDigits]; decide))⟩

theorem ofText_listing_perm_pair :
    let conf : Block := .numbers .conf tenths []
    let tys : Block := .codes .small (some .heavy)
    listing [conf, tys] = "conf 3.5, tys S H".toList ∧
      ([conf, tys].map Block.keyword).Nodup ∧ [conf, tys].Perm [tys, conf] ∧
      (ofText (listing [conf, tys]) : Extraction ℚ).params = (ofText (listing [tys, conf])).params ∧
      (ofText (listing [conf, tys]) : Extraction ℚ).remarks =
        (ofText (listing [tys, conf]) : Extraction ℚ).remarks ∧
      ∀ c ∈ (ofText (listing [conf, tys]) : Extraction ℚ).residual, c = ',' ∨ c = ' ' := by
  intro conf tys
  have distinct : ([conf, tys].map Block.keyword).Nodup := by decide
  have perm : [conf, tys].Perm [tys, conf] := .swap tys conf []
  exact ⟨by rfl, distinct, perm, ofText_listing_perm distinct perm⟩

end Extraction

end Wager
