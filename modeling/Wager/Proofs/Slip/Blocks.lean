import Wager.Proofs.Slip.Led
import Wager.Proofs.Slip.ModeName
import Wager.Proofs.Slip.Remark

/-!
# Blocks

A block is a keyword with its values behind it, separated by single spaces.  A pattern with words
of its own matches nowhere in a block with another keyword: the keyword has none of the words in
it, and the values have no letters but single TYS codes.  So a sweep of a listing takes out the
blocks that its pattern reads, one space for each, and leaves the others as they are.
-/

namespace Wager

open Text

inductive NumberWord where
  | conf
  | odds
  | fse
  | fid
  deriving DecidableEq

def NumberWord.text : NumberWord → Text
  | .conf => "conf".toList
  | .odds => "odds".toList
  | .fse => "fse".toList
  | .fid => "fid".toList

/-- A keyword with one or more numbers, or with one or two TYS codes. -/
inductive Block where
  | numbers (w : NumberWord) (first : { t : Text // IsNumeral t })
    (more : List { t : Text // IsNumeral t })
  | codes (first : Tys) (second : Option Tys)

namespace Block

def keyword : Block → Text
  | numbers w _ _ => w.text
  | codes _ _ => "tys".toList

def items : Block → List Text
  | numbers _ first more => first.1 :: more.map (·.1)
  | codes first second => [first.code] :: second.toList.map fun g => [g.code]

def text (b : Block) : Text := join [' '] (b.keyword :: b.items)

end Block

def listing (l : List Block) : Text := join [',', ' '] (l.map Block.text)

theorem join_cons_eq_flatMap (separator x : Text) (more : List Text) :
    join separator (x :: more) = x ++ more.flatMap (separator ++ ·) := by
  induction more generalizing x with
  | nil => simp [join]
  | cons y more ih =>
    rw [join_cons x (List.cons_ne_nil y more), ih, List.flatMap_cons, List.append_assoc,
      List.append_assoc]

/-- Whether a character is of a number or stands between values. -/
def isPlain (c : Char) : Bool := isDigit c || c == '.' || c == ' ' || c == ','

theorem IsNumeral.isPlain {t : Text} (h : IsNumeral t) : ∀ c ∈ t, isPlain c = true := by
  intro c hc
  rcases h.isDigit_or_point c hc with digit | rfl
  · simp [Wager.isPlain, digit]
  · rfl

def IsItem (t : Text) : Prop := IsNumeral t ∨ ∃ g : Tys, t = [g.code]

theorem Block.isItem_of_mem_items {b : Block} {t : Text} (h : t ∈ b.items) : IsItem t := by
  cases b with
  | numbers w first more =>
    left
    rcases List.mem_cons.mp h with rfl | h
    · exact first.2
    · obtain ⟨n, -, rfl⟩ := List.mem_map.mp h
      exact n.2
  | codes first second =>
    right
    rcases List.mem_cons.mp h with rfl | h
    · exact ⟨first, rfl⟩
    · obtain ⟨g, -, rfl⟩ := List.mem_map.mp h
      exact ⟨g, rfl⟩

def spaced (items : List Text) : Text := items.flatMap (' ' :: ·)

@[simp] theorem spaced_nil : spaced [] = [] := rfl

theorem spaced_cons (t : Text) (items : List Text) :
    spaced (t :: items) = ' ' :: (t ++ spaced items) := rfl

namespace Keyword

variable {β γ : Type} {ws ms : List Text}

def meets (ws : List Text) : Text → Bool
  | [] => false
  | c :: t => ws.any (fun w => (afterWord? w (c :: t)).isSome) || meets ws t

/-- Whether words and marks stand in no value of a block: the words are of small letters and none is
a TYS code, the marks begin with no letter and nothing plain. -/
def areApart (ws ms : List Text) : Bool :=
  (ws.all fun w => !w.isEmpty && w.all Char.isLower) &&
    (ms.all fun m => m.head?.any fun c => !isPlain c && !c.isAlpha) &&
    Tys.all.all fun g => !meets ws [g.code]

theorem sameLetter_of_isPlain {k c : Char} (small : k.isLower = true) (plain : isPlain c = true) :
    sameLetter k c = false := by
  have other {d : Char} (noLetter : d.isLower = false) : d ≠ k := by
    rintro rfl
    rw [small] at noLetter
    cases noLetter
  simp only [isPlain, Bool.or_eq_true, beq_iff_eq] at plain
  rcases plain with ((digit | rfl) | rfl) | rfl
  · have noDigit : isDigit k = false := by
      apply isDigit_of_isWordChar
      simp [isWordChar, Char.isAlpha, small]
    exact sameLetter_of_isDigit digit noDigit
  · simp [sameLetter, other (d := '.') (by decide)]
  · simp [sameLetter, other (d := ' ') (by decide)]
  · simp [sameLetter, other (d := ',') (by decide)]

theorem front_append_items {items : List Text} {rest : Text}
    (ends : ∀ c ∈ rest.head?, isPlain c = true) :
    ∀ c ∈ (spaced items ++ rest).head?, isPlain c = true := by
  cases items with
  | nil => exact ends
  | cons x items =>
    rintro c ⟨⟩
    rfl

section Apart

variable (apart : areApart ws ms = true)
include apart

theorem small_of_areApart {w : Text} (hw : w ∈ ws) :
    ∃ k tail, w = k :: tail ∧ ∀ c ∈ w, c.isLower = true := by
  simp only [areApart, Bool.and_eq_true, List.all_eq_true] at apart
  have words := apart.1.1 w hw
  cases w with
  | nil => cases words.1
  | cons k tail => exact ⟨k, tail, rfl, words.2⟩

theorem meets_code (g : Tys) : meets ws [g.code] = false := by
  simp only [areApart, Bool.and_eq_true, List.all_eq_true] at apart
  simpa using apart.2 g (by cases g <;> decide)

theorem front_of_areApart {m : Text} (hm : m ∈ ms) :
    ∃ k tail, m = k :: tail ∧ isPlain k = false ∧ k.isAlpha = false := by
  simp only [areApart, Bool.and_eq_true, List.all_eq_true] at apart
  have front := apart.1.2 m hm
  cases m with
  | nil => cases front
  | cons k tail => exact ⟨k, tail, rfl, by simpa using front⟩

theorem mark?_of_areApart {m t : Text} (hm : m ∈ ms) {c : Char}
    (char : isPlain c = true ∨ c.isAlpha = true) : mark? m (c :: t) = none := by
  obtain ⟨k, tail, rfl, noPlain, noLetter⟩ := front_of_areApart apart hm
  have other : k ≠ c := by
    rintro rfl
    simp [noPlain, noLetter] at char
  rw [mark?, isPrefixOf_cons_of_ne other, if_neg Bool.false_ne_true]

theorem Led.of_isPlain {p : Option Char → Text → Option γ} (h : Led ws ms p)
    (before : Option Char) {c : Char} (plain : isPlain c = true) (t : Text) :
    p before (c :: t) = none := by
  refine h.nothing (fun w hw => ?_) (fun m hm => mark?_of_areApart apart hm (.inl plain)) before
  obtain ⟨k, tail, rfl, small⟩ := small_of_areApart apart hw
  rw [afterWord?, sameLetter_of_isPlain (small k List.mem_cons_self) plain]
  rfl

theorem Led.misses_of_isPlain {p : Pattern β} (h : Led ws ms p) {x : Text}
    (plain : ∀ c ∈ x, isPlain c = true) (before : Option Char) (rest : Text) :
    p.Misses before x rest := by
  induction x generalizing before with
  | nil => trivial
  | cons c x ih =>
    obtain ⟨first, later⟩ := List.forall_mem_cons.mp plain
    exact ⟨h.of_isPlain apart before first _, ih later (some c)⟩

/-- What begins with a run of letters is led by none of the words that do not stand in the run. -/
theorem Led.of_isAlpha {p : Option Char → Text → Option γ} (h : Led ws ms p) {c : Char}
    {x rest : Text} (letter : c.isAlpha = true) (met : meets ws (c :: x) = false)
    (ends : ∀ c ∈ rest.head?, isPlain c = true) (before : Option Char) :
    p before (c :: (x ++ rest)) = none := by
  refine h.nothing (fun w hw => ?_) (fun m hm => mark?_of_areApart apart hm (.inr letter)) before
  have nothing : afterWord? w (c :: x) = none := by
    simpa using List.any_eq_false.mp (Bool.or_eq_false_iff.mp met).1 w hw
  obtain ⟨k, tail, -, small⟩ := small_of_areApart apart hw
  rw [← List.cons_append]
  cases rest with
  | nil => rwa [List.append_nil]
  | cons d rest =>
    rw [afterWord?_append_cons fun k hk => sameLetter_of_isPlain (small k hk) (ends d rfl), nothing]
    rfl

theorem Led.misses_of_isAlpha {p : Pattern β} (h : Led ws ms p) {x rest : Text}
    (letters : x.all Char.isAlpha = true) (met : meets ws x = false)
    (ends : ∀ c ∈ rest.head?, isPlain c = true) (before : Option Char) :
    p.Misses before x rest := by
  induction x generalizing before with
  | nil => trivial
  | cons c x ih =>
    obtain ⟨first, later⟩ := Bool.and_eq_true_iff.mp letters
    exact ⟨h.of_isAlpha apart first met ends before,
      ih later (Bool.or_eq_false_iff.mp met).2 (some c)⟩

theorem Led.of_nil {p : Option Char → Text → Option γ} (h : Led ws ms p) (before : Option Char) :
    p before [] = none := by
  refine h.nothing (fun w hw => ?_) (fun m hm => ?_) before
  · obtain ⟨k, tail, rfl, -⟩ := small_of_areApart apart hw
    rfl
  · obtain ⟨k, tail, rfl, -⟩ := front_of_areApart apart hm
    rfl

theorem Led.of_isItem {p : Option Char → Text → Option γ} (h : Led ws ms p) {t rest : Text}
    (value : IsItem t) (ends : ∀ c ∈ rest.head?, isPlain c = true) (before : Option Char) :
    p before (t ++ rest) = none := by
  rcases value with number | ⟨g, rfl⟩
  · have plain := number.isPlain
    obtain ⟨c, tail, rfl, -⟩ := number.exists_cons
    exact h.of_isPlain apart before (plain c List.mem_cons_self) _
  · exact h.of_isAlpha apart (by cases g <;> rfl) (meets_code apart g) ends before

theorem Led.misses_items {p : Pattern β} (h : Led ws ms p) {items : List Text} {rest : Text}
    (values : ∀ t ∈ items, IsItem t) (ends : ∀ c ∈ rest.head?, isPlain c = true)
    (before : Option Char) : p.Misses before (spaced items) rest := by
  induction items generalizing before with
  | nil => trivial
  | cons x items ih =>
    obtain ⟨value, later⟩ := List.forall_mem_cons.mp values
    rw [spaced_cons]
    refine ⟨h.of_isPlain apart before rfl _, Pattern.misses_append.mpr ⟨?_, ih later _⟩⟩
    rcases value with number | ⟨g, rfl⟩
    · exact h.misses_of_isPlain apart number.isPlain _ _
    · exact h.misses_of_isAlpha apart (by cases g <;> rfl) (meets_code apart g)
        (front_append_items ends) _

theorem Led.misses_block {p : Pattern β} (h : Led ws ms p) {keyword rest : Text}
    {items : List Text} (letters : keyword.all Char.isAlpha = true)
    (met : meets ws keyword = false) (values : ∀ t ∈ items, IsItem t)
    (ends : ∀ c ∈ rest.head?, isPlain c = true) (before : Option Char) :
    p.Misses before (keyword ++ spaced items) rest :=
  Pattern.misses_append.mpr
    ⟨h.misses_of_isAlpha apart letters met (front_append_items ends) before,
      h.misses_items apart values ends _⟩

end Apart

end Keyword

/-- What may follow a block: nothing, or a comma and a space behind which, blanks apart, another
comma or keyword stands. -/
def EndsBlock (rest : Text) : Prop :=
  rest = [] ∨
    ∃ r, rest = ',' :: ' ' :: r ∧ ∀ c ∈ (skipBlanks r).head?, c ∈ [',', 'c', 'o', 'f', 't']

theorem EndsBlock.isPlain {rest : Text} (h : EndsBlock rest) :
    ∀ c ∈ rest.head?, isPlain c = true := by
  rcases h with rfl | ⟨r, rfl, -⟩
  · rintro c ⟨⟩
  · rintro c ⟨⟩
    rfl

namespace Block

theorem text_eq (b : Block) : b.text = b.keyword ++ spaced b.items :=
  join_cons_eq_flatMap [' '] b.keyword b.items

theorem exists_cons (b : Block) : ∃ c tail, b.text = c :: tail ∧ c ∈ ['c', 'o', 'f', 't'] := by
  rw [text_eq]
  cases b with
  | numbers w first more =>
    cases w with
    | conf => exact ⟨'c', _, rfl, by decide⟩
    | odds => exact ⟨'o', _, rfl, by decide⟩
    | fse => exact ⟨'f', _, rfl, by decide⟩
    | fid => exact ⟨'f', _, rfl, by decide⟩
  | codes first second => exact ⟨'t', _, rfl, by decide⟩

/-- What stands in the place of a block: the block, or a space once it is taken out. -/
def place : Option Block → Text
  | some b => b.text
  | none => [' ']

def behind (l : List (Option Block)) : Text := (l.map place).flatMap ([',', ' '] ++ ·)

def stage (l : List (Option Block)) : Text := join [',', ' '] (l.map place)

theorem stage_cons (o : Option Block) (l : List (Option Block)) :
    stage (o :: l) = place o ++ behind l := join_cons_eq_flatMap _ _ _

theorem listing_eq_stage (l : List Block) : listing l = stage (l.map some) := by
  rw [listing, stage, List.map_map]
  rfl

theorem endsBlock_behind (l : List (Option Block)) : EndsBlock (behind l) := by
  cases l with
  | nil => exact .inl rfl
  | cons o l =>
    refine .inr ⟨place o ++ behind l, rfl, ?_⟩
    cases o with
    | some b =>
      obtain ⟨c, tail, front, letter⟩ := b.exists_cons
      have solid : isBlank c = false := by
        simp only [List.mem_cons, List.not_mem_nil, or_false] at letter
        rcases letter with rfl | rfl | rfl | rfl <;> rfl
      rw [place, front, List.cons_append, skipBlanks, List.dropWhile_cons_of_neg (by simp [solid])]
      rintro d ⟨⟩
      exact List.mem_cons_of_mem _ letter
    | none =>
      have skipped : skipBlanks (place none ++ behind l) = skipBlanks (behind l) := rfl
      rw [skipped]
      cases l with
      | nil => rintro c ⟨⟩
      | cons o l =>
        rintro c ⟨⟩
        exact List.mem_cons_self

end Block

section Sweep

variable {β : Type} {p : Pattern β} {hit : Block → Option β}

/-- Whether a pattern reads the blocks with a value whole, and matches nowhere else. -/
structure Handles (p : Pattern β) (hit : Block → Option β) : Prop where
  reads : ∀ {b v rest}, hit b = some v → EndsBlock rest → ∀ before,
    before = none ∨ before = some ' ' → p before (b.text ++ rest) = some (v, rest)
  misses : ∀ {b rest}, hit b = none → EndsBlock rest → ∀ before, before = none ∨ before = some ' ' →
    p.Misses before b.text rest
  space : ∀ before t, p before (' ' :: t) = none
  comma : ∀ before t, p before (',' :: t) = none

def cut (hit : Block → Option β) (o : Option Block) : Option Block :=
  o.filter fun b => (hit b).isNone

theorem Handles.sweepFrom_place (h : Handles p hit) (o : Option Block) {l : List (Option Block)}
    (later : ∀ before, p.sweepFrom 0 before (Block.behind l) =
      (l.filterMap (·.bind hit), Block.behind (l.map (cut hit))))
    {before : Option Char} (stands : before = none ∨ before = some ' ') :
    p.sweepFrom 0 before (Block.place o ++ Block.behind l) =
      ((o :: l).filterMap (·.bind hit),
        Block.place (cut hit o) ++ Block.behind (l.map (cut hit))) := by
  cases o with
  | none =>
    have missed : p.Misses before (Block.place none) (Block.behind l) := ⟨h.space _ _, trivial⟩
    rw [Pattern.sweepFrom_of_misses missed, later]
    rfl
  | some b =>
    cases value : hit b with
    | none =>
      have missed := h.misses value (Block.endsBlock_behind l) before stands
      have kept : cut hit (some b) = some b := by simp [cut, Option.filter, value]
      rw [Block.place, Pattern.sweepFrom_of_misses missed, later, kept]
      simp [value, Block.place]
    | some v =>
      have matched := h.reads value (Block.endsBlock_behind l) before stands
      obtain ⟨c, tail, front, -⟩ := b.exists_cons
      rw [front, List.cons_append] at matched
      have gone : cut hit (some b) = none := by simp [cut, Option.filter, value]
      rw [Block.place, front, List.cons_append, Pattern.sweepFrom_of_match matched, later, gone]
      simp [value, Block.place]

theorem Handles.sweepFrom_behind (h : Handles p hit) (l : List (Option Block))
    (before : Option Char) : p.sweepFrom 0 before (Block.behind l) =
      (l.filterMap (·.bind hit), Block.behind (l.map (cut hit))) := by
  induction l generalizing before with
  | nil => rfl
  | cons o l ih =>
    have missed : p.Misses before [',', ' '] (Block.place o ++ Block.behind l) :=
      ⟨h.comma _ _, h.space _ _, trivial⟩
    have skipped := Pattern.sweepFrom_of_misses missed
    rw [Pattern.behind_cons, Pattern.behind_cons, Pattern.behind_nil,
      h.sweepFrom_place o ih (.inr rfl)] at skipped
    exact skipped

theorem Handles.sweep_stage (h : Handles p hit) (l : List (Option Block)) :
    p.sweep (Block.stage l) = (l.filterMap (·.bind hit), Block.stage (l.map (cut hit))) := by
  cases l with
  | nil => rfl
  | cons o l =>
    rw [List.map_cons, Block.stage_cons, Block.stage_cons]
    exact h.sweepFrom_place o (h.sweepFrom_behind l) (.inl rfl)

end Sweep

theorem Pattern.findFrom_of_sweepFrom {β : Type} {p : Pattern β} {before : Option Char} {t : Text}
    (nothing : (p.sweepFrom 0 before t).1 = []) : p.findFrom before t = none := by
  induction t generalizing before with
  | nil => rfl
  | cons c t ih =>
    rw [Pattern.sweepFrom] at nothing
    rw [Pattern.findFrom]
    split at nothing
    · cases nothing
    next => rw [ih nothing]; rfl

end Wager
