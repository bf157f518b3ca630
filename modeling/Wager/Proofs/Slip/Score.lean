import Wager.Proofs.Slip.ModeName
import Wager.Proofs.Slip.Number
import Wager.Proofs.Slip.Remark

/-!
# Reading in front of a score

No reader of keywords and values reads into a score: none of them takes its first digit, and a
number in front of it is none whose digits a dash or colon continues.  So whatever the score is, a
reader takes the same from the text in front of it, as long as that text ends in no digit or
point.
-/

namespace Wager

open Text

def Digitless (t : Text) : Prop := ∀ c ∈ t, isDigit c = false

instance : DecidablePred Digitless :=
  fun t => decidable_of_iff (t.all (!isDigit ·) = true) (by simp [Digitless])

/-- A text that ends in nothing that digits could go on from as one number. -/
def EndsApart (t : Text) : Prop := ∀ c ∈ t.getLast?, isDigit c = false ∧ c ≠ '.'

theorem endsApart_nil : EndsApart [] := by
  rintro c ⟨⟩

theorem EndsApart.of_suffix {r t : Text} (apart : EndsApart r) (tail : t <:+ r) : EndsApart t := by
  obtain ⟨front, rfl⟩ := tail
  intro c hc
  refine apart c ?_
  rw [List.getLast?_append, Option.mem_def.mp hc]
  rfl

theorem dropWhile_append_of_front {p : Char → Bool} {x : Text}
    (front : ∀ c ∈ x.head?, p c = false) (r : Text) :
    (r ++ x).dropWhile p = r.dropWhile p ++ x := by
  rw [List.dropWhile_append]
  split
  next all => rw [List.isEmpty_iff.mp all, dropWhile_of_front front, List.nil_append]
  next => rfl

/-- The digits at the front of a text that ends in no digit are the same, whatever follows. -/
theorem EndsApart.span {r : Text} (apart : EndsApart r) (some_text : r ≠ []) (x : Text) :
    (r ++ x).takeWhile isDigit = r.takeWhile isDigit ∧
      (r ++ x).dropWhile isDigit = r.dropWhile isDigit ++ x ∧ r.dropWhile isDigit ≠ [] := by
  have left : r.dropWhile isDigit ≠ [] := by
    intro all
    have last := List.getLast?_eq_getLast_of_ne_nil some_text
    have digit := List.dropWhile_eq_nil_iff.mp all _ (List.getLast_mem some_text)
    rw [(apart _ last).1] at digit
    cases digit
  obtain ⟨c, rest, stop⟩ := List.exists_cons_of_ne_nil left
  have parts := List.takeWhile_append_dropWhile (p := isDigit) (l := r)
  have front : ∀ d ∈ (r.dropWhile isDigit ++ x).head?, isDigit d = false := by
    rw [stop]
    rintro d ⟨⟩
    have head := List.head?_dropWhile_not isDigit r
    rw [stop] at head
    simpa using head
  have whole : r ++ x = r.takeWhile isDigit ++ (r.dropWhile isDigit ++ x) := by
    rw [← List.append_assoc, parts]
  rw [whole]
  obtain ⟨taken, dropped⟩ := span_append (fun c hc => List.mem_takeWhile_imp hc) front
  exact ⟨taken, dropped, left⟩

/-- What stands where a score begins: a digit, in ASCII or not, at which no number is read. -/
structure BeginsScore (ascii : Bool) (x : Text) : Prop where
  exists_cons : ∃ d rest, x = d :: rest ∧ isDigit d = true ∧ d.isDigit = ascii
  numberless : Keyword.number? x = none

theorem BeginsScore.front {ascii : Bool} {x : Text} (h : BeginsScore ascii x) {p : Char → Bool}
    (digitless : ∀ c, isDigit c = true → p c = false) : ∀ c ∈ x.head?, p c = false := by
  obtain ⟨d, rest, rfl, digit, -⟩ := h.exists_cons
  rintro c ⟨⟩
  exact digitless d digit

namespace Keyword

variable {β γ : Type}

structure Keeps (skip : Text → Text) : Prop where
  suffix : ∀ r, skip r <:+ r
  append : ∀ {ascii r x}, BeginsScore ascii x → skip (r ++ x) = skip r ++ x

/-- Whether a test of the text in front of a score does not hang on the score. -/
def Tests (test : Text → Bool) : Prop :=
  ∀ ascii r, EndsApart r → ∃ answer, ∀ x, BeginsScore ascii x → test (r ++ x) = answer

/-- Whether what is skipped in the text in front of a score does not hang on the score, nor whether
anything is. -/
def Passes (f : Text → Option Text) : Prop :=
  ∀ ascii r, EndsApart r → ∃ passed : Option Text, (∀ t ∈ passed, t <:+ r) ∧
    ∀ x, BeginsScore ascii x → f (r ++ x) = passed.map (· ++ x)

/-- Whether what is read in the text in front of a score does not hang on the score. -/
def Reads (f : Text → Option (β × Text)) : Prop :=
  ∀ ascii r, EndsApart r → ∃ read : Option (β × Text), (∀ a ∈ read, a.2 <:+ r) ∧
    ∀ x, BeginsScore ascii x → f (r ++ x) = read.map fun a => (a.1, a.2 ++ x)

section Combinators

variable {skip : Text → Text} {f g : Text → Option Text} {p q : Text → Option (β × Text)}

theorem Keeps.passes (keeps : Keeps skip) (h : Passes f) : Passes fun t => f (skip t) := by
  intro ascii r apart
  obtain ⟨passed, tails, same⟩ := h ascii (skip r) (apart.of_suffix (keeps.suffix r))
  exact ⟨passed, fun t ht => (tails t ht).trans (keeps.suffix r),
    fun x hx => (congrArg f (keeps.append hx)).trans (same x hx)⟩

theorem Keeps.reads (keeps : Keeps skip) (h : Reads p) : Reads fun t => p (skip t) := by
  intro ascii r apart
  obtain ⟨read, tails, same⟩ := h ascii (skip r) (apart.of_suffix (keeps.suffix r))
  exact ⟨read, fun a ha => (tails a ha).trans (keeps.suffix r),
    fun x hx => (congrArg p (keeps.append hx)).trans (same x hx)⟩

theorem Keeps.pure (keeps : Keeps skip) (v : β) : Reads fun t => some (v, skip t) := by
  intro ascii r _
  refine ⟨some (v, skip r), ?_, fun x hx => congrArg (fun t => some (v, t)) (keeps.append hx)⟩
  rintro a ⟨⟩
  exact keeps.suffix r

theorem reads_none : Reads fun _ => (none : Option (β × Text)) :=
  fun _ _ _ => ⟨none, by simp, fun _ _ => rfl⟩

theorem tests_const (answer : Bool) : Tests fun _ => answer := fun _ _ _ => ⟨answer, fun _ _ => rfl⟩

theorem Tests.reads {test : Text → Bool} (ht : Tests test) (hp : Reads p) :
    Reads fun t => (guard (test t) : Option Unit).bind fun _ => p t := by
  intro ascii r apart
  obtain ⟨answer, same⟩ := ht ascii r apart
  obtain ⟨read, tails, same'⟩ : ∃ read : Option (β × Text), (∀ a ∈ read, a.2 <:+ r) ∧
      ∀ x, BeginsScore ascii x →
        ((guard answer : Option Unit).bind fun _ => p (r ++ x)) =
          read.map fun a => (a.1, a.2 ++ x) := by
    cases answer with
    | false => exact reads_none ascii r apart
    | true => exact hp ascii r apart
  refine ⟨read, tails, fun x hx => Eq.trans ?_ (same' x hx)⟩
  exact congrArg (fun b : Bool => (guard b : Option Unit).bind fun _ => p (r ++ x)) (same x hx)

theorem Passes.orElse (hf : Passes f) (hg : Passes g) : Passes fun t => f t <|> g t := by
  intro ascii r apart
  obtain ⟨first, tails, same⟩ := hf ascii r apart
  cases first with
  | none =>
    obtain ⟨second, tails', same'⟩ := hg ascii r apart
    exact ⟨second, tails',
      fun x hx => (congrArg (· <|> g (r ++ x)) (same x hx)).trans (same' x hx)⟩
  | some t =>
    exact ⟨some t, tails, fun x hx => congrArg (· <|> g (r ++ x)) (same x hx)⟩

theorem Reads.orElse (hp : Reads p) (hq : Reads q) : Reads fun t => p t <|> q t := by
  intro ascii r apart
  obtain ⟨first, tails, same⟩ := hp ascii r apart
  cases first with
  | none =>
    obtain ⟨second, tails', same'⟩ := hq ascii r apart
    exact ⟨second, tails',
      fun x hx => (congrArg (· <|> q (r ++ x)) (same x hx)).trans (same' x hx)⟩
  | some a =>
    exact ⟨some a, tails, fun x hx => congrArg (· <|> q (r ++ x)) (same x hx)⟩

theorem Passes.bind (hf : Passes f) (hp : Reads p) : Reads fun t => (f t).bind p := by
  intro ascii r apart
  obtain ⟨passed, tails, same⟩ := hf ascii r apart
  cases passed with
  | none => exact ⟨none, by simp, fun x hx => congrArg (Option.bind · p) (same x hx)⟩
  | some t =>
    obtain ⟨read, tails', same'⟩ := hp ascii t (apart.of_suffix (tails t rfl))
    exact ⟨read, fun a ha => (tails' a ha).trans (tails t rfl),
      fun x hx => (congrArg (Option.bind · p) (same x hx)).trans (same' x hx)⟩

theorem Reads.bind {next : β → Text → Option (γ × Text)} (hp : Reads p)
    (hn : ∀ v, Reads (next v)) : Reads fun t => (p t).bind fun a => next a.1 a.2 := by
  intro ascii r apart
  obtain ⟨first, tails, same⟩ := hp ascii r apart
  cases first with
  | none =>
    exact ⟨none, by simp,
      fun x hx => congrArg (fun o => Option.bind o fun a => next a.1 a.2) (same x hx)⟩
  | some a =>
    obtain ⟨read, tails', same'⟩ := hn a.1 ascii a.2 (apart.of_suffix (tails a rfl))
    exact ⟨read, fun b hb => (tails' b hb).trans (tails a rfl), fun x hx =>
      (congrArg (fun o => Option.bind o fun a : β × Text => next a.1 a.2) (same x hx)).trans
        (same' x hx)⟩

theorem Passes.map (hf : Passes f) (v : β) : Reads fun t => (f t).map (v, ·) := by
  intro ascii r apart
  obtain ⟨passed, tails, same⟩ := hf ascii r apart
  refine ⟨passed.map (v, ·), ?_, fun x hx => ?_⟩
  · intro a ha
    obtain ⟨t, ht, rfl⟩ := Option.map_eq_some_iff.mp ha
    exact tails t ht
  · exact (congrArg (Option.map (v, ·)) (same x hx)).trans (by cases passed <;> rfl)

theorem Reads.map (hp : Reads p) (f : β → γ) : Reads fun t => (p t).map fun a => (f a.1, a.2) := by
  intro ascii r apart
  obtain ⟨read, tails, same⟩ := hp ascii r apart
  refine ⟨read.map fun a => (f a.1, a.2), ?_, fun x hx => ?_⟩
  · intro a ha
    obtain ⟨b, hb, rfl⟩ := Option.map_eq_some_iff.mp ha
    exact tails b hb
  · exact (congrArg (Option.map fun a : β × Text => (f a.1, a.2)) (same x hx)).trans
      (by cases read <;> rfl)

theorem reads_of_cons (nothing : ∀ c t, isDigit c = true → p (c :: t) = none)
    (one : ∀ c, ∃ v : Option β, ∀ t, p (c :: t) = v.map (·, t)) : Reads p := by
  intro ascii r _
  cases r with
  | nil =>
    refine ⟨none, by simp, fun x hx => ?_⟩
    obtain ⟨d, rest, rfl, digit, -⟩ := hx.exists_cons
    exact nothing d rest digit
  | cons c t =>
    obtain ⟨v, read⟩ := one c
    refine ⟨v.map (·, t), ?_, fun x _ => ?_⟩
    · intro a ha
      obtain ⟨w, -, rfl⟩ := Option.map_eq_some_iff.mp ha
      exact List.suffix_cons c t
    · exact (read (t ++ x)).trans (by cases v <;> rfl)

end Combinators

section Blanks

theorem keeps_id : Keeps fun t => t := ⟨List.suffix_refl, fun _ => rfl⟩

theorem keeps_skipBlanks : Keeps skipBlanks where
  suffix := skipBlanks_suffix
  append hx :=
    dropWhile_append_of_front (hx.front fun _ digit => (wordless_of_isDigit digit).solid) _

theorem keeps_skipJoints : Keeps skipJoints where
  suffix _ := List.dropWhile_suffix _
  append hx := dropWhile_append_of_front (hx.front fun c digit => by
    simp [ne_of_isDigit digit (d := '_') (by decide), (wordless_of_isDigit digit).solid]) _

def skipMark (marks t : Text) : Text :=
  match skipBlanks t with
  | c :: rest => if c ∈ marks then skipBlanks rest else c :: rest
  | [] => []

theorem skipAssign_eq : skipAssign = skipMark [':', '='] := by
  funext t
  unfold skipAssign skipMark
  split
  next marked => simp [marked]
  next marked => simp [marked]
  next unmarked noColon noEquals =>
    split
    next c rest front =>
      rw [if_neg]
      · exact front
      · rintro mark
        simp only [List.mem_cons, List.not_mem_nil, or_false] at mark
        rcases mark with rfl | rfl
        · exact noColon rest front
        · exact noEquals rest front
    next front => exact front

theorem keeps_skipMark {marks : Text} (digitless : Digitless marks) :
    Keeps (skipMark marks) where
  suffix r := by
    have front := keeps_skipBlanks.suffix r
    unfold skipMark
    split
    next c rest marked =>
      rw [marked] at front
      split
      · exact ((keeps_skipBlanks.suffix rest).trans (List.suffix_cons c rest)).trans front
      · exact front
    next => exact List.nil_suffix
  append {ascii r x} hx := by
    unfold skipMark
    rw [keeps_skipBlanks.append hx]
    cases skipBlanks r with
    | nil =>
      obtain ⟨d, rest, rfl, digit, -⟩ := hx.exists_cons
      have unmarked : d ∉ marks := fun mark => ne_of_isDigit digit (digitless d mark) rfl
      simp [unmarked]
    | cons c t =>
      dsimp only [List.cons_append]
      split
      · exact keeps_skipBlanks.append hx
      · rfl

theorem keeps_skipAssign : Keeps skipAssign := by
  rw [skipAssign_eq]
  exact keeps_skipMark (by decide)

end Blanks

section Words

variable {w m : Text}

theorem passes_afterWord? (digitless : Digitless w) : Passes (afterWord? w) := by
  intro ascii r _
  refine ⟨afterWord? w r, fun t ht => ?_, fun x hx => ?_⟩
  · obtain ⟨name, rfl, -⟩ := spelledAs_of_afterWord? ht
    exact List.suffix_append name t
  · obtain ⟨d, rest, rfl, digit, -⟩ := hx.exists_cons
    exact afterWord?_append_cons (fun k hk => sameLetter_of_isDigit digit (digitless k hk)) r rest

theorem passes_word? (digitless : Digitless w) (before : Option Char) :
    Passes (word? w before) := by
  intro ascii r _
  refine ⟨word? w before r, fun t ht => ?_, fun x hx => ?_⟩
  · obtain ⟨name, rfl, -⟩ := exists_of_word? ht
    exact List.suffix_append name t
  · obtain ⟨d, rest, rfl, digit, -⟩ := hx.exists_cons
    exact word?_append_cons (fun k hk => sameLetter_of_isDigit digit (digitless k hk))
      (isLatinLetter_of_isDigit digit) before r rest

theorem isPrefixOf_append_cons {d : Char} (foreign : d ∉ m) (r rest : Text) :
    m.isPrefixOf (r ++ d :: rest) = m.isPrefixOf r := by
  induction m generalizing r with
  | nil => cases r <;> rfl
  | cons k m ih =>
    rw [List.mem_cons, not_or] at foreign
    obtain ⟨other, later⟩ := foreign
    cases r with
    | nil => simp [List.isPrefixOf, Ne.symm other]
    | cons c r => simp [List.isPrefixOf, ih later]

theorem passes_mark? (digitless : Digitless m) : Passes (mark? m) := by
  intro ascii r _
  refine ⟨mark? m r, fun t ht => ?_, fun x hx => ?_⟩
  · obtain rfl := eq_of_mark? ht
    exact List.suffix_append m t
  · obtain ⟨d, rest, rfl, digit, -⟩ := hx.exists_cons
    have foreign : d ∉ m := fun hd => ne_of_isDigit digit (digitless d hd) rfl
    rw [mark?, mark?, isPrefixOf_append_cons foreign]
    split
    next here =>
      have fits := (List.isPrefixOf_iff_prefix.mp here).length_le
      rw [List.drop_append_of_le_length fits]
      rfl
    next => rfl

/-- A test of the next character that sees no more of a digit than whether it is ASCII. -/
theorem tests_head {p : Char → Bool}
    (same : ∀ ascii, ∃ b, ∀ d, isDigit d = true → d.isDigit = ascii → p d = b) :
    Tests fun t => !t.head?.any p := by
  intro ascii r _
  cases r with
  | nil =>
    obtain ⟨b, kind⟩ := same ascii
    refine ⟨!b, fun x hx => ?_⟩
    obtain ⟨d, rest, rfl, digit, ascii⟩ := hx.exists_cons
    simp [kind d digit ascii]
  | cons c t => exact ⟨!p c, fun x _ => rfl⟩

theorem tests_endsWord : Tests endsWord :=
  tests_head fun _ => ⟨false, fun _ digit _ => isLatinLetter_of_isDigit digit⟩

theorem reads_sideWord? : Reads sideWord? :=
  ((passes_afterWord? (by decide)).map Side.home).orElse
    ((passes_afterWord? (by decide)).map Side.away)

theorem reads_sideCharacter? : Reads sideCharacter? := by
  apply reads_of_cons
  · intro c t digit
    have home : c ≠ '主' := ne_of_isDigit digit (by decide)
    have away : c ≠ '客' := ne_of_isDigit digit (by decide)
    simp [sideCharacter?, home, away]
  · intro c
    by_cases home : c = '主'
    · exact ⟨some .home, fun t => by rw [home]; rfl⟩
    · by_cases away : c = '客'
      · exact ⟨some .away, fun t => by rw [away]; rfl⟩
      · exact ⟨none, fun t => by simp [sideCharacter?, home, away]⟩

theorem reads_code? : Reads code? := by
  apply reads_of_cons
  · intro c t digit
    rw [code?, Option.map_eq_none_iff, List.find?_eq_none]
    intro g _
    have noDigit : isDigit g.code.toLower = false := by cases g <;> decide
    simp [sameLetter_of_isDigit digit noDigit]
  · exact fun c => ⟨_, fun t => rfl⟩

theorem reads_endingCode? : Reads endingCode? :=
  reads_code?.bind fun grade => tests_endsWord.reads (keeps_id.pure grade)

end Words

section Numbers

theorem spanDecimal?_append_of_endsApart {r : Text} (apart : EndsApart r) (some_text : r ≠ [])
    (x : Text) : spanDecimal? (r ++ x) = (spanDecimal? r).map fun a => (a.1, a.2 ++ x) := by
  obtain ⟨whole, left, more⟩ := apart.span some_text x
  obtain ⟨c, t, stop⟩ := List.exists_cons_of_ne_nil more
  have behind : t <:+ r :=
    (List.suffix_cons c t).trans (stop ▸ List.dropWhile_suffix isDigit)
  unfold spanDecimal?
  dsimp only
  rw [whole, left, stop]
  by_cases point : c = '.'
  · subst point
    have some_more : t ≠ [] := by
      rintro rfl
      exact (apart.of_suffix (stop ▸ List.dropWhile_suffix isDigit) '.' rfl).2 rfl
    obtain ⟨fraction, rest, -⟩ := (apart.of_suffix behind).span some_more x
    simp only [List.cons_append, fraction, rest]
    split
    · rfl
    · split <;> rfl
  · simp only [List.cons_append]
    split
    · rfl
    · simp [point]

theorem spanNumber?_append_of_endsApart {r : Text} (apart : EndsApart r) (some_text : r ≠ [])
    (x : Text) : spanNumber? (r ++ x) = (spanNumber? r).map fun a => (a.1, a.2 ++ x) := by
  obtain ⟨c, t, rfl⟩ := List.exists_cons_of_ne_nil some_text
  by_cases point : c = '.'
  · subst point
    have some_more : t ≠ [] := by
      rintro rfl
      exact (apart '.' rfl).2 rfl
    obtain ⟨fraction, rest, -⟩ := (apart.of_suffix (List.suffix_cons _ t)).span some_more x
    simp only [List.cons_append, spanNumber?, fraction, rest]
    split <;> rfl
  · have decimal := spanDecimal?_append_of_endsApart apart some_text x
    simpa [spanNumber?, point] using decimal

theorem tests_fractionFollows : Tests fractionFollows := by
  intro ascii r apart
  refine ⟨fractionFollows r, fun x hx => ?_⟩
  match r with
  | [] =>
    obtain ⟨d, rest, rfl, digit, -⟩ := hx.exists_cons
    have noPoint : d ≠ '.' := ne_of_isDigit digit (by decide)
    simp [fractionFollows, noPoint]
  | [c] =>
    have noPoint : c ≠ '.' := (apart c rfl).2
    simp [fractionFollows, noPoint]
  | c :: d :: t =>
    by_cases point : c = '.'
    · rw [point]
      rfl
    · simp [fractionFollows, point]

theorem tests_scoreFollows : Tests scoreFollows := by
  intro ascii r _
  cases front : skipBlanks r with
  | nil =>
    refine ⟨false, fun x hx => ?_⟩
    obtain ⟨d, rest, rfl, digit, -⟩ := hx.exists_cons
    have noDash : d ≠ '-' := ne_of_isDigit digit (by decide)
    have noColon : d ≠ ':' := ne_of_isDigit digit (by decide)
    simp [scoreFollows, keeps_skipBlanks.append hx, front, noDash, noColon]
  | cons c t =>
    refine ⟨(c == '-' || c == ':') && (skipBlanks t).head?.all isDigit, fun x hx => ?_⟩
    simp only [scoreFollows, keeps_skipBlanks.append hx, front, List.cons_append]
    obtain ⟨d, rest, rfl, digit, -⟩ := hx.exists_cons
    cases skipBlanks t <;> simp [digit]

theorem tests_number : Tests fun t => !fractionFollows t && !scoreFollows t := by
  intro ascii r apart
  obtain ⟨fraction, same⟩ := tests_fractionFollows ascii r apart
  obtain ⟨score, same'⟩ := tests_scoreFollows ascii r apart
  exact ⟨!fraction && !score, fun x hx => by simp only [same x hx, same' x hx]⟩

theorem reads_number? : Reads number? := by
  intro ascii r apart
  by_cases empty : r = []
  · exact ⟨none, by simp, fun x hx => by rw [empty]; exact hx.numberless⟩
  · have spanned := spanNumber?_append_of_endsApart apart empty
    cases read : spanNumber? r with
    | none =>
      refine ⟨none, by simp, fun x _ => ?_⟩
      rw [number?, spanned, read]
      rfl
    | some a =>
      have tail : a.2 <:+ r := ⟨a.1, (append_of_spanNumber? read).1⟩
      obtain ⟨checked, tails, same⟩ :=
        tests_number.reads (keeps_id.pure a.1) ascii a.2 (apart.of_suffix tail)
      refine ⟨checked, fun b hb => (tails b hb).trans tail, fun x hx => ?_⟩
      rw [number?, spanned, read]
      exact same x hx

/-- One more item of a list: behind a comma or slash, or behind blanks alone. -/
def nextItem? (item : Text → Option (β × Text)) (t : Text) : Option (β × Text) :=
  match skipBlanks t with
  | ',' :: rest => item (skipBlanks rest)
  | '/' :: rest => item (skipBlanks rest)
  | rest => if rest.length < t.length then item rest else none

theorem Reads.nextItem? {item : Text → Option (β × Text)} (h : Reads item) :
    Reads (nextItem? item) := by
  intro ascii r apart
  have behind := keeps_skipBlanks.suffix r
  cases front : skipBlanks r with
  | nil =>
    -- Blanks alone stand in front of the score.
    have unmarked {x : Text} (hx : BeginsScore ascii x) : Keyword.nextItem? item (r ++ x) =
        if 0 < r.length then item x else none := by
      obtain ⟨d, rest, rfl, digit, -⟩ := hx.exists_cons
      have noComma : d ≠ ',' := ne_of_isDigit digit (by decide)
      have noSlash : d ≠ '/' := ne_of_isDigit digit (by decide)
      simp [Keyword.nextItem?, keeps_skipBlanks.append hx, front, noComma, noSlash]
    by_cases filled : 0 < r.length
    · obtain ⟨read, tails, same⟩ := h ascii [] endsApart_nil
      refine ⟨read, fun a ha => (tails a ha).trans List.nil_suffix, fun x hx => ?_⟩
      rw [unmarked hx, if_pos filled]
      exact same x hx
    · exact ⟨none, by simp, fun x hx => by rw [unmarked hx, if_neg filled]; rfl⟩
  | cons c t =>
    rw [front] at behind
    have tail := (List.suffix_cons c t).trans behind
    by_cases mark : c = ',' ∨ c = '/'
    · obtain ⟨read, tails, same⟩ := keeps_skipBlanks.reads h ascii t (apart.of_suffix tail)
      refine ⟨read, fun a ha => (tails a ha).trans tail, fun x hx => (same x hx).symm ▸ ?_⟩
      rcases mark with rfl | rfl <;>
        simp [Keyword.nextItem?, keeps_skipBlanks.append hx, front]
    · rw [not_or] at mark
      have unmarked {x : Text} (hx : BeginsScore ascii x) : Keyword.nextItem? item (r ++ x) =
          if (c :: t).length < r.length then item (c :: t ++ x) else none := by
        have shorter_iff : (c :: t ++ x).length < (r ++ x).length ↔ (c :: t).length < r.length := by
          rw [List.length_append, List.length_append]
          omega
        rw [← if_congr shorter_iff rfl rfl]
        simp [Keyword.nextItem?, keeps_skipBlanks.append hx, front, mark]
      by_cases shorter : (c :: t).length < r.length
      · obtain ⟨read, tails, same⟩ := h ascii (c :: t) (apart.of_suffix behind)
        refine ⟨read, fun a ha => (tails a ha).trans behind, fun x hx => ?_⟩
        rw [unmarked hx, if_pos shorter]
        exact same x hx
      · exact ⟨none, by simp, fun x hx => by rw [unmarked hx, if_neg shorter]; rfl⟩

theorem nextNumber?_eq : nextNumber? = nextItem? number? := rfl

theorem secondCode?_eq : secondCode? = nextItem? endingCode? := rfl

theorem exists_beginsScore (ascii : Bool) : ∃ x, BeginsScore ascii x := by
  cases ascii with
  | false => exact ⟨"٠-0".toList, ⟨_, _, rfl, by decide, by decide⟩, by decide⟩
  | true => exact ⟨"0-0".toList, ⟨_, _, rfl, by decide, by decide⟩, by decide⟩

/-- The further numbers in front of a score are the same for every score and for every bound on how
many there are. -/
theorem moreNumbers_append (ascii : Bool) {r : Text} (apart : EndsApart r) :
    ∃ a : List Text × Text, a.2 <:+ r ∧ ∀ most, r.length ≤ most → ∀ x, BeginsScore ascii x →
      moreNumbers most (r ++ x) = (a.1, a.2 ++ x) := by
  induction hn : r.length using Nat.strong_induction_on generalizing r with
  | h n ih =>
    subst hn
    obtain ⟨read, tails, same⟩ := reads_number?.nextItem? ascii r apart
    rw [← nextNumber?_eq] at same
    cases read with
    | none =>
      refine ⟨([], r), List.suffix_refl r, fun most _ x hx => ?_⟩
      cases most with
      | zero => rfl
      | succ most => rw [moreNumbers, same x hx]; rfl
    | some a =>
      have shorter : a.2.length < r.length := by
        obtain ⟨x, hx⟩ := exists_beginsScore ascii
        simpa using length_lt_of_nextNumber? (same x hx)
      obtain ⟨b, tail, later⟩ := ih _ shorter (apart.of_suffix (tails a rfl)) rfl
      refine ⟨(a.1 :: b.1, b.2), tail.trans (tails a rfl), fun most enough x hx => ?_⟩
      cases most with
      | zero => omega
      | succ most =>
        rw [moreNumbers, same x hx]
        simp only [Option.map_some, later most (by omega) x hx]

theorem reads_numbers? : Reads numbers? := by
  have more (digits : Text) : Reads fun t =>
      some (digits :: (moreNumbers t.length t).1, (moreNumbers t.length t).2) := by
    intro ascii r apart
    obtain ⟨a, tail, same⟩ := moreNumbers_append ascii apart
    refine ⟨some (digits :: a.1, a.2), ?_, fun x hx => ?_⟩
    · rintro b ⟨⟩
      exact tail
    · simp only [same (r ++ x).length (by simp) x hx, Option.map_some]
  exact reads_number?.bind more

end Numbers

end Keyword

end Wager
