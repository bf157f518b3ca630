import Wager.Entry.Reader
import Wager.Proofs.Text.Listing

/-!
# The name of an entry

A text is its own normal form just when its marks, blanks, commas and ends already have the form
that reading gives them.  So a name that was read once and is read again stays as it is, and its
meaning with it.
-/

namespace Wager

namespace Text

variable {t u : Text}

theorem bare_normalize (t : Text) : BareEnds isBlank (normalize t) := bareEnds_trimWhere isBlank _

theorem normalize_eq_self_iff :
    normalize t = t ↔ HalfWidth t ∧ SingleSpaced t ∧ BareEnds isBlank t := by
  constructor
  · intro same
    rw [← same]
    exact ⟨halfWidth_normalize t, singleSpaced_normalize t, bare_normalize t⟩
  · rintro ⟨plain, spaced, ends⟩
    exact normalize_eq plain spaced ends

@[simp] theorem normalize_normalize (t : Text) : normalize (normalize t) = normalize t :=
  normalize_eq_self_iff.mpr
    ⟨halfWidth_normalize t, singleSpaced_normalize t, bare_normalize t⟩

/-- Texts in which a comma has a space behind it, and a space in front of it only where that is the
space of another comma. -/
structure EvenCommas (t : Text) : Prop where
  before : ∀ c, [c, ' ', ','] <:+: t → c = ','
  behind : ∀ c, [',', c] <:+: t → c = ' '

namespace EvenCommas

theorem of_isInfixOf (h : EvenCommas u) (part : t <:+: u) : EvenCommas t :=
  ⟨fun c within => h.before c (within.trans part), fun c within => h.behind c (within.trans part)⟩

theorem of_notMem (free : ',' ∉ t) : EvenCommas t :=
  ⟨fun _ within => absurd (within.subset (by simp)) free,
    fun _ within => absurd (within.subset (by simp)) free⟩

theorem cons {c : Char} (h : EvenCommas t) (before : [' ', ','] <+: t → c = ',')
    (behind : c = ',' → ∀ d ∈ t.head?, d = ' ') : EvenCommas (c :: t) where
  before d within := by
    rcases List.infix_cons_iff.mp within with front | later
    · obtain ⟨rfl, next⟩ := List.cons_prefix_cons.mp front
      exact before next
    · exact h.before d later
  behind d within := by
    rcases List.infix_cons_iff.mp within with front | later
    · obtain ⟨same, rest, rfl⟩ := List.cons_prefix_cons.mp front
      exact behind same.symm d rfl
    · exact h.behind d later

/-- In front of an evenly spaced text without a blank at its front, a piece without commas or
blanks at its end may stand with a comma. -/
theorem append_comma {x : Text} (free : ',' ∉ x) (back : ∀ c ∈ x.getLast?, isBlank c = false)
    (h : EvenCommas t) (front : ∀ c ∈ t.head?, isBlank c = false) :
    EvenCommas (x ++ ',' :: ' ' :: t) := by
  have space : EvenCommas (' ' :: t) := by
    refine h.cons ?_ (by simp)
    rintro ⟨rest, rfl⟩
    exact absurd (front ' ' rfl) (by decide)
  have comma : EvenCommas (',' :: ' ' :: t) := space.cons (fun _ => rfl) (by simp)
  induction x with
  | nil => exact comma
  | cons c x ih =>
    obtain ⟨other, later⟩ := not_or.mp (mt List.mem_cons.mpr free)
    refine EvenCommas.cons (ih later ?_) ?_ fun same => absurd same.symm other
    · intro d hd
      apply back d
      rw [List.getLast?_cons, Option.mem_def.mp hd]
      rfl
    -- A blank directly in front of the comma would be the end of the piece.
    · rintro ⟨rest, parts⟩
      cases x with
      | nil => cases parts
      | cons d x =>
        obtain ⟨rfl, tail⟩ := List.cons.inj parts
        cases x with
        | nil => exact absurd (back ' ' rfl) (by decide)
        | cons e x =>
          obtain ⟨rfl, -⟩ := List.cons.inj tail
          exact absurd (by simp) later

theorem solid_in_front {x y : Text} (h : EvenCommas (x ++ ',' :: y)) (free : ',' ∉ x)
    (blank_eq : ∀ c ∈ x, isBlank c = true → c = ' ') (front : ∀ c ∈ x.head?, isBlank c = false) :
    ∀ c ∈ x.getLast?, isBlank c = false := by
  intro c last
  by_contra blank
  rw [Bool.not_eq_false] at blank
  obtain ⟨start, rfl⟩ := List.getLast?_eq_some_iff.mp (Option.mem_def.mp last)
  obtain rfl := blank_eq c (by simp) blank
  cases start using List.reverseRecOn with
  | nil => exact absurd (front ' ' rfl) (by decide)
  | append_singleton start d =>
    have comma : d = ',' := h.before d ⟨start, y, by simp⟩
    exact free (by simp [comma])

theorem spaceCommas_eq (h : EvenCommas t) (spaced : SingleSpaced t)
    (front : ∀ c ∈ t.head?, isBlank c = false) (back : ∀ c ∈ t.getLast?, isSeparator c = false) :
    spaceCommas t = t := by
  -- Behind the first comma there is one space, and behind that the rest meets the same conditions.
  induction t using comma_induction with
  | free t free => exact spaceCommas_of_notMem free
  | cut x y free ih =>
    obtain ⟨z, rfl⟩ : ∃ z, y = ' ' :: z := by
      cases y with
      | nil => exact absurd (back ',' (by simp)) (by decide)
      | cons c z => exact ⟨z, by rw [h.behind c ⟨x, z, by simp⟩]⟩
    have tail : z <:+: x ++ ',' :: ' ' :: z := ⟨x ++ [',', ' '], [], by simp⟩
    have bare : ∀ c ∈ z.head?, isBlank c = false := by
      have rest : ' ' :: z <:+: x ++ ',' :: ' ' :: z := ⟨x ++ [','], [], by simp⟩
      have apart := (spaced.of_isInfixOf rest).apart
      exact fun c hc => (List.isChain_cons.mp apart).1 c hc (by decide)
    have skipped : skipBlanks (' ' :: z) = z := by
      rw [skipBlanks, List.dropWhile_cons_of_pos (by decide), dropWhile_of_front bare]
    have kept : x.rdropWhile isBlank = x := by
      refine rdropWhile_of_back (h.solid_in_front free (fun c hc => ?_) fun c hc => ?_)
      · exact spaced.blank_eq c (List.mem_append_left _ hc)
      · exact front c (by rw [List.head?_append, Option.mem_def.mp hc]; rfl)
    have last : ∀ c ∈ z.getLast?, isSeparator c = false := by
      intro c hc
      apply back c
      rw [List.getLast?_append, List.getLast?_cons, List.getLast?_cons, Option.mem_def.mp hc]
      rfl
    rw [skipped] at ih
    rw [spaceCommas_append_cons free, kept, skipped,
      ih (h.of_isInfixOf tail) (spaced.of_isInfixOf tail) bare last]

end EvenCommas

theorem evenCommas_spaceCommas (spaced : SingleSpaced t) : EvenCommas (spaceCommas t) := by
  induction t using comma_induction with
  | free t free =>
    rw [spaceCommas_of_notMem free]
    exact .of_notMem free
  | cut x y free ih =>
    have part : x.rdropWhile isBlank <+: x := List.rdropWhile_prefix isBlank x
    have tail : skipBlanks y <:+: x ++ ',' :: y :=
      (List.dropWhile_suffix isBlank).isInfix.trans ⟨x ++ [','], [], by simp⟩
    have later := spaced.of_isInfixOf tail
    rw [spaceCommas_append_cons free]
    exact (ih later).append_comma (fun comma => free (part.subset comma))
      (back_rdropWhile isBlank x)
      ((singleSpaced_spaceCommas later).2 (front_dropWhile isBlank y))

theorem evenCommas_normalizeName (t : Text) : EvenCommas (normalizeName t) :=
  (evenCommas_spaceCommas (singleSpaced_normalize t)).of_isInfixOf
    (trimWhere_isInfixOf isSeparator _)

theorem IsName.normalizeName_eq_of_evenCommas (h : IsName t) (commas : EvenCommas t) :
    normalizeName t = t :=
  h.normalizeName_eq (commas.spaceCommas_eq h.spaced h.bare.front h.ends.back)

/-- The names that entries are given are the texts in the form of a name with even commas. -/
theorem normalizeName_eq_self_iff : normalizeName t = t ↔ IsName t ∧ EvenCommas t := by
  constructor
  · intro same
    rw [← same]
    exact ⟨isName_normalizeName t, evenCommas_normalizeName t⟩
  · rintro ⟨name, commas⟩
    exact name.normalizeName_eq_of_evenCommas commas

@[simp] theorem normalizeName_normalizeName (t : Text) :
    normalizeName (normalizeName t) = normalizeName t :=
  (isName_normalizeName t).normalizeName_eq_of_evenCommas (evenCommas_normalizeName t)

@[simp] theorem normalizeName_normalize (t : Text) :
    normalizeName (normalize t) = normalizeName t := by
  rw [normalizeName, normalize_normalize, ← normalizeName]

@[simp] theorem normalize_normalizeName (t : Text) :
    normalize (normalizeName t) = normalizeName t :=
  (isName_normalizeName t).normalize_eq

end Text

namespace Semantic

open Text

variable {α : Type} [Scalar α]

theorem ofText_name (t : Text) : (ofText (ofText (α := α) t).name : Semantic α) = ofText t := by
  have same : normalizeName (ofText (α := α) t).name = normalizeName t :=
    normalizeName_normalizeName t
  rw [ofText, same, ← ofText]

/-- A text that was brought to a normal form and is read again, as a text or as a name, stays as it
is, and so does what is read from it.  The texts that stay as they are are those in normal form. -/
theorem ofText_settled (t : Text) :
    (normalize (normalize t) = normalize t ∧ normalizeName (normalizeName t) = normalizeName t) ∧
    (normalizeName (normalize t) = normalizeName t ∧
      normalize (normalizeName t) = normalizeName t) ∧
    (ofText (ofText (α := α) t).name : Semantic α) = ofText t ∧
    (normalize t = t ↔ HalfWidth t ∧ SingleSpaced t ∧ BareEnds isBlank t) ∧
    (normalizeName t = t ↔ IsName t ∧ EvenCommas t) :=
  ⟨⟨normalize_normalize t, normalizeName_normalizeName t⟩,
    ⟨normalizeName_normalize t, normalize_normalizeName t⟩,
    ofText_name t, normalize_eq_self_iff, normalizeName_eq_self_iff⟩

end Semantic

end Wager
