import Wager.Proofs.Text.Trim
import Wager.Text.Normalize

/-!
# Evenly spaced texts

The normal form of an entry's name has half-width marks, single spaces and no separator at either
end.  Each comma stands directly behind what precedes it and has one space behind it.
-/

namespace Wager.Text

section

variable {p q : Char → Bool} {t : Text}

/-- A text that neither begins nor ends with a character satisfying `p`. -/
structure BareEnds (p : Char → Bool) (t : Text) : Prop where
  front : ∀ c ∈ t.head?, p c = false
  back : ∀ c ∈ t.getLast?, p c = false

theorem BareEnds.imp (h : BareEnds q t) (fewer : ∀ c, q c = false → p c = false) :
    BareEnds p t :=
  ⟨fun c hc => fewer c (h.front c hc), fun c hc => fewer c (h.back c hc)⟩

theorem dropWhile_of_front (front : ∀ c ∈ t.head?, p c = false) : t.dropWhile p = t := by
  cases t with
  | nil => rfl
  | cons c rest => rw [List.dropWhile_cons_of_neg (by simp [front c rfl])]

theorem rdropWhile_of_back (back : ∀ c ∈ t.getLast?, p c = false) : t.rdropWhile p = t := by
  have last : ∀ c ∈ t.reverse.head?, p c = false := by
    rw [List.head?_reverse]
    exact back
  rw [List.rdropWhile, dropWhile_of_front last, List.reverse_reverse]

theorem BareEnds.trimWhere_eq (h : BareEnds p t) : trimWhere p t = t := by
  rw [trimWhere, dropWhile_of_front h.front]
  exact rdropWhile_of_back h.back

theorem front_dropWhile (p : Char → Bool) (t : Text) :
    ∀ c ∈ (t.dropWhile p).head?, p c = false := by
  intro c hc
  have kept := List.head?_dropWhile_not p t
  rw [hc] at kept
  simpa using kept

theorem back_rdropWhile (p : Char → Bool) (t : Text) :
    ∀ c ∈ (t.rdropWhile p).getLast?, p c = false := by
  rw [List.rdropWhile, List.getLast?_reverse]
  exact front_dropWhile p _

theorem bareEnds_trimWhere (p : Char → Bool) (t : Text) : BareEnds p (trimWhere p t) := by
  constructor
  · intro c hc
    obtain ⟨cut, same⟩ := List.rdropWhile_prefix p (t.dropWhile p)
    apply front_dropWhile p t c
    have first : ((t.dropWhile p).rdropWhile p).head? = some c := hc
    rw [← same, List.head?_append, first]
    rfl
  · exact back_rdropWhile p _

theorem trimWhere_isInfixOf (p : Char → Bool) (t : Text) : trimWhere p t <:+: t :=
  (List.rdropWhile_prefix p _).isInfix.trans (List.dropWhile_suffix p).isInfix

end

theorem isBlank_eq_false_of_isSeparator {c : Char} (h : isSeparator c = false) :
    isBlank c = false := by
  simp [isSeparator] at h
  exact h.2

/-- Texts whose blanks are spaces, no two of them side by side. -/
structure SingleSpaced (t : Text) : Prop where
  blank_eq : ∀ c ∈ t, isBlank c = true → c = ' '
  apart : t.IsChain fun a b => isBlank a = true → isBlank b = false

namespace SingleSpaced

theorem of_isInfixOf {t u : Text} (h : SingleSpaced u) (part : t <:+: u) : SingleSpaced t :=
  ⟨fun c hc => h.blank_eq c (part.subset hc), h.apart.infix part⟩

theorem append {t u : Text} (ht : SingleSpaced t) (hu : SingleSpaced u)
    (between : (∀ c ∈ t.getLast?, isBlank c = false) ∨ ∀ c ∈ u.head?, isBlank c = false) :
    SingleSpaced (t ++ u) := by
  constructor
  · intro c hc
    rcases List.mem_append.mp hc with hc | hc
    · exact ht.blank_eq c hc
    · exact hu.blank_eq c hc
  · apply ht.apart.append hu.apart
    intro a ha b hb blank
    rcases between with solid | solid
    · simp [solid a ha] at blank
    · exact solid b hb

theorem singleton {c : Char} (h : isBlank c = true → c = ' ') : SingleSpaced [c] := by
  constructor
  · intro d hd
    rw [List.mem_singleton.mp hd]
    exact h
  · exact List.isChain_singleton c

end SingleSpaced

theorem singleSpaced_comma : SingleSpaced [',', ' '] := by
  refine (SingleSpaced.singleton (c := ',') (by decide)).append (.singleton fun _ => rfl) (.inl ?_)
  rintro c ⟨⟩
  decide

theorem collapseFrom_of_front {t : Text} (front : ∀ c ∈ t.head?, isBlank c = false) :
    collapseFrom true t = collapseFrom false t := by
  cases t with
  | nil => rfl
  | cons c rest => simp [collapseFrom, front c rfl]

theorem trim_collapse_space (t : Text) : trim (collapse (' ' :: t)) = trim (collapse t) := by
  have skipped (u : Text) : trim (' ' :: u) = trim u := rfl
  have front : collapse (' ' :: t) = ' ' :: collapseFrom true t := rfl
  rw [front, skipped]
  cases t with
  | nil => rfl
  | cons c t =>
    by_cases blank : isBlank c = true
    · have run : collapseFrom true (c :: t) = collapseFrom true t := by
        rw [collapseFrom, if_pos blank, if_pos rfl]
      have fresh : collapse (c :: t) = ' ' :: collapseFrom true t := by
        rw [collapse, collapseFrom, if_pos blank, if_neg Bool.false_ne_true]
      rw [run, fresh, skipped]
    · rw [collapse, collapseFrom_of_front]
      rintro d ⟨⟩
      exact Bool.eq_false_iff.mpr blank

theorem SingleSpaced.collapse_eq {t : Text} (h : SingleSpaced t) : collapse t = t := by
  rw [collapse]
  induction t with
  | nil => rfl
  | cons c rest ih =>
    have later := ih (h.of_isInfixOf (List.suffix_cons c rest).isInfix)
    by_cases blank : isBlank c = true
    · have front : ∀ d ∈ rest.head?, isBlank d = false :=
        fun d hd => (List.isChain_cons.mp h.apart).1 d hd blank
      rw [h.blank_eq c List.mem_cons_self blank, collapseFrom, if_pos (by decide),
        if_neg Bool.false_ne_true, collapseFrom_of_front front, later]
    · rw [collapseFrom, if_neg blank, later]

theorem singleSpaced_collapseFrom (t : Text) (inRun : Bool) : SingleSpaced (collapseFrom inRun t) ∧
    (inRun = true → ∀ c ∈ (collapseFrom inRun t).head?, isBlank c = false) := by
  induction t generalizing inRun with
  | nil => exact ⟨⟨by simp [collapseFrom], by simp [collapseFrom]⟩, by simp [collapseFrom]⟩
  | cons c rest ih =>
    rw [collapseFrom]
    by_cases blank : isBlank c = true
    · rw [if_pos blank]
      obtain ⟨spaced, front⟩ := ih true
      cases inRun with
      | true => exact ⟨spaced, fun _ => front rfl⟩
      | false =>
        refine ⟨?_, by simp⟩
        exact (SingleSpaced.singleton fun _ => rfl).append spaced (.inr (front rfl))
    · rw [if_neg blank]
      have solid : isBlank c = false := Bool.eq_false_iff.mpr blank
      refine ⟨?_, by simp [solid]⟩
      refine (SingleSpaced.singleton fun h => absurd h blank).append (ih false).1 (.inl ?_)
      simp [solid]

theorem mem_collapseFrom {t : Text} {inRun : Bool} {c : Char} (hc : c ∈ collapseFrom inRun t) :
    c ∈ t ∨ c = ' ' := by
  induction t generalizing inRun with
  | nil => cases hc
  | cons d rest ih =>
    rw [collapseFrom] at hc
    split at hc
    · split at hc
      · exact (ih hc).imp_left (List.mem_cons_of_mem d)
      · rcases List.mem_cons.mp hc with rfl | hc
        · exact .inr rfl
        · exact (ih hc).imp_left (List.mem_cons_of_mem d)
    · rcases List.mem_cons.mp hc with rfl | hc
      · exact .inl List.mem_cons_self
      · exact (ih hc).imp_left (List.mem_cons_of_mem d)

theorem halfWidth_halfWidth (c : Char) : halfWidth (halfWidth c) = halfWidth c := by
  unfold halfWidth
  split <;> first | rfl | (split <;> simp_all)

def HalfWidth (t : Text) : Prop := ∀ c ∈ t, halfWidth c = c

theorem normalize_eq {t : Text} (plain : HalfWidth t) (spaced : SingleSpaced t)
    (ends : BareEnds isBlank t) : normalize t = t := by
  have marks : t.map halfWidth = t := (List.map_congr_left plain).trans (List.map_id t)
  rw [normalize, marks, spaced.collapse_eq, trim, ends.trimWhere_eq]

theorem halfWidth_normalize (t : Text) : HalfWidth (normalize t) := by
  intro c hc
  rcases mem_collapseFrom ((trimWhere_isInfixOf isBlank _).subset hc) with hc | rfl
  · obtain ⟨d, -, rfl⟩ := List.mem_map.mp hc
    exact halfWidth_halfWidth d
  · rfl

theorem singleSpaced_normalize (t : Text) : SingleSpaced (normalize t) :=
  (singleSpaced_collapseFrom _ false).1.of_isInfixOf (trimWhere_isInfixOf isBlank _)

theorem dropBlanksBefore_of_notMem {mark : Char} {t : Text} (free : mark ∉ t) :
    dropBlanksBefore mark t = t := by
  induction t with
  | nil => rfl
  | cons c rest ih =>
    obtain ⟨-, later⟩ := not_or.mp (mt List.mem_cons.mpr free)
    have behind : rest.head? ≠ some mark := fun first => later (List.mem_of_mem_head? first)
    have same : dropBlanksBefore mark rest = rest := ih later
    rw [dropBlanksBefore, List.foldr_cons]
    change (if isBlank c && (dropBlanksBefore mark rest).head? == some mark then _ else _) = _
    rw [same, if_neg (by simp [behind])]
    exact congrArg (c :: ·) same

theorem rdropWhile_cons (p : Char → Bool) (c : Char) (x : Text) : (c :: x).rdropWhile p =
    if x.rdropWhile p = [] ∧ p c = true then [] else c :: x.rdropWhile p := by
  simp only [List.rdropWhile, List.reverse_cons, List.dropWhile_append, List.reverse_eq_nil_iff,
    List.isEmpty_iff]
  by_cases nothing : x.reverse.dropWhile p = []
  · cases h : p c <;> simp [nothing, h]
  · simp [nothing]

theorem dropBlanksBefore_append_cons {mark : Char} (solid : isBlank mark = false) {x : Text}
    (free : mark ∉ x) (y : Text) : dropBlanksBefore mark (x ++ mark :: y) =
      x.rdropWhile isBlank ++ mark :: dropBlanksBefore mark y := by
  induction x with
  | nil =>
    change (if isBlank mark && _ then _ else mark :: dropBlanksBefore mark y) = _
    simp [solid]
  | cons c x ih =>
    obtain ⟨-, later⟩ := not_or.mp (mt List.mem_cons.mpr free)
    change (if isBlank c && (dropBlanksBefore mark (x ++ mark :: y)).head? == some mark
      then dropBlanksBefore mark (x ++ mark :: y)
      else c :: dropBlanksBefore mark (x ++ mark :: y)) = _
    rw [ih later, rdropWhile_cons]
    cases kept : x.rdropWhile isBlank with
    | nil => cases isBlank c <;> simp
    | cons d r =>
      have inside : d ∈ x := (List.rdropWhile_prefix isBlank x).subset (kept ▸ List.mem_cons_self)
      have other : d ≠ mark := fun same => later (same ▸ inside)
      simp [other]

theorem dropBlanksBehind_of_notMem {mark : Char} {t : Text} (free : mark ∉ t) :
    dropBlanksBehind mark false t = t := by
  induction t with
  | nil => rfl
  | cons c rest ih =>
    obtain ⟨other, later⟩ := not_or.mp (mt List.mem_cons.mpr free)
    have unmarked : (c == mark) = false := by simpa using Ne.symm other
    rw [dropBlanksBehind, Bool.false_and, if_neg Bool.false_ne_true, unmarked, ih later]

theorem dropBlanksBehind_true (mark : Char) (t : Text) :
    dropBlanksBehind mark true t = dropBlanksBehind mark false (skipBlanks t) := by
  induction t with
  | nil => rfl
  | cons c rest ih =>
    by_cases blank : isBlank c = true
    · simpa [dropBlanksBehind, skipBlanks, blank] using ih
    · simp [dropBlanksBehind, skipBlanks, blank]

theorem dropBlanksBehind_append_cons {mark : Char} {x : Text} (free : mark ∉ x) (y : Text) :
    dropBlanksBehind mark false (x ++ mark :: y) =
      x ++ mark :: dropBlanksBehind mark false (skipBlanks y) := by
  induction x with
  | nil => simp [dropBlanksBehind, dropBlanksBehind_true]
  | cons c x ih =>
    obtain ⟨other, later⟩ := not_or.mp (mt List.mem_cons.mpr free)
    have unmarked : (c == mark) = false := by simpa using Ne.symm other
    rw [List.cons_append, dropBlanksBehind, Bool.false_and, if_neg Bool.false_ne_true, unmarked,
      ih later]
    rfl

theorem skipBlanks_dropBlanksBefore (mark : Char) (t : Text) :
    skipBlanks (dropBlanksBefore mark t) = dropBlanksBefore mark (skipBlanks t) := by
  induction t with
  | nil => rfl
  | cons c rest ih =>
    have step : dropBlanksBefore mark (c :: rest) =
        if isBlank c && (dropBlanksBefore mark rest).head? == some mark
        then dropBlanksBefore mark rest else c :: dropBlanksBefore mark rest := rfl
    by_cases blank : isBlank c = true
    · have skipped : skipBlanks (c :: rest) = skipBlanks rest := by simp [skipBlanks, blank]
      rw [skipped, ← ih, step]
      split
      · rfl
      · simp [skipBlanks, blank]
    · have kept : skipBlanks (c :: rest) = c :: rest := by simp [skipBlanks, blank]
      rw [kept, step]
      simp [skipBlanks, blank]

theorem spaceCommas_of_notMem {t : Text} (free : ',' ∉ t) : spaceCommas t = t := by
  have before := dropBlanksBefore_of_notMem free
  have behind : dropBlanksAfter ',' t = t := dropBlanksBehind_of_notMem free
  have single : ∀ c ∈ t, (if c == ',' then [',', ' '] else [c]) = [c] := by
    intro c hc
    have other : c ≠ ',' := fun same => free (same ▸ hc)
    simp [other]
  rw [spaceCommas, before, behind, List.flatMap_congr single, List.flatMap_singleton']

/-- The first comma of a text stands directly behind what precedes it, and one space behind it. -/
theorem spaceCommas_append_cons {x : Text} (free : ',' ∉ x) (y : Text) :
    spaceCommas (x ++ ',' :: y) =
      x.rdropWhile isBlank ++ ',' :: ' ' :: spaceCommas (skipBlanks y) := by
  have solid : isBlank ',' = false := by decide
  have part : ',' ∉ x.rdropWhile isBlank :=
    fun h => free ((List.rdropWhile_prefix isBlank x).subset h)
  have front := spaceCommas_of_notMem part
  rw [spaceCommas, dropBlanksBefore_of_notMem part, dropBlanksAfter,
    dropBlanksBehind_of_notMem part] at front
  rw [spaceCommas, dropBlanksBefore_append_cons solid free, dropBlanksAfter,
    dropBlanksBehind_append_cons part, skipBlanks_dropBlanksBefore, List.flatMap_append, front,
    List.flatMap_cons]
  rfl

/-- Whatever holds of texts without a comma, and of a text whenever it holds of what stands behind
the first comma, holds of all texts. -/
theorem comma_induction {P : Text → Prop} (free : ∀ t, ',' ∉ t → P t)
    (cut : ∀ x y, ',' ∉ x → P (skipBlanks y) → P (x ++ ',' :: y)) (t : Text) : P t := by
  by_cases h : ',' ∈ t
  · obtain ⟨x, y, same, hx⟩ := List.eq_append_cons_of_mem h
    have shorter : (skipBlanks y).length < t.length := by
      have kept := (List.dropWhile_sublist isBlank (l := y)).length_le
      rw [same, List.length_append, List.length_cons]
      exact Nat.lt_add_left _ (Nat.lt_succ_of_le kept)
    rw [same]
    exact cut x y hx (comma_induction free cut (skipBlanks y))
  · exact free t h
termination_by t.length

theorem mem_spaceCommas {t : Text} : ∀ c ∈ spaceCommas t, c ∈ t ∨ c = ' ' := by
  induction t using comma_induction with
  | free t free =>
    rw [spaceCommas_of_notMem free]
    exact fun c hc => .inl hc
  | cut x y free ih =>
    intro c hc
    rw [spaceCommas_append_cons free, List.mem_append, List.mem_cons, List.mem_cons] at hc
    rcases hc with hc | rfl | rfl | hc
    · exact .inl (List.mem_append_left _ ((List.rdropWhile_prefix isBlank x).subset hc))
    · simp
    · exact .inr rfl
    · refine (ih c hc).imp_left fun hc => List.mem_append_right _ (List.mem_cons_of_mem _ ?_)
      exact (List.dropWhile_sublist isBlank).subset hc

theorem singleSpaced_spaceCommas {t : Text} (spaced : SingleSpaced t) :
    SingleSpaced (spaceCommas t) ∧
      ((∀ c ∈ t.head?, isBlank c = false) → ∀ c ∈ (spaceCommas t).head?, isBlank c = false) := by
  induction t using comma_induction with
  | free t free =>
    rw [spaceCommas_of_notMem free]
    exact ⟨spaced, id⟩
  | cut x y free ih =>
    rw [spaceCommas_append_cons free]
    have tail : skipBlanks y <:+: x ++ ',' :: y :=
      (List.dropWhile_suffix isBlank).isInfix.trans ⟨x ++ [','], [], by simp⟩
    have head : x.rdropWhile isBlank <:+: x ++ ',' :: y :=
      ((List.rdropWhile_prefix isBlank x).trans (List.prefix_append x _)).isInfix
    obtain ⟨later, front⟩ := ih (spaced.of_isInfixOf tail)
    have comma : SingleSpaced (',' :: ' ' :: spaceCommas (skipBlanks y)) :=
      singleSpaced_comma.append later (.inr (front (front_dropWhile isBlank y)))
    refine ⟨(spaced.of_isInfixOf head).append comma (.inr ?_), ?_⟩
    · rintro c ⟨⟩
      decide
    · intro bare c hc
      cases kept : x.rdropWhile isBlank with
      | nil =>
        rw [kept] at hc
        obtain rfl : ',' = c := Option.some.inj hc
        decide
      | cons d r =>
        obtain ⟨cut, same⟩ := List.rdropWhile_prefix isBlank x
        rw [kept] at hc same
        apply bare c
        rw [← same]
        exact hc

structure IsName (t : Text) : Prop where
  plain : HalfWidth t
  spaced : SingleSpaced t
  ends : BareEnds isSeparator t

theorem IsName.bare {t : Text} (h : IsName t) : BareEnds isBlank t :=
  h.ends.imp fun _ => isBlank_eq_false_of_isSeparator

theorem IsName.normalize_eq {t : Text} (h : IsName t) : normalize t = t :=
  Text.normalize_eq h.plain h.spaced h.bare

theorem IsName.trim_collapse_append_space {t : Text} (h : IsName t) :
    trim (collapse (t ++ [' '])) = t := by
  have spaced : SingleSpaced (t ++ [' ']) :=
    h.spaced.append (.singleton fun _ => rfl) (.inl h.bare.back)
  rw [spaced.collapse_eq]
  cases t with
  | nil => rfl
  | cons c t =>
    have front : ∀ d ∈ (c :: t ++ [' ']).head?, isBlank d = false := h.bare.front
    calc trim (c :: t ++ [' ']) = (c :: t ++ [' ']).rdropWhile isBlank := by
          rw [trim, trimWhere, dropWhile_of_front front, List.rdropWhile]
      _ = (c :: t).rdropWhile isBlank := List.rdropWhile_concat_pos isBlank _ _ (by decide)
      _ = c :: t := rdropWhile_of_back h.bare.back

theorem isName_normalizeName (t : Text) : IsName (normalizeName t) where
  plain := by
    intro c hc
    rcases mem_spaceCommas c ((trimWhere_isInfixOf isSeparator _).subset hc) with hc | rfl
    · exact halfWidth_normalize t c hc
    · rfl
  spaced := (singleSpaced_spaceCommas (singleSpaced_normalize t)).1.of_isInfixOf
    (trimWhere_isInfixOf isSeparator _)
  ends := bareEnds_trimWhere isSeparator _

end Wager.Text
