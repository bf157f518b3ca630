import Wager.Proofs.Text.Listing

/-!
# Words of an evenly spaced text

A text with single spaces and none at its ends is its words with one space between them.
-/

namespace Wager.Text

variable {t : Text}

theorem eq_false_of_mem_splitWhere {p : Char → Bool} {piece : Text} (hp : piece ∈ splitWhere p t) :
    ∀ c ∈ piece, p c = false := by
  induction t generalizing piece with
  | nil =>
    rw [List.mem_singleton.mp hp]
    simp
  | cons c t ih =>
    rw [splitWhere_cons] at hp
    split at hp
    next =>
      rcases List.mem_cons.mp hp with rfl | hp
      · simp
      · exact ih hp
    next kept =>
      cases pieces : splitWhere p t with
      | nil => exact absurd pieces (splitWhere_ne_nil p t)
      | cons first more =>
        rw [pieces] at hp ih
        rcases List.mem_cons.mp hp with rfl | hp
        · exact List.forall_mem_cons.mpr
            ⟨Bool.eq_false_iff.mpr kept, ih List.mem_cons_self⟩
        · exact ih (List.mem_cons_of_mem first hp)

theorem isBlank_of_mem_words {w : Text} (hw : w ∈ words t) : ∀ c ∈ w, isBlank c = false :=
  eq_false_of_mem_splitWhere (List.mem_of_mem_filter hw)

theorem ne_nil_of_mem_words {w : Text} (hw : w ∈ words t) : w ≠ [] := by
  simpa using List.of_mem_filter hw

theorem join_cons {separator : Text} (piece : Text) {more : List Text} (some_more : more ≠ []) :
    join separator (piece :: more) = piece ++ separator ++ join separator more := by
  obtain ⟨next, more, rfl⟩ := List.exists_cons_of_ne_nil some_more
  rw [join]
  exact List.cons_ne_nil next more

theorem length_join_pos {separator : Text} {pieces : List Text} (some_piece : pieces ≠ [])
    (filled : ∀ w ∈ pieces, w ≠ []) : 0 < (join separator pieces).length := by
  obtain ⟨w, more, rfl⟩ := List.exists_cons_of_ne_nil some_piece
  have first := List.length_pos_of_ne_nil (filled w List.mem_cons_self)
  by_cases alone : more = []
  · rw [alone]
    exact first
  · rw [join_cons w alone, List.length_append, List.length_append]
    omega

theorem join_splitWhere (spaces : ∀ c ∈ t, isBlank c = true → c = ' ') :
    join [' '] (splitWhere isBlank t) = t := by
  induction t with
  | nil => rfl
  | cons c t ih =>
    obtain ⟨space, later⟩ := List.forall_mem_cons.mp spaces
    have rest := ih later
    rw [splitWhere_cons]
    split
    next blank =>
      rw [join_cons [] (splitWhere_ne_nil isBlank t), rest, space blank]
      rfl
    next =>
      cases pieces : splitWhere isBlank t with
      | nil => exact absurd pieces (splitWhere_ne_nil isBlank t)
      | cons first more =>
        rw [pieces] at rest
        rw [← rest, List.modifyHead_cons]
        cases more with
        | nil => rfl
        | cons next more =>
          rw [join_cons (c :: first) (List.cons_ne_nil next more),
            join_cons first (List.cons_ne_nil next more)]
          rfl

/-- Where no two blanks meet and none is at the end, only the first piece can be empty, and it is
when the text begins with a blank. -/
theorem ne_nil_of_splitWhere (apart : t.IsChain fun a b => isBlank a = true → isBlank b = false)
    (back : ∀ c ∈ t.getLast?, isBlank c = false) {first : Text} {more : List Text}
    (pieces : splitWhere isBlank t = first :: more) :
    (∀ piece ∈ more, piece ≠ []) ∧ (t ≠ [] → (∀ c ∈ t.head?, isBlank c = false) → first ≠ []) := by
  induction t generalizing first more with
  | nil =>
    obtain ⟨rfl, rfl⟩ := List.cons.inj pieces
    simp
  | cons c t ih =>
    have later : ∀ d ∈ t.getLast?, isBlank d = false := by
      intro d hd
      apply back d
      cases t with
      | nil => cases hd
      | cons e t => rwa [List.getLast?_cons_cons]
    obtain ⟨next, after, cut⟩ := List.exists_cons_of_ne_nil (splitWhere_ne_nil isBlank t)
    obtain ⟨filled, front⟩ := ih (List.isChain_of_isChain_cons apart) later cut
    rw [splitWhere_cons] at pieces
    split at pieces
    next blank =>
      obtain ⟨rfl, rfl⟩ := List.cons.inj pieces
      have some_t : t ≠ [] := by
        rintro rfl
        rw [back c rfl] at blank
        cases blank
      have behind : ∀ d ∈ t.head?, isBlank d = false :=
        fun d hd => (List.isChain_cons.mp apart).1 d hd blank
      constructor
      · rw [cut]
        exact List.forall_mem_cons.mpr ⟨front some_t behind, filled⟩
      · intro _ solid
        rw [solid c rfl] at blank
        cases blank
    next =>
      rw [cut] at pieces
      obtain ⟨rfl, rfl⟩ := List.cons.inj pieces
      exact ⟨filled, fun _ _ => List.cons_ne_nil c next⟩

/-- The words of an evenly spaced text, with single spaces between them, are the text. -/
theorem join_words (spaced : SingleSpaced t) (ends : BareEnds isBlank t) :
    join [' '] (words t) = t := by
  cases t with
  | nil => rfl
  | cons c t =>
    obtain ⟨first, more, pieces⟩ := List.exists_cons_of_ne_nil (splitWhere_ne_nil isBlank (c :: t))
    obtain ⟨filled, front⟩ := ne_nil_of_splitWhere spaced.apart ends.back pieces
    have all : ∀ piece ∈ splitWhere isBlank (c :: t), (!piece.isEmpty) = true := by
      rw [pieces]
      intro piece hp
      rcases List.mem_cons.mp hp with rfl | hp
      · simpa using front (List.cons_ne_nil c t) ends.front
      · simpa using filled piece hp
    rw [words, List.filter_eq_self.mpr all]
    exact join_splitWhere spaced.blank_eq

end Wager.Text
