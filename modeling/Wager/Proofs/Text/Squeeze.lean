import Wager.Proofs.Slip.Remark
import Wager.Proofs.Text.Spacing

/-!
# What cutting and spacing keep

Where pieces of a text are cut out and spaces left for them, and where its blanks are evened out,
all else is kept in order, and the text begins and ends in what it began and ended in or in a
space.
-/

namespace Wager

open Text

theorem squeeze_append (x y : Text) : squeeze (x ++ y) = squeeze x ++ squeeze y :=
  List.filter_append x y

theorem squeeze_skipBlanks (t : Text) : squeeze (skipBlanks t) = squeeze t := by
  induction t with
  | nil => rfl
  | cons c t ih =>
    cases blank : isBlank c <;> simp_all [squeeze, skipBlanks]

theorem squeeze_collapseFrom (inRun : Bool) (t : Text) :
    squeeze (collapseFrom inRun t) = squeeze t := by
  induction t generalizing inRun with
  | nil => rfl
  | cons c t ih =>
    have space : isBlank ' ' = true := by decide
    cases blank : isBlank c <;> cases inRun <;> simp_all [squeeze, collapseFrom]

theorem squeeze_rdropWhile (t : Text) : squeeze (t.rdropWhile isBlank) = squeeze t := by
  have front := squeeze_skipBlanks t.reverse
  rw [squeeze, List.rdropWhile, ← List.reverse_inj]
  simpa [squeeze, skipBlanks] using front

theorem squeeze_cons_sublist {x y : Text} (c : Char) (fewer : (squeeze x).Sublist (squeeze y)) :
    (squeeze (c :: x)).Sublist (squeeze (c :: y)) := by
  cases blank : isBlank c
  · simpa [squeeze, blank] using fewer
  · simpa [squeeze, blank] using fewer

theorem squeeze_cut_sublist (x : Text) {rest tail : Text} (behind : tail <:+ rest) :
    (squeeze (x ++ ' ' :: tail)).Sublist (squeeze (x ++ rest)) := by
  have space : squeeze (' ' :: tail) = squeeze tail := rfl
  rw [squeeze_append, squeeze_append, space]
  exact (behind.sublist.filter _).append_left _

def EndsLike (front kept : Text) : Prop :=
  kept.getLast? = front.getLast? ∨ kept.getLast? = some ' '

namespace EndsLike

variable {front kept : Text}

theorem cons (h : EndsLike front kept) (c : Char) : EndsLike (c :: front) (c :: kept) := by
  unfold EndsLike at h ⊢
  rw [List.getLast?_cons, List.getLast?_cons]
  rcases h with same | space
  · exact .inl (by rw [same])
  · exact .inr (by rw [space]; rfl)

theorem space {t : Text} (h : EndsLike t kept) (tail : t <:+ front) :
    EndsLike front (' ' :: kept) := by
  unfold EndsLike at h ⊢
  rw [List.getLast?_cons]
  rcases h with same | space
  · cases last : t.getLast? with
    | none => exact .inr (by rw [same, last]; rfl)
    | some c =>
      obtain ⟨cut, rfl⟩ := tail
      exact .inl (by rw [same, last, List.getLast?_append, last]; rfl)
  · exact .inr (by rw [space]; rfl)

theorem append (h : EndsLike front kept) (x : Text) : EndsLike (x ++ front) (x ++ kept) := by
  induction x with
  | nil => exact h
  | cons c x ih => exact ih.cons c

theorem trans {left : Text} (h : EndsLike front kept) (h' : EndsLike kept left) :
    EndsLike front left := by
  rcases h' with same | space
  · exact h.imp same.trans same.trans
  · exact .inr space

end EndsLike

/-- Whether `kept` begins in what `back` begins in or in a space, unless it is empty. -/
def StartsLike (back kept : Text) : Prop := ∀ c ∈ kept.head?, c ∈ back.head? ∨ c = ' '

theorem StartsLike.refl (back : Text) : StartsLike back back := fun _ => .inl

theorem StartsLike.trans {back kept left : Text} (h : StartsLike back kept)
    (h' : StartsLike kept left) : StartsLike back left :=
  fun c hc => (h' c hc).elim (h c) .inr

theorem startsLike_cut (x : Text) {rest tail : Text} :
    StartsLike (x ++ rest) (x ++ ' ' :: tail) := by
  cases x with
  | nil =>
    rintro c ⟨⟩
    exact .inr rfl
  | cons d x => exact fun c => .inl

theorem startsLike_of_isPrefix {back kept : Text} (front : kept <+: back) :
    StartsLike back kept := by
  obtain ⟨rest, rfl⟩ := front
  cases kept with
  | nil => rintro c ⟨⟩
  | cons d kept => exact fun c => .inl

section Residual

variable {t : Text} {c : Char}

theorem collapseFrom_false_eq_nil (h : collapseFrom false t = []) : t = [] := by
  cases t with
  | nil => rfl
  | cons c t =>
    rw [collapseFrom] at h
    split at h <;> cases h

theorem getLast_collapseFrom {inRun : Bool} (last : (collapseFrom inRun t).getLast? = some c) :
    t.getLast? = some c ∨ c = ' ' := by
  induction t generalizing inRun c with
  | nil => cases last
  | cons d t ih =>
    have later {b : Bool} {e : Char} (last : (collapseFrom b t).getLast? = some e) :
        (d :: t).getLast? = some e ∨ e = ' ' :=
      (ih last).imp_left fun same => by rw [List.getLast?_cons, same]; rfl
    rw [collapseFrom] at last
    split at last
    · split at last
      · exact later last
      · rw [List.getLast?_cons] at last
        cases inner : (collapseFrom true t).getLast? with
        | none =>
          rw [inner] at last
          exact .inr (Option.some.inj last).symm
        | some e =>
          rw [inner] at last
          exact Option.some.inj last ▸ later inner
    · rw [List.getLast?_cons] at last
      cases inner : (collapseFrom false t).getLast? with
      | none =>
        rw [collapseFrom_false_eq_nil (List.getLast?_eq_none_iff.mp inner)]
        rw [inner] at last
        exact .inl last
      | some e =>
        rw [inner] at last
        exact Option.some.inj last ▸ later inner

theorem startsLike_collapse (t : Text) : StartsLike t (collapse t) := by
  cases t with
  | nil => exact .refl []
  | cons d t =>
    rw [collapse, collapseFrom, if_neg Bool.false_ne_true]
    split
    · rintro c ⟨⟩
      exact .inr rfl
    · exact fun c => .inl

theorem collapseFrom_append_of_solid {s : Text} (solid : ∀ c ∈ s, isBlank c = false) (t : Text) :
    collapseFrom false (s ++ t) = s ++ collapseFrom false t := by
  induction s with
  | nil => rfl
  | cons c s ih =>
    obtain ⟨first, later⟩ := List.forall_mem_cons.mp solid
    rw [List.cons_append, collapseFrom, first, if_neg Bool.false_ne_true, ih later]
    rfl

theorem rdropWhile_append_of_solid {s : Text} (solid : ∀ c ∈ s, isBlank c = false) (t : Text) :
    (s ++ t).rdropWhile isBlank = s ++ t.rdropWhile isBlank := by
  induction s with
  | nil => rfl
  | cons c s ih =>
    obtain ⟨first, later⟩ := List.forall_mem_cons.mp solid
    rw [List.cons_append, rdropWhile_cons, if_neg (by simp [first]), ih later]
    rfl

theorem trim_collapse_append {s : Text} (solid : ∀ c ∈ s, isBlank c = false) (filled : s ≠ [])
    (x y : Text) : trim (collapse (x ++ (s ++ y))) =
      skipBlanks (collapse x) ++ (s ++ (collapse y).rdropWhile isBlank) := by
  obtain ⟨c, s, rfl⟩ := List.exists_cons_of_ne_nil filled
  obtain ⟨first, later⟩ := List.forall_mem_cons.mp solid
  rw [List.cons_append, collapse, collapseFrom_append_cons first,
    collapseFrom_append_of_solid later, trim_append_cons first, rdropWhile_append_of_solid later]
  rfl

end Residual

/-- Whether a text is what is left of the text in front of a piece: only blanks come and go, and
what ends it ended that text or is a space. -/
structure LeftInFront (front left : Text) : Prop where
  kept : (squeeze left).Sublist (squeeze front)
  last : ∀ c ∈ left.getLast?, c ∈ front.getLast? ∨ c = ' '

/-- Whether a text is what is left of the text behind a piece. -/
structure LeftBehind (back left : Text) : Prop where
  kept : (squeeze left).Sublist (squeeze back)
  first : StartsLike back left

theorem leftInFront_skipBlanks {front kept : Text} (ends : EndsLike front kept)
    (fewer : (squeeze kept).Sublist (squeeze front)) :
    LeftInFront front (skipBlanks (collapse kept)) where
  kept := by
    rw [squeeze_skipBlanks, collapse, squeeze_collapseFrom]
    exact fewer
  last c hc := by
    obtain ⟨cut, parts⟩ := List.dropWhile_suffix (p := isBlank) (l := collapse kept)
    have last : (collapse kept).getLast? = some c := by
      rw [← parts, List.getLast?_append, ← skipBlanks, Option.mem_def.mp hc]
      rfl
    rcases getLast_collapseFrom last with last | space
    · rcases ends with same | space
      · exact .inl (same ▸ last)
      · exact .inr (Option.some.inj (last.symm.trans space))
    · exact .inr space

theorem leftBehind_rdropWhile {back kept : Text} (starts : StartsLike back kept)
    (fewer : (squeeze kept).Sublist (squeeze back)) :
    LeftBehind back ((collapse kept).rdropWhile isBlank) where
  kept := by
    rw [squeeze_rdropWhile, collapse, squeeze_collapseFrom]
    exact fewer
  first := (starts.trans (startsLike_collapse kept)).trans
    (startsLike_of_isPrefix (List.rdropWhile_prefix isBlank _))

end Wager
