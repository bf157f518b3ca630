import Wager.Proofs.Text.Trim

/-!
# Lower case in place

Lowering a text as a whole and lowering its characters one by one differ in two letters: a dotted
capital I becomes two characters or is kept, and a capital sigma that ends a word becomes a final or
a medial small sigma.
-/

namespace Wager.Text

/-- The lower-case form of a character, or the character itself where that form is longer. -/
def lowerCharInPlace (c : Char) : Char :=
  match lowerChar c with
  | [small] => small
  | _ => c

theorem lowerInPlace_cons (c : Char) (t : Text) :
    lowerInPlace (c :: t) = lowerCharInPlace c :: lowerInPlace t := rfl

theorem lowerChar_eq {c : Char} (h : c ≠ '\u0130') : lowerChar c = [lowerCharInPlace c] := by
  obtain ⟨small, single⟩ := List.length_eq_one_iff.mp (length_lowerChar h)
  rw [lowerCharInPlace, single]

/-- Whether a capital sigma of a text ends a word, where `before` stands in front of the text,
nearest character first: a cased letter is near it in front and none behind. -/
def SigmaEndsWord (before t : Text) : Prop :=
  ∃ front back, t = front ++ '\u03A3' :: back ∧ meetsCased (front.reverse ++ before) = true ∧
    meetsCased back = false

theorem sigmaEndsWord_cons (before : Text) (c : Char) (t : Text) :
    SigmaEndsWord before (c :: t) ↔
      (c = '\u03A3' ∧ meetsCased before = true ∧ meetsCased t = false) ∨
        SigmaEndsWord (c :: before) t := by
  constructor
  · rintro ⟨front, back, split, cased, free⟩
    cases front with
    | nil =>
      obtain ⟨rfl, rfl⟩ := List.cons.inj split
      exact .inl ⟨rfl, cased, free⟩
    | cons d front =>
      obtain ⟨rfl, rfl⟩ := List.cons.inj split
      exact .inr ⟨front, back, rfl, by simpa using cased, free⟩
  · rintro (⟨rfl, cased, free⟩ | ⟨front, back, rfl, cased, free⟩)
    · exact ⟨[], t, rfl, cased, free⟩
    · exact ⟨c :: front, back, rfl, by simpa using cased, free⟩

theorem lowerFrom_eq_lowerInPlace_iff (before t : Text) :
    lowerFrom before t = lowerInPlace t ↔ '\u0130' ∉ t ∧ ¬SigmaEndsWord before t := by
  induction t generalizing before with
  | nil =>
    have none : ¬SigmaEndsWord before [] := by
      rintro ⟨front, back, split, -⟩
      cases front <;> cases split
    exact ⟨fun _ => ⟨List.not_mem_nil, none⟩, fun _ => rfl⟩
  | cons c t ih =>
    rw [lowerFrom, lowerInPlace_cons, sigmaEndsWord_cons]
    by_cases sigma : c = '\u03A3'
    · subst sigma
      have medial : lowerCharInPlace '\u03A3' = '\u03C3' := by decide
      rw [if_pos (beq_self_eq_true _), medial]
      cases cased : meetsCased before <;> cases free : meetsCased t <;> simp [ih]
    · by_cases dotted : c = '\u0130'
      · subst dotted
        constructor
        -- The dotted capital I makes the text longer.
        · intro same
          have longer := congrArg List.length same
          have rest := length_le_lowerFrom ('\u0130' :: before) t
          simp [lowerChar] at longer
          omega
        · rintro ⟨free, -⟩
          exact absurd List.mem_cons_self free
      · rw [if_neg (by simpa using sigma), lowerChar_eq dotted]
        simp [ih, sigma, Ne.symm dotted]

/-- Both ways of lowering a text agree unless a dotted capital I is in it or a capital sigma ends
one of its words. -/
theorem lower_eq_lowerInPlace_iff (t : Text) :
    lower t = lowerInPlace t ↔ '\u0130' ∉ t ∧ ¬SigmaEndsWord [] t :=
  lowerFrom_eq_lowerInPlace_iff [] t

end Wager.Text
