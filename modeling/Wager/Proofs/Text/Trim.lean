import Mathlib
import Wager.Text.Casing

/-!
# Trimming and lower case

Trimming a trimmed text changes nothing, and lower case never shortens a text.
-/

namespace Wager.Text

theorem trimWhere_trimWhere (p : Char → Bool) (t : Text) :
    trimWhere p (trimWhere p t) = trimWhere p t := by
  let front := t.dropWhile p
  have kept : (front.rdropWhile p).dropWhile p = front.rdropWhile p := by
    rw [List.dropWhile_eq_self_iff]
    intro nonempty first
    have within := List.rdropWhile_prefix p front
    have longer : 0 < front.length := nonempty.trans_le within.length_le
    have same : (front.rdropWhile p)[0] = front[0] := within.getElem nonempty
    have stays := List.dropWhile_eq_self_iff.mp (List.dropWhile_idempotent p t) longer
    exact stays (same ▸ first)
  calc trimWhere p (trimWhere p t) = ((front.rdropWhile p).dropWhile p).rdropWhile p := rfl
    _ = (front.rdropWhile p).rdropWhile p := by rw [kept]
    _ = front.rdropWhile p := List.rdropWhile_idempotent p front

@[simp] theorem trim_trim (t : Text) : trim (trim t) = trim t := trimWhere_trimWhere isBlank t

theorem trim_eq_nil_iff {t : Text} : trim t = [] ↔ ∀ c ∈ t, isBlank c = true := by
  change (t.dropWhile isBlank).rdropWhile isBlank = [] ↔ _
  rw [List.rdropWhile_eq_nil_iff, ← List.dropWhile_eq_nil_iff, List.dropWhile_idempotent,
    List.dropWhile_eq_nil_iff]

theorem lowerChar_ne_nil (c : Char) : lowerChar c ≠ [] := by
  unfold lowerChar
  split
  · simp
  · split <;> simp

theorem length_le_lowerFrom (before t : Text) : t.length ≤ (lowerFrom before t).length := by
  induction t generalizing before with
  | nil => simp
  | cons c rest ih =>
    have more := ih (c :: before)
    rw [lowerFrom]
    split
    · simpa using more
    · have one := List.length_pos_of_ne_nil (lowerChar_ne_nil c)
      rw [List.length_append, List.length_cons]
      omega

theorem length_lowerChar {c : Char} (h : c ≠ '\u0130') : (lowerChar c).length = 1 := by
  unfold lowerChar
  split
  · simp
  · simp [h]

theorem length_lowerFrom {before t : Text} (h : '\u0130' ∉ t) :
    (lowerFrom before t).length = t.length := by
  induction t generalizing before with
  | nil => rfl
  | cons c rest ih =>
    obtain ⟨hc, hrest⟩ := not_or.mp (mt List.mem_cons.mpr h)
    rw [lowerFrom]
    split
    · simp [ih hrest]
    · rw [List.length_append, length_lowerChar (Ne.symm hc), ih hrest, List.length_cons]
      omega

theorem length_lower {t : Text} (h : '\u0130' ∉ t) : (lower t).length = t.length :=
  length_lowerFrom h

theorem length_le_lower (t : Text) : t.length ≤ (lower t).length := length_le_lowerFrom [] t

end Wager.Text
