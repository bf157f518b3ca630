import Mathlib
import Wager.Text.Basic

/-!
# Occurrences of a piece

A search through a text finds a piece just when it stands somewhere in it.
-/

namespace Wager.Text

theorem occursIn_iff {piece t : Text} : occursIn piece t = true ↔ piece <:+: t := by
  induction t with
  | nil => simp [occursIn, indexOf?]
  | cons c t ih =>
    rw [occursIn, indexOf?, List.infix_cons_iff, ← List.isPrefixOf_iff_prefix]
    split
    next front => simp [front]
    next front =>
      rw [Option.isSome_map, ← occursIn, ih]
      simp [front]

theorem occursIn_eq_false_iff {piece t : Text} : occursIn piece t = false ↔ ¬piece <:+: t := by
  rw [← occursIn_iff, Bool.not_eq_true]

theorem occursIn_append {c : Char} {piece front : Text} (free : c ∉ front) (rest : Text) :
    occursIn (c :: piece) (front ++ rest) = occursIn (c :: piece) rest := by
  induction front with
  | nil => rfl
  | cons d front ih =>
    obtain ⟨other, later⟩ := not_or.mp (mt List.mem_cons.mpr free)
    rw [← ih later, List.cons_append, Bool.eq_iff_iff, occursIn_iff, occursIn_iff,
      List.infix_cons_iff, List.cons_prefix_cons]
    simp [other]

end Wager.Text
