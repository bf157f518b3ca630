import Mathlib
import Wager.Slip.Pattern

/-!
# Searching and sweeping

Where a pattern matches nowhere in the front of a text, a search finds what it would find behind
that front, and a sweep keeps it.  Where the pattern matches, the sweep leaves a space and goes on
behind the match.
-/

namespace Wager.Pattern

variable {β : Type} {p : Pattern β} {before : Option Char} {x y rest : Text}

/-- The character in front of what follows `x`, where `before` stands in front of `x`. -/
def behind (before : Option Char) : Text → Option Char
  | [] => before
  | c :: x => behind (some c) x

@[simp] theorem behind_nil (before : Option Char) : behind before [] = before := rfl

@[simp] theorem behind_cons (before : Option Char) (c : Char) (x : Text) :
    behind before (c :: x) = behind (some c) x := rfl

@[simp] theorem behind_append (before : Option Char) (x y : Text) :
    behind before (x ++ y) = behind (behind before x) y := by
  induction x generalizing before with
  | nil => rfl
  | cons c x ih => exact ih (some c)

theorem behind_of_getLast? {c : Char} (last : x.getLast? = some c) : behind before x = some c := by
  obtain ⟨front, rfl⟩ := List.getLast?_eq_some_iff.mp last
  rw [behind_append]
  rfl

/-- Whether the pattern matches nowhere in `x`, which stands between `before` and `rest`. -/
def Misses (p : Pattern β) (before : Option Char) : Text → Text → Prop
  | [], _ => True
  | c :: x, rest => p before (c :: (x ++ rest)) = none ∧ Misses p (some c) x rest

theorem misses_append : Misses p before (x ++ y) rest ↔
    Misses p before x (y ++ rest) ∧ Misses p (behind before x) y rest := by
  induction x generalizing before with
  | nil => simp [Misses]
  | cons c x ih =>
    simp only [List.cons_append, Misses, List.append_assoc, ih, behind_cons, and_assoc]

theorem sweepFrom_of_misses (missed : Misses p before x rest) : sweepFrom p 0 before (x ++ rest) =
    ((sweepFrom p 0 (behind before x) rest).1, x ++ (sweepFrom p 0 (behind before x) rest).2) := by
  induction x generalizing before with
  | nil => rfl
  | cons c x ih =>
    obtain ⟨here, later⟩ := missed
    rw [List.cons_append, sweepFrom, here, ih later]
    rfl

theorem sweepFrom_length (x rest : Text) :
    sweepFrom p x.length before (x ++ rest) = sweepFrom p 0 (behind before x) rest := by
  induction x generalizing before with
  | nil => rfl
  | cons c x ih =>
    rw [List.cons_append, List.length_cons, sweepFrom, ih]
    rfl

theorem sweepFrom_of_match {c : Char} {value : β}
    (matched : p before (c :: (x ++ rest)) = some (value, rest)) :
    sweepFrom p 0 before (c :: (x ++ rest)) =
      (value :: (sweepFrom p 0 (behind (some c) x) rest).1,
        ' ' :: (sweepFrom p 0 (behind (some c) x) rest).2) := by
  have read : (x ++ rest).length - rest.length = x.length := by simp
  rw [sweepFrom, matched]
  dsimp only
  rw [read, sweepFrom_length]

theorem findFrom_of_misses (missed : Misses p before x rest) : findFrom p before (x ++ rest) =
    (findFrom p (behind before x) rest).map
      fun (front, value, tail) => (x ++ front, value, tail) := by
  induction x generalizing before with
  | nil => simp
  | cons c x ih =>
    obtain ⟨here, later⟩ := missed
    rw [List.cons_append, findFrom, here, ih later, Option.map_map]
    rfl

theorem eq_of_findFrom {t front tail : Text} {value : β}
    (found : findFrom p before t = some (front, value, tail)) :
    ∃ rest, t = front ++ rest ∧ p (behind before front) rest = some (value, tail) := by
  induction t generalizing before front with
  | nil => cases found
  | cons c t ih =>
    rw [findFrom] at found
    split at found
    next value' tail' here =>
      cases found
      exact ⟨c :: t, rfl, here⟩
    next =>
      obtain ⟨⟨front', value', tail'⟩, later, same⟩ := Option.map_eq_some_iff.mp found
      cases same
      obtain ⟨rest, rfl, read⟩ := ih later
      exact ⟨rest, rfl, read⟩

end Wager.Pattern
