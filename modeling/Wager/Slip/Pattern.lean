import Wager.Text.Casing

/-!
# Patterns

A pattern reads something off the front of a text, and may look at the character before it.  A text
is searched for a pattern's first match, or swept: every match is read and one space is left in its
place.
-/

namespace Wager

/-- Reads a value off the front of a text that stands behind the character `before`, and answers it
with what follows. -/
abbrev Pattern (β : Type) := (before : Option Char) → Text → Option (β × Text)

namespace Pattern

variable {β : Type}

/-- The first match behind `before`: the text in front of it, its value and the text behind it. -/
def findFrom (p : Pattern β) (before : Option Char) : Text → Option (Text × β × Text)
  | [] => none
  | c :: rest =>
    match p before (c :: rest) with
    | some (value, tail) => some ([], value, tail)
    | none => (findFrom p (some c) rest).map fun (front, value, tail) => (c :: front, value, tail)

def find (p : Pattern β) (t : Text) : Option (Text × β × Text) := findFrom p none t

/-- Sweeps a text of which `skip` characters still belong to the last match. -/
def sweepFrom (p : Pattern β) (skip : Nat) (before : Option Char) : Text → List β × Text
  | [] => ([], [])
  | c :: rest =>
    match skip with
    | skip + 1 => sweepFrom p skip (some c) rest
    | 0 =>
      match p before (c :: rest) with
      | some (value, tail) =>
        let (values, kept) := sweepFrom p (rest.length - tail.length) (some c) rest
        (value :: values, ' ' :: kept)
      | none =>
        let (values, kept) := sweepFrom p 0 (some c) rest
        (values, c :: kept)

/-- The values of all matches, taken from the left, and the text with a space for each of them. -/
def sweep (p : Pattern β) (t : Text) : List β × Text := sweepFrom p 0 none t

end Pattern

end Wager
