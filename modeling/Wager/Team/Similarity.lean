import Wager.Team.Suggestion

/-!
# Similarity of names

How alike two names are, as the part of their characters that they share in order, compared word by
word: words in both names count in full, the others as one text.
-/

namespace Wager

open Text

/-- A part `shared / total` of one; the total is positive. -/
structure Similarity where
  shared : Nat
  total : Nat
  deriving DecidableEq, Repr

namespace Similarity

def none : Similarity := ⟨0, 1⟩

def full : Similarity := ⟨1, 1⟩

def less (a b : Similarity) : Bool := a.shared * b.total < b.shared * a.total

def max (a b : Similarity) : Similarity := if less a b then b else a

def reaches (s : Similarity) (percent : Int) : Bool := percent * s.total ≤ 100 * s.shared

/-- One row of the table of longest common subsequences; `diagonal` and `left` are the entries above
to the left and directly to the left. -/
def nextRow (c : Char) (diagonal left : Nat) : Text → List Nat → List Nat
  | d :: rest, above :: row =>
    let here := if c == d then diagonal + 1 else Nat.max above left
    here :: nextRow c above here rest row
  | _, _ => []

def commonLength (a b : Text) : Nat :=
  (a.foldl (fun row c => nextRow c 0 0 b row) (List.replicate b.length 0)).getLast?.getD 0

/-- The similarity of two texts whose lengths add up to `total` and that differ in `distance`
insertions and deletions. -/
def ofDistance (distance total : Nat) : Similarity := ⟨total - distance, total⟩

def before : Text → Text → Bool
  | [], _ => true
  | _ :: _, [] => false
  | c :: a, d :: b => if c == d then before a b else c.toNat < d.toNat

def sortedWords (t : Text) : List Text := (words t).eraseDups.mergeSort before

/-- The similarity of two names by their sets of words. -/
def ofWords (a b : Text) : Similarity :=
  let first := sortedWords a
  let second := sortedWords b
  let common := first.filter second.contains
  let onlyFirst := first.filter fun w => !second.contains w
  let onlySecond := second.filter fun w => !first.contains w
  if first.isEmpty || second.isEmpty then none
  else if !common.isEmpty && (onlyFirst.isEmpty || onlySecond.isEmpty) then full
  else
    let rest := join [' '] onlyFirst
    let other := join [' '] onlySecond
    let shared := (join [' '] common).length
    let gap := if shared == 0 then 0 else 1
    let firstLength := shared + gap + rest.length
    let secondLength := shared + gap + other.length
    let distance := rest.length + other.length - 2 * commonLength rest other
    let whole := ofDistance distance (firstLength + secondLength)
    if shared == 0 then whole
    else
      max whole (max (ofDistance (gap + rest.length) (shared + firstLength))
        (ofDistance (gap + other.length) (shared + secondLength)))

end Similarity

/-- The names that reach the cutoff, more similar ones first and equal ones in order. -/
def Suggestion.bySimilarity : NameSearch := fun query cutoff names =>
  let scored := names.zipIdx.map fun (name, position) => (Similarity.ofWords query name, position)
  ((scored.filter fun (s, _) => s.reaches cutoff).mergeSort fun a b => !a.1.less b.1).map (·.2)

end Wager
