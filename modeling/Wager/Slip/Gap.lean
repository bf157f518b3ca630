import Wager.Entry.Reader

/-!
# Gaps between team names

What stands between or around team names is read as entries, or as a word that sets two teams
against each other.  Words that are neither are kept as unknown.
-/

namespace Wager

open Text

structure GapReading (α : Type) where
  entries : List (Semantic α)
  /-- Whether the gap only sets two teams against each other. -/
  isVersus : Bool
  unknown : List Text
  deriving DecidableEq, Repr

namespace GapReading

def isEdge (c : Char) : Bool := isBlank c || c == ',' || c == ';' || c == '.'

def versusWords : List Text :=
  ["vs".toList, "v".toList, "对阵".toList, "对".toList, ['-'], ['×']]

def isVersusWord (t : Text) : Bool := versusWords.any fun w => afterWord? w t == some []

section

variable {α : Type}

def empty : GapReading α := ⟨[], false, []⟩

def hasEntries (g : GapReading α) : Bool := !g.entries.isEmpty

/-- Whether a gap between two teams makes a match of them. -/
def joins (g : GapReading α) : Bool := g.hasEntries || g.isVersus

def content (g : GapReading α) : List Text := g.unknown ++ g.entries.map (·.name)

def append (g h : GapReading α) : GapReading α :=
  ⟨g.entries ++ h.entries, g.isVersus || h.isVersus, g.unknown ++ h.unknown⟩

end

variable {α : Type} [Scalar α]

def entry? (t : Text) : Option (Semantic α) :=
  let s := Semantic.ofText t
  if !s.name.isEmpty && s.market != .other then some s else none

def ofWord (word : Text) : GapReading α :=
  let bare := trimWhere isEdge word
  if bare.isEmpty || isVersusWord bare then empty
  else
    match entry? bare with
    | some s => ⟨[s], false, []⟩
    | none => ⟨[], false, [bare]⟩

/-- One of several alternatives: an entry as a whole, or word by word. -/
def ofPart (part : Text) : GapReading α :=
  let bare := trim part
  if bare.isEmpty then empty
  else
    match entry? bare with
    | some s => ⟨[s], false, []⟩
    | none => (words bare).foldl (fun g word => g.append (ofWord word)) empty

/-- A gap: alternatives between slashes, or one versus word. -/
def ofText (t : Text) : GapReading α :=
  let bare := trimWhere isEdge t
  if bare.isEmpty then empty
  else if isVersusWord bare then ⟨[], true, []⟩
  else (splitWhere (· == '/') bare).foldl (fun g part => g.append (ofPart part)) empty

end GapReading

end Wager
