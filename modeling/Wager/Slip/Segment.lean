import Wager.Slip.Gap
import Wager.Team.Scan

/-!
# Segments and matches

A text with its team names found falls into team segments and the gaps between them.  Read from the
left, segments make up matches: two teams with a joining gap or with nothing between them, a team
with entries behind or before it, or a team alone.  Whatever a gap says that finds no match of its
own stays unread with the match before it, or with the first one.
-/

namespace Wager

open Text

/-- A part of a text: a team name, or what stands between team names, without the blanks around it.
A gap keeps the span in which it was found. -/
inductive Segment where
  | team (text : Text) (hit : TeamSpan)
  | gap (text : Text) (start stop : Nat)
  deriving DecidableEq, Repr

namespace Segment

def ofStretch (start : Nat) (stretch : Text) : List Segment :=
  let t := trim stretch
  if t.isEmpty then [] else [.gap t start (start + stretch.length)]

def listFrom (pos : Nat) (t : Text) : List TeamSpan → List Segment
  | [] => ofStretch pos t
  | hit :: hits =>
    let name := t.drop (hit.start - pos)
    ofStretch pos (t.take (hit.start - pos)) ++
      .team (name.take (hit.stop - hit.start)) hit ::
        listFrom hit.stop (name.drop (hit.stop - hit.start)) hits

def list (t : Text) (hits : List TeamSpan) : List Segment := listFrom 0 t hits

end Segment

structure Fixture (α : Type) where
  home : Option TeamSpan
  away : Option TeamSpan
  entries : List (Semantic α)
  entryText : Text
  unknown : List Text
  deriving DecidableEq, Repr

/-- What some segments come to: a match, or words that belong to none. -/
inductive SlipPiece (α : Type) where
  | found (m : Fixture α)
  | unread (texts : List Text)
  deriving DecidableEq, Repr

namespace Fixture

section

variable {α : Type}

def favoursAway : List (Semantic α) → Bool
  | ⟨_, .result .lose⟩ :: _ => true
  | _ => false

/-- A match of one team.  A bet on the away side makes it the away team, and entry text counts only
when it holds entries. -/
def ofLone (team : TeamSpan) (gap : GapReading α) (text : Text) : Fixture α :=
  let away := favoursAway gap.entries
  { home := if away then none else some team
    away := if away then some team else none
    entries := gap.entries
    entryText := if gap.hasEntries then text else []
    unknown := gap.unknown }

def ofPair (home away : TeamSpan) (gap : GapReading α) (text : Text) : Fixture α :=
  ⟨some home, some away, gap.entries, if gap.isVersus then [] else text, gap.unknown⟩

def extend (m : Fixture α) (gap : GapReading α) (text : Text) : Fixture α :=
  { m with
    entries := m.entries ++ gap.entries
    entryText :=
      if gap.hasEntries then join [' '] ([m.entryText, text].filter (!·.isEmpty))
      else m.entryText
    unknown := m.unknown ++ gap.unknown }

end

variable {α : Type} [Scalar α]

def pieces : List Segment → List (SlipPiece α)
  | [] => []
  | [.team _ a] => [.found (ofLone a .empty [])]
  | .team _ a :: .team _ b :: rest => .found (ofPair a b .empty []) :: pieces rest
  | .team _ a :: .gap g _ _ :: .team s b :: .gap g' i j :: rest =>
    let gap := GapReading.ofText g
    if gap.joins then
      .found ((ofPair a b gap g).extend (GapReading.ofText g') g') :: pieces rest
    else .found (ofLone a gap g) :: pieces (.team s b :: .gap g' i j :: rest)
  | .team _ a :: .gap g _ _ :: .team s b :: rest =>
    let gap := GapReading.ofText g
    if gap.joins then .found (ofPair a b gap g) :: pieces rest
    else .found (ofLone a gap g) :: pieces (.team s b :: rest)
  | .team _ a :: .gap g _ _ :: rest => .found (ofLone a (GapReading.ofText g) g) :: pieces rest
  | .gap g _ _ :: .team s a :: rest =>
    let gap := GapReading.ofText g
    if gap.hasEntries then .found (ofLone a gap g) :: pieces rest
    else .unread gap.content :: pieces (.team s a :: rest)
  | .gap g _ _ :: rest => .unread (GapReading.ofText (α := α) g).content :: pieces rest

/-- The matches of some pieces, where `current` is the last match met. -/
def gatherFrom (current : Fixture α) : List (SlipPiece α) → List (Fixture α)
  | [] => [current]
  | .unread texts :: rest => gatherFrom { current with unknown := current.unknown ++ texts } rest
  | .found m :: rest => current :: gatherFrom m rest

/-- The matches of some pieces; `pending` was read before any match. -/
def gather (pending : List Text) : List (SlipPiece α) → List (Fixture α)
  | [] => []
  | .unread texts :: rest => gather (pending ++ texts) rest
  | .found m :: rest => gatherFrom { m with unknown := pending ++ m.unknown } rest

def list (segments : List Segment) : List (Fixture α) := gather [] (pieces segments)

end Fixture

end Wager
