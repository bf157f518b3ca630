import Wager.Proofs.Slip.Gap
import Wager.Proofs.Slip.Segments

/-!
# What becomes of the segments

Every team goes into one match and every gap is read once.  What a gap says goes to a match or stays
unread; an entry stays unread only in a gap behind the last team that no team waits for.
-/

namespace Wager

theorem GapReading.entries_eq_nil {α : Type} {g : GapReading α} (h : ¬g.hasEntries = true) :
    g.entries = [] := by
  simpa [hasEntries] using h

inductive Expecting where
  | nothing
  /-- A team takes an opponent or a gap. -/
  | team
  /-- A team and a joining gap take an opponent. -/
  | opponent
  /-- Two teams with a joining gap between them take one more gap. -/
  | trailer
  /-- The entries of a gap take a team. -/
  | owner (gap : Text)

namespace Expecting

def next (α : Type) [Scalar α] : Expecting → Segment → Expecting
  | .nothing, .team .. => .team
  | .team, .team .. => .nothing
  | .opponent, .team .. => .trailer
  | .trailer, .team .. => .team
  | .owner _, .team .. => .nothing
  | .team, .gap g _ _ => if (GapReading.ofText (α := α) g).joins then .opponent else .nothing
  | .trailer, .gap .. => .nothing
  | _, .gap g _ _ => if (GapReading.ofText (α := α) g).hasEntries then .owner g else .nothing

def gap? : Expecting → Option Text
  | .owner g => some g
  | _ => none

end Expecting

/-- The gap with entries that is left when all segments are read: the team before it has its match
already, and no team comes behind it. -/
def Segment.orphan? (α : Type) [Scalar α] (segments : List Segment) : Option Text :=
  (segments.foldl (Expecting.next α) .nothing).gap?

namespace Fixture

section

variable {α : Type}

def teams (m : Fixture α) : List TeamSpan := m.home.toList ++ m.away.toList

@[simp] theorem teams_ofLone (team : TeamSpan) (gap : GapReading α) (text : Text) :
    (ofLone team gap text).teams = [team] := by
  unfold ofLone teams
  dsimp only
  split <;> rfl

@[simp] theorem teams_ofPair (home away : TeamSpan) (gap : GapReading α) (text : Text) :
    (ofPair home away gap text).teams = [home, away] := rfl

@[simp] theorem teams_extend (m : Fixture α) (gap : GapReading α) (text : Text) :
    (m.extend gap text).teams = m.teams := rfl

@[simp] theorem entries_ofLone (team : TeamSpan) (gap : GapReading α) (text : Text) :
    (ofLone team gap text).entries = gap.entries := rfl

@[simp] theorem entries_ofPair (home away : TeamSpan) (gap : GapReading α) (text : Text) :
    (ofPair home away gap text).entries = gap.entries := rfl

@[simp] theorem entries_extend (m : Fixture α) (gap : GapReading α) (text : Text) :
    (m.extend gap text).entries = m.entries ++ gap.entries := rfl

@[simp] theorem unknown_ofLone (team : TeamSpan) (gap : GapReading α) (text : Text) :
    (ofLone team gap text).unknown = gap.unknown := rfl

@[simp] theorem unknown_ofPair (home away : TeamSpan) (gap : GapReading α) (text : Text) :
    (ofPair home away gap text).unknown = gap.unknown := rfl

@[simp] theorem unknown_extend (m : Fixture α) (gap : GapReading α) (text : Text) :
    (m.extend gap text).unknown = m.unknown ++ gap.unknown := rfl

end

end Fixture

namespace SlipPiece

variable {α : Type}

def match? : SlipPiece α → Option (Fixture α)
  | .found m => some m
  | .unread _ => none

def unknown : SlipPiece α → List Text
  | .found m => m.unknown
  | .unread texts => texts

@[simp] theorem unknown_found (m : Fixture α) : unknown (.found m) = m.unknown := rfl

@[simp] theorem unknown_unread (texts : List Text) :
    unknown (.unread texts : SlipPiece α) = texts := rfl

def fixtures (pieces : List (SlipPiece α)) : List (Fixture α) := pieces.filterMap match?

@[simp] theorem fixtures_nil : fixtures ([] : List (SlipPiece α)) = [] := rfl

@[simp] theorem fixtures_found (m : Fixture α) (rest : List (SlipPiece α)) :
    fixtures (.found m :: rest) = m :: fixtures rest := rfl

@[simp] theorem fixtures_unread (texts : List Text) (rest : List (SlipPiece α)) :
    fixtures (.unread texts :: rest) = fixtures rest := rfl

end SlipPiece

namespace Fixture

open SlipPiece

variable {α : Type} [Scalar α]

theorem teams_pieces (segments : List Segment) :
    (fixtures (pieces (α := α) segments)).flatMap teams = Segment.teams segments := by
  fun_induction pieces (α := α) segments with
  | case1 => rfl
  | _ => simp_all [Segment.teams]

theorem teams_ne_nil_pieces (segments : List Segment) :
    ∀ m ∈ fixtures (pieces (α := α) segments), m.teams ≠ [] := by
  fun_induction pieces (α := α) segments with
  | case1 => simp
  | _ => simp_all

/-- The entries that wait for a team when all segments are read. -/
def waiting (state : Expecting) (segments : List Segment) : List (Semantic α) :=
  (segments.foldl (Expecting.next α) state).gap?.toList.flatMap fun g =>
    (GapReading.ofText g).entries

@[simp] theorem waiting_cons (state : Expecting) (s : Segment) (rest : List Segment) :
    waiting (α := α) state (s :: rest) = waiting (state.next α s) rest := rfl

theorem waiting_trailer {rest : List Segment}
    (bare : ∀ g i j more, rest = .gap g i j :: more → False) :
    waiting (α := α) .trailer rest = waiting .nothing rest := by
  cases rest with
  | nil => rfl
  | cons s more =>
    cases s with
    | team => rfl
    | gap g i j => exact (bare g i j more rfl).elim

theorem waiting_team_gap (s : Text) (hit : TeamSpan) (g : Text) (i j : Nat) :
    waiting (α := α) .nothing [.team s hit, .gap g i j] = [] := by
  rw [waiting_cons, waiting_cons, Expecting.next, Expecting.next]
  split <;> rfl

theorem waiting_gap (g : Text) (i j : Nat) :
    waiting (α := α) .nothing [.gap g i j] = (GapReading.ofText g).entries := by
  rw [waiting_cons, Expecting.next]
  · split
    next => simp [waiting, Expecting.gap?]
    next silent => exact (GapReading.entries_eq_nil silent).symm
  all_goals simp

theorem eq_nil_of_last {g : Text} {i j : Nat} {rest : List Segment}
    (apart : Segment.GapsApart (.gap g i j :: rest))
    (last : ∀ s hit more, rest = .team s hit :: more → False) : rest = [] := by
  rcases apart.after_gap with h | ⟨s, hit, more, h⟩
  · exact h
  · exact (last s hit more h).elim

/-- Every entry goes into a match unless its gap is left waiting for a team; what stays unread is
what the gaps leave unread and the names of the entries that found no team. -/
theorem pieces_conserve {segments : List Segment} (apart : Segment.GapsApart segments) :
    (fixtures (pieces (α := α) segments)).flatMap entries ++ waiting .nothing segments =
        (Segment.gaps segments).flatMap (fun g => (GapReading.ofText g).entries) ∧
      (pieces (α := α) segments).flatMap SlipPiece.unknown =
        (Segment.gaps segments).flatMap (fun g => (GapReading.ofText (α := α) g).unknown) ++
          (waiting (α := α) .nothing segments).map (·.name) := by
  fun_induction pieces (α := α) segments with
  | case1 => exact ⟨rfl, rfl⟩
  | case2 s a => exact ⟨rfl, rfl⟩
  | case3 s a s' b rest ih =>
    simpa [Segment.gaps, Expecting.next, GapReading.empty] using ih apart.tail.tail
  | case4 s a g i j s' b g' i' j' rest gap joins ih =>
    simpa [Segment.gaps, Expecting.next, gap, joins] using ih apart.tail.tail.tail.tail
  | case5 s a g i j s' b g' i' j' rest gap alone ih =>
    simpa [Segment.gaps, Expecting.next, gap, alone] using ih apart.tail.tail
  | case6 s a g i j s' b rest bare gap joins ih =>
    simpa [Segment.gaps, Expecting.next, gap, joins, waiting_trailer bare] using
      ih apart.tail.tail.tail
  | case7 s a g i j s' b rest bare gap alone ih =>
    simpa [Segment.gaps, Expecting.next, gap, alone] using ih apart.tail.tail
  | case8 s a g i j rest _ last ih =>
    obtain rfl := eq_nil_of_last apart.tail last
    rw [waiting_team_gap]
    simp [Segment.gaps, pieces]
  | case9 g i j s a rest gap readable ih =>
    simpa [Segment.gaps, Expecting.next, gap, readable] using ih apart.tail.tail
  | case10 g i j s a rest gap silent ih =>
    have none := GapReading.entries_eq_nil silent
    simpa [Segment.gaps, Expecting.next, GapReading.content, gap, silent, none] using
      ih apart.tail
  | case11 g i j rest last ih =>
    obtain rfl := eq_nil_of_last apart last
    rw [waiting_gap]
    simp [Segment.gaps, pieces, GapReading.content]

end Fixture

end Wager
