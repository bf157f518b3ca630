import Mathlib
import Wager.Slip.Segment

/-!
# Segments of a text

The team segments of a text are its team names in order, and between two gaps there is always a
team.
-/

namespace Wager.Segment

def isTeam : Segment → Bool
  | .team .. => true
  | .gap .. => false

def teams : List Segment → List TeamSpan
  | [] => []
  | .team _ hit :: rest => hit :: teams rest
  | .gap .. :: rest => teams rest

def gaps : List Segment → List Text
  | [] => []
  | .team .. :: rest => gaps rest
  | .gap t _ _ :: rest => t :: gaps rest

def GapsApart (segments : List Segment) : Prop :=
  segments.IsChain fun s t => s.isTeam ∨ t.isTeam

theorem GapsApart.tail {s : Segment} {rest : List Segment} (h : GapsApart (s :: rest)) :
    GapsApart rest :=
  List.IsChain.tail h

theorem GapsApart.after_gap {t : Text} {i j : Nat} {rest : List Segment}
    (h : GapsApart (.gap t i j :: rest)) :
    rest = [] ∨ ∃ s hit more, rest = .team s hit :: more := by
  cases rest with
  | nil => exact .inl rfl
  | cons next more =>
    have apart := (List.isChain_cons_cons.mp h).1
    cases next with
    | team s hit => exact .inr ⟨s, hit, more, rfl⟩
    | gap => simp [isTeam] at apart

theorem teams_append (front back : List Segment) :
    teams (front ++ back) = teams front ++ teams back := by
  induction front with
  | nil => rfl
  | cons s front ih => cases s <;> simp [teams, ih]

theorem ofStretch_cases (start : Nat) (stretch : Text) :
    ofStretch start stretch = [] ∨ ∃ t i j, ofStretch start stretch = [.gap t i j] := by
  unfold ofStretch
  dsimp only
  split
  · exact .inl rfl
  · exact .inr ⟨_, _, _, rfl⟩

theorem teams_ofStretch (start : Nat) (stretch : Text) : teams (ofStretch start stretch) = [] := by
  rcases ofStretch_cases start stretch with h | ⟨t, i, j, h⟩ <;> rw [h] <;> rfl

theorem teams_listFrom (pos : Nat) (t : Text) (hits : List TeamSpan) :
    teams (listFrom pos t hits) = hits := by
  induction hits generalizing pos t with
  | nil => exact teams_ofStretch pos t
  | cons hit hits ih =>
    rw [listFrom, teams_append, teams_ofStretch, List.nil_append, teams, ih]

theorem teams_list (t : Text) (hits : List TeamSpan) : teams (list t hits) = hits :=
  teams_listFrom 0 t hits

theorem GapsApart.cons_team {rest : List Segment} (h : GapsApart rest) (t : Text)
    (hit : TeamSpan) : GapsApart (.team t hit :: rest) := by
  cases rest with
  | nil => exact List.isChain_singleton _
  | cons next more => exact List.isChain_cons_cons.mpr ⟨.inl rfl, h⟩

theorem gapsApart_listFrom (pos : Nat) (t : Text) (hits : List TeamSpan) :
    GapsApart (listFrom pos t hits) := by
  induction hits generalizing pos t with
  | nil =>
    rcases ofStretch_cases pos t with h | ⟨_, _, _, h⟩
    · rw [listFrom, h]
      exact List.isChain_nil
    · rw [listFrom, h]
      exact List.isChain_singleton _
  | cons hit hits ih =>
    rw [listFrom]
    rcases ofStretch_cases pos (t.take (hit.start - pos)) with h | ⟨_, _, _, h⟩
    · rw [h]
      exact (ih _ _).cons_team _ _
    · rw [h]
      exact List.isChain_cons_cons.mpr ⟨.inr rfl, (ih _ _).cons_team _ _⟩

theorem gapsApart_list (t : Text) (hits : List TeamSpan) : GapsApart (list t hits) :=
  gapsApart_listFrom 0 t hits

end Wager.Segment
