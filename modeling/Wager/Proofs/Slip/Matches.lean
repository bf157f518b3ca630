import Wager.Proofs.Scalar.Rational
import Wager.Proofs.Slip.Pieces

/-!
# The matches of a text

Gathering pieces only hands unread text to matches, so the matches of a text use every team once and
hold every word that was read from a gap.
-/

namespace Wager.Fixture

open SlipPiece

section

variable {α β : Type} {f : Fixture α → β}

theorem map_gatherFrom (hf : ∀ m texts, f { m with unknown := texts } = f m)
    (current : Fixture α) (pieces : List (SlipPiece α)) :
    (gatherFrom current pieces).map f = f current :: (fixtures pieces).map f := by
  induction pieces generalizing current with
  | nil => rfl
  | cons piece pieces ih =>
    cases piece with
    | found m => simp [gatherFrom, ih]
    | unread texts => simp [gatherFrom, ih, hf]

theorem map_gather (hf : ∀ m texts, f { m with unknown := texts } = f m)
    (pending : List Text) (pieces : List (SlipPiece α)) :
    (gather pending pieces).map f = (fixtures pieces).map f := by
  induction pieces generalizing pending with
  | nil => rfl
  | cons piece pieces ih =>
    cases piece with
    | found m => simp [gather, map_gatherFrom hf, hf]
    | unread texts => simp [gather, ih]

end

section

variable {α : Type}

theorem unknown_gatherFrom (current : Fixture α) (pieces : List (SlipPiece α)) :
    (gatherFrom current pieces).flatMap unknown =
      current.unknown ++ pieces.flatMap SlipPiece.unknown := by
  induction pieces generalizing current with
  | nil => simp [gatherFrom]
  | cons piece pieces ih =>
    cases piece with
    | found m => simp [gatherFrom, ih]
    | unread texts => simp [gatherFrom, ih]

theorem unknown_gather (pending : List Text) {pieces : List (SlipPiece α)}
    (h : fixtures pieces ≠ []) : (gather pending pieces).flatMap unknown =
      pending ++ pieces.flatMap SlipPiece.unknown := by
  induction pieces generalizing pending with
  | nil => exact absurd rfl h
  | cons piece pieces ih =>
    cases piece with
    | found m => simp [gather, unknown_gatherFrom]
    | unread texts => simp [gather, ih (pending ++ texts) h]

end

/-- All that was read for a match: what stays unread and the names of its entries. -/
def content {α : Type} (m : Fixture α) : List Text := m.unknown ++ m.entries.map (·.name)

variable {α : Type} [Scalar α]

theorem teams_list (segments : List Segment) :
    (list (α := α) segments).flatMap teams = Segment.teams segments := by
  have same := map_gather (f := teams (α := α)) (fun _ _ => rfl) [] (pieces segments)
  rw [list, List.flatMap_def, same, ← List.flatMap_def, teams_pieces]

theorem teams_ne_nil {segments : List Segment} {m : Fixture α} (hm : m ∈ list segments) :
    m.teams ≠ [] := by
  have same := map_gather (f := teams (α := α)) (fun _ _ => rfl) [] (pieces segments)
  have made : m.teams ∈ (fixtures (pieces (α := α) segments)).map teams := by
    rw [← same]
    exact List.mem_map_of_mem hm
  obtain ⟨m', hm', he⟩ := List.mem_map.mp made
  rw [← he]
  exact teams_ne_nil_pieces segments m' hm'

theorem entries_list {segments : List Segment} (apart : Segment.GapsApart segments) :
    (list (α := α) segments).flatMap entries ++ waiting .nothing segments =
      (Segment.gaps segments).flatMap fun g => (GapReading.ofText g).entries := by
  have same := map_gather (f := entries (α := α)) (fun _ _ => rfl) [] (pieces segments)
  rw [list, List.flatMap_def, same, ← List.flatMap_def, (pieces_conserve apart).1]

theorem unknown_list {segments : List Segment} (apart : Segment.GapsApart segments)
    (h : Segment.teams segments ≠ []) : (list (α := α) segments).flatMap unknown =
      (Segment.gaps segments).flatMap (fun g => (GapReading.ofText (α := α) g).unknown) ++
        (waiting (α := α) .nothing segments).map (·.name) := by
  have some_match : fixtures (pieces (α := α) segments) ≠ [] := by
    intro none
    rw [← teams_pieces (α := α), none] at h
    exact h rfl
  rw [list, unknown_gather [] some_match, (pieces_conserve apart).2, List.nil_append]

theorem content_list_perm {segments : List Segment} (apart : Segment.GapsApart segments)
    (h : Segment.teams segments ≠ []) : ((list (α := α) segments).flatMap content).Perm
      ((Segment.gaps segments).flatMap fun g => (GapReading.ofText (α := α) g).content) := by
  let left : List Text :=
    (Segment.gaps segments).flatMap fun g => (GapReading.ofText (α := α) g).unknown
  let owned := (list (α := α) segments).flatMap entries
  let rest : List (Semantic α) := waiting .nothing segments
  have swap : ((left ++ rest.map (·.name)) ++ owned.map (·.name)).Perm
      (left ++ (owned ++ rest).map (·.name)) := by
    rw [List.append_assoc, List.map_append]
    exact List.perm_append_comm.append_left left
  calc (list (α := α) segments).flatMap content
    List.Perm _ ((list (α := α) segments).flatMap unknown ++
        (list (α := α) segments).flatMap fun m => m.entries.map (·.name)) :=
      (List.flatMap_append_perm _ _ _).symm
    _ = (left ++ rest.map (·.name)) ++ owned.map (·.name) := by
      rw [unknown_list apart h, ← List.map_flatMap]
    List.Perm _ (left ++ (owned ++ rest).map (·.name)) := swap
    _ = left ++ (Segment.gaps segments).flatMap
        fun g => (GapReading.ofText (α := α) g).entries.map (·.name) := by
      rw [entries_list apart, List.map_flatMap]
    List.Perm _ ((Segment.gaps segments).flatMap
        fun g => (GapReading.ofText (α := α) g).content) := List.flatMap_append_perm _ _ _

/-- The matches of a text use its teams in order and each once, no match is without a team, and
whatever the gaps say is in one of them, as an entry or as unread text. -/
theorem list_conserves (t : Text) (hits : List TeamSpan) (found : hits ≠ []) :
    (list (α := α) (Segment.list t hits)).flatMap teams = hits ∧
      (∀ m ∈ list (α := α) (Segment.list t hits), m.teams ≠ []) ∧
      ((list (α := α) (Segment.list t hits)).flatMap content).Perm
        ((Segment.gaps (Segment.list t hits)).flatMap
          fun g => (GapReading.ofText (α := α) g).content) := by
  have teams := Segment.teams_list t hits
  refine ⟨(teams_list _).trans teams, fun m hm => teams_ne_nil hm, ?_⟩
  exact content_list_perm (Segment.gapsApart_list t hits) (teams.symm ▸ found)

/-- A slip with a headline, two teams side by side, a remark on them and one more team. -/
def headlineSlip : Text := "头条 阿森纳 切尔西 角球 曼联胜".toList

def headlineTeams : List TeamSpan := [
  ⟨"arsenal".toList, "阿森纳".toList, "阿森纳".toList, 3, 6⟩,
  ⟨"chelsea".toList, "切尔西".toList, "切尔西".toList, 7, 10⟩,
  ⟨"manutd".toList, "曼联".toList, "曼联".toList, 14, 16⟩]

theorem list_conserves_headlineSlip : headlineTeams ≠ [] ∧
    (list (α := ℚ) (Segment.list headlineSlip headlineTeams)).flatMap teams = headlineTeams ∧
    (∀ m ∈ list (α := ℚ) (Segment.list headlineSlip headlineTeams), m.teams ≠ []) ∧
    ((list (α := ℚ) (Segment.list headlineSlip headlineTeams)).flatMap content).Perm
      ((Segment.gaps (Segment.list headlineSlip headlineTeams)).flatMap
        fun g => (GapReading.ofText (α := ℚ) g).content) ∧
    (list (α := ℚ) (Segment.list headlineSlip headlineTeams)).map content =
      [["头条".toList, "角球".toList], ["胜".toList]] := by
  have found : headlineTeams ≠ [] := List.cons_ne_nil _ _
  obtain ⟨teams, owned, kept⟩ := list_conserves (α := ℚ) headlineSlip headlineTeams found
  exact ⟨found, teams, owned, kept, by decide⟩

end Wager.Fixture
