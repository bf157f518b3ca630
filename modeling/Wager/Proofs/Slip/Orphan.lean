import Wager.Proofs.Slip.Matches

/-!
# Entries without a team

Entries that were read from a gap belong to a match, with one exception: behind the last team of a
text, a gap may come too late.  Then the team has its match already, with the team in front of it or
with entries in front of it, and the names of the late entries are reported as unread.
-/

namespace Wager

variable {α : Type} [Scalar α]

theorem Expecting.gap?_next {state : Expecting} {s : Segment} {g : Text}
    (h : (state.next α s).gap? = some g) : ∃ i j, s = .gap g i j := by
  cases s with
  | team t hit => cases state <;> cases h
  | gap text i j =>
    refine ⟨i, j, ?_⟩
    cases state with
    | trailer => cases h
    | team =>
      simp only [next] at h
      split at h <;> cases h
    | nothing | opponent | owner _ =>
      simp only [next] at h
      split at h
      · cases h
        rfl
      · cases h

namespace Segment

theorem orphan?_concat (segments : List Segment) (s : Segment) : orphan? α (segments ++ [s]) =
    ((segments.foldl (Expecting.next α) .nothing).next α s).gap? := by
  rw [orphan?, List.foldl_append, List.foldl_cons, List.foldl_nil]

theorem getLast?_of_orphan? {segments : List Segment} {g : Text}
    (h : orphan? α segments = some g) : ∃ i j, segments.getLast? = some (.gap g i j) := by
  rcases List.eq_nil_or_concat segments with rfl | ⟨front, s, rfl⟩
  · simp [orphan?, Expecting.gap?] at h
  · rw [List.concat_eq_append, orphan?_concat] at h
    obtain ⟨i, j, rfl⟩ := Expecting.gap?_next h
    refine ⟨i, j, ?_⟩
    rw [List.concat_eq_append, List.getLast?_concat]

end Segment

namespace Fixture

theorem mem_unknown_list {segments : List Segment} (apart : Segment.GapsApart segments)
    {m : Fixture α} (hm : m ∈ list segments) {word : Text} (hw : word ∈ m.unknown) :
    (∃ g ∈ Segment.gaps segments, word ∈ (GapReading.ofText (α := α) g).unknown) ∨
      ∃ s ∈ waiting (α := α) .nothing segments, s.name = word := by
  have found : Segment.teams segments ≠ [] := by
    rw [← teams_list (α := α)]
    intro none
    exact teams_ne_nil hm (List.flatMap_eq_nil_iff.mp none m hm)
  have all : word ∈ (list (α := α) segments).flatMap unknown :=
    List.mem_flatMap.mpr ⟨m, hm, hw⟩
  rw [unknown_list apart found, List.mem_append, List.mem_flatMap, List.mem_map] at all
  exact all

/-- What a match has as unread text is no entry of any market, except for the names of entries that
came too late; and the entries of all other gaps are those of the matches. -/
theorem unknown_unreadable (t : Text) (hits : List TeamSpan) :
    (∀ m ∈ list (α := α) (Segment.list t hits), ∀ word ∈ m.unknown,
      (Semantic.ofText (α := α) word).market = .other ∨
        ∃ g, Segment.orphan? α (Segment.list t hits) = some g ∧
          ∃ s ∈ (GapReading.ofText (α := α) g).entries, s.name = word) ∧
    (list (α := α) (Segment.list t hits)).flatMap entries ++
        (Segment.orphan? α (Segment.list t hits)).toList.flatMap
          (fun g => (GapReading.ofText g).entries) =
      (Segment.gaps (Segment.list t hits)).flatMap (fun g => (GapReading.ofText g).entries) ∧
    ∀ g, Segment.orphan? α (Segment.list t hits) = some g →
      ∃ i j, (Segment.list t hits).getLast? = some (.gap g i j) := by
  have apart := Segment.gapsApart_list t hits
  refine ⟨?_, entries_list apart, fun g h => Segment.getLast?_of_orphan? h⟩
  intro m hm word hw
  rcases mem_unknown_list apart hm hw with ⟨g, _, hg⟩ | ⟨s, hs, hn⟩
  · exact .inl (GapReading.leavesUnreadable_ofText g word hg)
  · obtain ⟨g, hg, hs⟩ := List.mem_flatMap.mp hs
    exact .inr ⟨g, Option.mem_toList.mp hg, s, hs, hn⟩

def flankedSlip : Text := "胜 阿森纳 平".toList

def flankedTeam : List TeamSpan :=
  [⟨"arsenal".toList, "阿森纳".toList, "阿森纳".toList, 2, 5⟩]

theorem unknown_unreadable_flankedSlip :
    (∃ m ∈ list (α := ℚ) (Segment.list flankedSlip flankedTeam), "平".toList ∈ m.unknown ∧
      ((Semantic.ofText (α := ℚ) "平".toList).market = .other ∨
        ∃ g, Segment.orphan? ℚ (Segment.list flankedSlip flankedTeam) = some g ∧
          ∃ s ∈ (GapReading.ofText (α := ℚ) g).entries, s.name = "平".toList)) ∧
    Segment.orphan? ℚ (Segment.list flankedSlip flankedTeam) = some "平".toList ∧
    ∃ i j, (Segment.list flankedSlip flankedTeam).getLast? = some (.gap "平".toList i j) := by
  obtain ⟨read, -, last⟩ := unknown_unreadable (α := ℚ) flankedSlip flankedTeam
  have reported : (∃ m ∈ list (α := ℚ) (Segment.list flankedSlip flankedTeam),
      "平".toList ∈ m.unknown) ∧
        Segment.orphan? ℚ (Segment.list flankedSlip flankedTeam) = some "平".toList := by
    decide
  obtain ⟨⟨m, hm, hw⟩, late⟩ := reported
  exact ⟨⟨m, hm, hw, read m hm _ hw⟩, late, last _ late⟩

/-- The entry behind the team is a result, is no entry of the match, and is reported as unread. -/
theorem exists_readable_unknown :
    (∃ m ∈ list (α := ℚ) (Segment.list flankedSlip flankedTeam), ∃ word ∈ m.unknown,
      (Semantic.ofText (α := ℚ) word).market ≠ .other) ∧
    (list (α := ℚ) (Segment.list flankedSlip flankedTeam)).flatMap entries ≠
      (Segment.gaps (Segment.list flankedSlip flankedTeam)).flatMap
        fun g => (GapReading.ofText g).entries := by
  decide

end Fixture

end Wager
