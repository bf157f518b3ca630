import Wager.Proofs.Slip.Segments
import Wager.Proofs.Text.Trim

/-!
# Segments as spans

The segments of a text cut it without loss: their spans follow one another, every segment has the
text of its span, and only blanks lie outside.
-/

namespace Wager

open Text

/-- Team names found in a text: in order and apart from each other, none of them empty, all of them
inside the text. -/
structure TeamSpan.InOrder (t : Text) (hits : List TeamSpan) : Prop where
  ordered : hits.Pairwise fun a b => a.stop ≤ b.start
  nonempty : ∀ h ∈ hits, h.start < h.stop
  inside : ∀ h ∈ hits, h.stop ≤ t.length

namespace Segment

def start : Segment → Nat
  | .team _ hit => hit.start
  | .gap _ start _ => start

def stop : Segment → Nat
  | .team _ hit => hit.stop
  | .gap _ _ stop => stop

def ofHit (t : Text) (hit : TeamSpan) : Segment := .team (t.extract hit.start hit.stop) hit

/-- A team has the text of its span; a gap has that text without the blanks around it, and there is
something left. -/
def IsSpelled (t : Text) : Segment → Prop
  | .team text hit => text = t.extract hit.start hit.stop
  | .gap text start stop => text = trim (t.extract start stop) ∧ text ≠ []

/-- Some segments are all there is in a stretch of a text, from `low` up to but not including
`high`: their spans lie in it one after another, each with the text of its span, and the characters
between them are blank. -/
structure Tiles (t : Text) (low high : Nat) (segments : List Segment) : Prop where
  inside : ∀ s ∈ segments, low ≤ s.start ∧ s.start < s.stop ∧ s.stop ≤ high
  ordered : segments.Pairwise fun a b => a.stop ≤ b.start
  spelled : ∀ s ∈ segments, s.IsSpelled t
  blank : ∀ i, low ≤ i → i < high → (∀ s ∈ segments, i < s.start ∨ s.stop ≤ i) →
    ∀ c, t[i]? = some c → isBlank c = true

section

variable {t : Text}

theorem Tiles.append {low middle high : Nat} {front back : List Segment}
    (hf : Tiles t low middle front) (hb : Tiles t middle high back) (before : low ≤ middle)
    (behind : middle ≤ high) : Tiles t low high (front ++ back) where
  inside := by
    intro s hs
    rcases List.mem_append.mp hs with hs | hs
    · obtain ⟨from_low, nonempty, to_middle⟩ := hf.inside s hs
      exact ⟨from_low, nonempty, to_middle.trans behind⟩
    · obtain ⟨from_middle, nonempty, to_high⟩ := hb.inside s hs
      exact ⟨before.trans from_middle, nonempty, to_high⟩
  ordered := by
    refine List.pairwise_append.mpr ⟨hf.ordered, hb.ordered, fun a ha b hb' => ?_⟩
    exact (hf.inside a ha).2.2.trans (hb.inside b hb').1
  spelled := by
    intro s hs
    rcases List.mem_append.mp hs with hs | hs
    · exact hf.spelled s hs
    · exact hb.spelled s hs
  blank := by
    intro i from_low to_high outside
    rcases Nat.lt_or_ge i middle with left | right
    · exact hf.blank i from_low left fun s hs => outside s (List.mem_append_left _ hs)
    · exact hb.blank i right to_high fun s hs => outside s (List.mem_append_right _ hs)

theorem tiles_nil {low high : Nat} (blank : ∀ c ∈ t.extract low high, isBlank c = true) :
    Tiles t low high [] where
  inside := by simp
  ordered := List.Pairwise.nil
  spelled := by simp
  blank := by
    intro i from_low to_high _ c here
    apply blank c
    apply List.mem_of_getElem? (i := i - low)
    rw [List.getElem?_take_of_lt (by omega), List.getElem?_drop, Nat.add_sub_cancel' from_low, here]

theorem tiles_singleton {s : Segment} (nonempty : s.start < s.stop) (spelled : s.IsSpelled t) :
    Tiles t s.start s.stop [s] where
  inside := by
    intro x hx
    rw [List.mem_singleton.mp hx]
    exact ⟨le_rfl, nonempty, le_rfl⟩
  ordered := List.pairwise_singleton _ _
  spelled := by
    intro x hx
    rwa [List.mem_singleton.mp hx]
  blank := by
    intro i from_start to_stop outside
    rcases outside s (List.mem_singleton_self s) with before | behind
    · exact absurd from_start (not_le.mpr before)
    · exact absurd to_stop (not_lt.mpr behind)

theorem tiles_ofStretch {low high : Nat} (ordered : low ≤ high) (within : high ≤ t.length) :
    Tiles t low high (ofStretch low (t.extract low high)) := by
  have width : low + (t.extract low high).length = high := by
    rw [List.length_take, List.length_drop]
    omega
  unfold ofStretch
  dsimp only
  split
  next bare => exact tiles_nil (trim_eq_nil_iff.mp (List.isEmpty_iff.mp bare))
  next written =>
    have some_left : trim (t.extract low high) ≠ [] := fun none => written (by rw [none]; rfl)
    have nonempty : low < high := by
      apply ordered.lt_of_ne
      rintro rfl
      rw [List.extract_eq_take_drop, Nat.sub_self, List.take_zero] at some_left
      exact some_left rfl
    rw [width]
    exact tiles_singleton (s := .gap _ low high) nonempty ⟨rfl, some_left⟩

theorem listFrom_drop_cons {pos : Nat} {hit : TeamSpan} (behind : pos ≤ hit.start)
    (nonempty : hit.start ≤ hit.stop) (hits : List TeamSpan) :
    listFrom pos (t.drop pos) (hit :: hits) = ofStretch pos (t.extract pos hit.start) ++
      ([ofHit t hit] ++ listFrom hit.stop (t.drop hit.stop) hits) := by
  rw [listFrom, List.drop_drop, List.drop_drop, Nat.add_sub_cancel' behind,
    Nat.add_sub_cancel' nonempty]
  rfl

/-- The segments from a position on, by induction on the teams that are left: the stretch in front
of the next team, the team, and what is left behind it. -/
theorem tiles_listFrom {pos : Nat} {hits : List TeamSpan} (found : TeamSpan.InOrder t hits)
    (behind : ∀ h ∈ hits, pos ≤ h.start) (within : pos ≤ t.length) :
    Tiles t pos t.length (listFrom pos (t.drop pos) hits) := by
  induction hits generalizing pos with
  | nil =>
    have whole : t.drop pos = t.extract pos t.length := by
      rw [List.extract_eq_take_drop, List.take_of_length_le List.length_drop.le]
    rw [listFrom, whole]
    exact tiles_ofStretch within le_rfl
  | cons hit hits ih =>
    have from_pos := behind hit List.mem_cons_self
    have nonempty := found.nonempty hit List.mem_cons_self
    have to_end := found.inside hit List.mem_cons_self
    obtain ⟨later, ordered⟩ := List.pairwise_cons.mp found.ordered
    have rest : TeamSpan.InOrder t hits :=
      ⟨ordered, fun h hh => found.nonempty h (List.mem_cons_of_mem _ hh),
        fun h hh => found.inside h (List.mem_cons_of_mem _ hh)⟩
    rw [listFrom_drop_cons from_pos nonempty.le]
    exact (tiles_ofStretch from_pos (nonempty.le.trans to_end)).append
      ((tiles_singleton (s := ofHit t hit) nonempty rfl).append (ih rest later to_end)
        nonempty.le to_end)
      from_pos (nonempty.le.trans to_end)

theorem filter_isTeam {segments : List Segment} (spelled : ∀ s ∈ segments, s.IsSpelled t) :
    segments.filter isTeam = (teams segments).map (ofHit t) := by
  induction segments with
  | nil => rfl
  | cons s rest ih =>
    have others := ih fun x hx => spelled x (List.mem_cons_of_mem s hx)
    cases s with
    | team text hit =>
      have written : text = t.extract hit.start hit.stop := spelled _ List.mem_cons_self
      rw [List.filter_cons_of_pos rfl, teams, List.map_cons, ← others, ofHit, written]
    | gap text start stop => rw [List.filter_cons_of_neg Bool.false_ne_true, teams, others]

end

/-- The segments of a text with its team names cut it without loss: they are all there is in it, the
teams among them are the team names in order, and between two gaps there is a team. -/
theorem list_tiles {t : Text} {hits : List TeamSpan} (found : TeamSpan.InOrder t hits) :
    Tiles t 0 t.length (list t hits) ∧ (list t hits).filter isTeam = hits.map (ofHit t) ∧
      GapsApart (list t hits) := by
  have tiles : Tiles t 0 t.length (list t hits) :=
    tiles_listFrom found (fun h _ => Nat.zero_le h.start) (Nat.zero_le t.length)
  refine ⟨tiles, ?_, gapsApart_list t hits⟩
  rw [filter_isTeam tiles.spelled, teams_list]

/-- Blanks at both ends and between two teams, two teams that touch, and a gap at the end. -/
def touchingSlip : Text := " 阿森纳 切尔西曼联 胜 ".toList

def touchingTeams : List TeamSpan := [
  ⟨"arsenal".toList, "阿森纳".toList, "阿森纳".toList, 1, 4⟩,
  ⟨"chelsea".toList, "切尔西".toList, "切尔西".toList, 5, 8⟩,
  ⟨"manutd".toList, "曼联".toList, "曼联".toList, 8, 10⟩]

theorem list_tiles_touchingSlip : TeamSpan.InOrder touchingSlip touchingTeams ∧
    Tiles touchingSlip 0 13 (list touchingSlip touchingTeams) ∧
    (list touchingSlip touchingTeams).filter isTeam = touchingTeams.map (ofHit touchingSlip) ∧
    GapsApart (list touchingSlip touchingTeams) ∧
    list touchingSlip touchingTeams =
      touchingTeams.map (ofHit touchingSlip) ++ [.gap "胜".toList 10 13] := by
  have found : TeamSpan.InOrder touchingSlip touchingTeams := ⟨by decide, by decide, by decide⟩
  obtain ⟨tiles, teams, apart⟩ := list_tiles found
  exact ⟨found, tiles, teams, apart, by decide⟩

end Segment

end Wager
