import Wager.Proofs.Slip.Matches
import Wager.Slip.Parse

/-!
# Drafts of matches

Every match becomes one draft with the same teams.  The diagnostics about it carry its position, and
the warnings among them are the words of the match that stayed unread.
-/

namespace Wager

section

variable {β γ : Type}

/-- Among the parts that a list makes with the position of each member, those of position `i` count
as much as the member there says. -/
theorem countP_flatMap_zipIdx {q : γ → Bool} {f : β × Nat → List γ} {size : β → Nat} {i : Nat}
    (counted : ∀ b j, (f (b, j)).countP q = if i = j then size b else 0) (l : List β) (k : Nat) :
    ((l.zipIdx k).flatMap f).countP q =
      if k ≤ i then ((l[i - k]?).map size).getD 0 else 0 := by
  induction l generalizing k with
  | nil => simp
  | cons b l ih =>
    rw [List.zipIdx_cons, List.flatMap_cons, List.countP_append, counted, ih]
    rcases Nat.lt_trichotomy k i with before | rfl | behind
    · have shift : i - k = (i - (k + 1)) + 1 := by omega
      rw [if_neg (by omega), if_pos (by omega), if_pos (by omega), shift, List.getElem?_cons_succ,
        Nat.zero_add]
    · simp
    · rw [if_neg (by omega), if_neg (by omega), if_neg (by omega)]

end

variable {α : Type}

namespace Draft

def teams (d : Draft α) : List TeamMention := d.home.toList ++ d.away.toList

theorem hasTeam_iff (d : Draft α) : d.hasTeam = true ↔ d.teams ≠ [] := by
  unfold hasTeam teams
  cases d.home <;> cases d.away <;> simp

@[simp] theorem teams_ofMatch (config : Config α) (note : Text) (m : Fixture α)
    (p : FixtureValues α) : (ofMatch config note m p).teams = m.teams.map TeamSpan.mention := by
  simp [teams, ofMatch, Fixture.teams, Option.toList_map]

end Draft

namespace Diagnostic

/-- Whether a diagnostic is a warning about the match at a position. -/
def warnsAbout (index : Nat) (d : Diagnostic) : Bool :=
  d.level == .warning && d.index? == some index

theorem mem_ofDraft {index : Nat} {draft : Draft α} {unknown : List Text} {d : Diagnostic}
    (hd : d ∈ ofDraft index draft unknown) :
    (∃ word ∈ unknown, d = .unread index word) ∨ (draft.hasTeam = false ∧ d = .teamless index) ∨
      d = .oneTeam index draft.someTeam ∨ d = .entryless index ∨ d = .unpriced index := by
  simp only [ofDraft, List.mem_append, List.mem_map] at hd
  rcases hd with ((⟨word, hw, rfl⟩ | team) | entry) | price
  · exact .inl ⟨word, hw, rfl⟩
  · right
    cases named : draft.hasTeam with
    | false => exact .inl ⟨rfl, by simpa [named] using team⟩
    | true =>
      cases both : draft.hasBothTeams with
      | false => exact .inr (.inl (by simpa [named, both] using team))
      | true => simp [named, both] at team
  · cases named : draft.hasNamedEntry with
    | false => exact .inr (.inr (.inr (.inl (by simpa [named] using entry))))
    | true => simp [named] at entry
  · cases priced : draft.hasOdds with
    | false => exact .inr (.inr (.inr (.inr (by simpa [priced] using price))))
    | true => simp [priced] at price

theorem index?_of_mem_ofDraft {index : Nat} {draft : Draft α} {unknown : List Text}
    {d : Diagnostic} (hd : d ∈ ofDraft index draft unknown) : d.index? = some index := by
  rcases mem_ofDraft hd with ⟨word, -, rfl⟩ | ⟨-, rfl⟩ | rfl | rfl | rfl <;> rfl

theorem level_ne_error_of_mem_ofDraft {index : Nat} {draft : Draft α} {unknown : List Text}
    (team : draft.hasTeam = true) {d : Diagnostic} (hd : d ∈ ofDraft index draft unknown) :
    d.level ≠ .error := by
  rcases mem_ofDraft hd with ⟨word, -, rfl⟩ | ⟨none, rfl⟩ | rfl | rfl | rfl
  case inr.inl => simp [team] at none
  all_goals simp [level]

theorem countP_ofDraft (i j : Nat) (draft : Draft α) (unknown : List Text) :
    (ofDraft j draft unknown).countP (warnsAbout i) = if i = j then unknown.length else 0 := by
  have words : (unknown.map (unread j)).countP (warnsAbout i) =
      if i = j then unknown.length else 0 := by
    rw [List.countP_map]
    split
    next here => simp [Function.comp_def, warnsAbout, level, index?, here]
    next other => simp [Function.comp_def, warnsAbout, level, index?, Ne.symm other]
  have team : (if !draft.hasTeam then [teamless j]
      else if !draft.hasBothTeams then [oneTeam j draft.someTeam] else []).countP
        (warnsAbout i) = 0 := by
    split
    · rfl
    · split <;> rfl
  have entry : (if draft.hasNamedEntry then [] else [entryless j]).countP (warnsAbout i) = 0 := by
    split <;> rfl
  have price : (if draft.hasOdds then [] else [unpriced j]).countP (warnsAbout i) = 0 := by
    split <;> rfl
  rw [ofDraft, List.countP_append, List.countP_append, List.countP_append, words, team, entry,
    price]
  rfl

end Diagnostic

namespace Parse

variable {config : Config α} {note : Text} {found : List (Fixture α)}
  {assigned : List (FixtureValues α)}

theorem drafts_draftsOf (config : Config α) (note : Text) (found : List (Fixture α))
    (assigned : List (FixtureValues α)) : (draftsOf config note found assigned).map (·.1) =
      List.zipWith (Draft.ofMatch config note) found assigned := by
  rw [draftsOf, List.map_map, ← List.map_uncurry_zip_eq_zipWith]
  conv_rhs => rw [← List.zipIdx_map_fst 0 (found.zip assigned), List.map_map]
  rfl

theorem flatMap_draftsOf (config : Config α) (note : Text) (found : List (Fixture α))
    (assigned : List (FixtureValues α)) : (draftsOf config note found assigned).flatMap (·.2) =
      (found.zip assigned).zipIdx.flatMap fun x =>
        Diagnostic.ofDraft x.2 (Draft.ofMatch config note x.1.1 x.1.2) x.1.1.unknown := by
  rw [draftsOf, List.flatMap_map]

theorem teams_draftsOf (same : assigned.length = found.length) :
    ((draftsOf config note found assigned).map (·.1)).flatMap Draft.teams =
      (found.flatMap Fixture.teams).map TeamSpan.mention := by
  rw [drafts_draftsOf]
  induction found generalizing assigned with
  | nil => rfl
  | cons m found ih =>
    cases assigned with
    | nil => simp at same
    | cons p assigned => simp [ih (by simpa using same)]

theorem countP_draftsOf (same : assigned.length = found.length) (i : Nat) :
    ((draftsOf config note found assigned).flatMap (·.2)).countP (Diagnostic.warnsAbout i) =
      ((found[i]?).map fun m => m.unknown.length).getD 0 := by
  have counted := countP_flatMap_zipIdx (q := Diagnostic.warnsAbout i)
    (f := fun x => Diagnostic.ofDraft x.2 (Draft.ofMatch config note x.1.1 x.1.2) x.1.1.unknown)
    (fun (x : Fixture α × FixtureValues α) j => Diagnostic.countP_ofDraft i j _ x.1.unknown)
    (found.zip assigned) 0
  rw [flatMap_draftsOf, counted, if_pos i.zero_le, Nat.sub_zero]
  conv_rhs => rw [← List.map_fst_zip same.ge, List.getElem?_map, Option.map_map]
  rfl

theorem mem_diagnostics_draftsOf {d : Diagnostic}
    (hd : d ∈ (draftsOf config note found assigned).flatMap (·.2)) :
    ∃ i < (found.zip assigned).length, ∃ m ∈ found, ∃ p,
      d ∈ Diagnostic.ofDraft i (Draft.ofMatch config note m p) m.unknown := by
  rw [flatMap_draftsOf] at hd
  obtain ⟨⟨⟨m, p⟩, i⟩, hx, hd⟩ := List.mem_flatMap.mp hd
  obtain ⟨-, bound, at_i⟩ := List.mem_zipIdx hx
  have member : (m, p) ∈ found.zip assigned := at_i ▸ List.getElem_mem _
  exact ⟨i, by simpa using bound, m, (List.of_mem_zip member).1, p, hd⟩

end Parse

end Wager
