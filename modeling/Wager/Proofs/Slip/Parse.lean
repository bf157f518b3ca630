import Wager.Proofs.Slip.Drafts

/-!
# What a parse accounts for

A slip without content or without a team makes no draft and earns no trust.  Any other slip makes
one draft for each match that its text falls into, and the drafts, the diagnostics and the trust
account for all of these matches.
-/

namespace Wager

section

variable {α : Type} {drafts : List (Draft α)}

/-- Where every draft has a team, the rest of the trust is for entries, opponents and silence. -/
theorem trust_of_teams (levels : List Level) (nonempty : drafts ≠ [])
    (team : ∀ d ∈ drafts, d.hasTeam = true) :
    55 ≤ trust drafts levels ∧ (trust drafts levels = 100 ↔
      (∀ d ∈ drafts, d.hasBothTeams = true ∧ d.hasNamedEntry = true) ∧ .warning ∉ levels) := by
  have named : drafts.all (·.hasTeam) = true := List.all_eq_true.mpr team
  have some_draft : drafts.isEmpty = false := by simpa using nonempty
  have value : trust drafts levels = 55 + (if drafts.all (·.hasNamedEntry) then 20 else 0) +
      (if drafts.all (·.hasBothTeams) then 15 else 0) +
      (if levels.contains .warning then 0 else 10) := by
    simp [trust, named, some_draft]
  have full : (drafts.all (·.hasNamedEntry) = true ∧ drafts.all (·.hasBothTeams) = true ∧
      levels.contains .warning = false) ↔
      (∀ d ∈ drafts, d.hasBothTeams = true ∧ d.hasNamedEntry = true) ∧ .warning ∉ levels := by
    simp only [List.all_eq_true, List.contains_eq_mem, decide_eq_false_iff_not]
    exact ⟨fun ⟨entry, both, calm⟩ => ⟨fun d hd => ⟨both d hd, entry d hd⟩, calm⟩,
      fun ⟨all, calm⟩ => ⟨fun d hd => (all d hd).2, fun d hd => (all d hd).1, calm⟩⟩
  rw [value, ← full]
  refine ⟨by omega, ?_⟩
  cases drafts.all (·.hasNamedEntry) <;> cases drafts.all (·.hasBothTeams) <;>
    cases levels.contains .warning <;> simp

end

namespace Parse

variable {α : Type}

/-- A parse that accounts for the matches found between some team names: its drafts have the teams
in order, each diagnostic belongs to a draft or to the whole slip and none is an error, every unread
word of a match has its warning, and full trust takes both teams, an entry and no warning. -/
structure Accounts (p : Parse α) (hits : List TeamSpan) (found : List (Fixture α)) : Prop where
  length_eq : p.drafts.length = found.length
  teams_eq : p.drafts.flatMap Draft.teams = hits.map TeamSpan.mention
  hasTeam : ∀ d ∈ p.drafts, d.hasTeam = true
  no_error : ∀ d ∈ p.diagnostics, d.level ≠ .error
  index_lt : ∀ d ∈ p.diagnostics, ∀ i, d.index? = some i → i < p.drafts.length
  warnings : ∀ i m, found[i]? = some m →
    p.diagnostics.countP (Diagnostic.warnsAbout i) = m.unknown.length
  trust_ge : 55 ≤ p.trust
  trust_eq : p.trust = 100 ↔ (∀ d ∈ p.drafts, d.hasBothTeams = true ∧ d.hasNamedEntry = true) ∧
    ∀ d ∈ p.diagnostics, d.level ≠ .warning

section

variable (config : Config α) (e : Extraction α) (found : List (Fixture α))

theorem drafts_ofMatches : (ofMatches config e found).drafts =
    List.zipWith (Draft.ofMatch config e.params.remark) found
      (Assignment.ofParameters e.params found.length).games :=
  drafts_draftsOf _ _ _ _

theorem length_drafts_ofMatches : (ofMatches config e found).drafts.length = found.length := by
  rw [drafts_ofMatches, List.length_zipWith, Assignment.length_games_ofParameters, min_self]

theorem teams_ofMatches : (ofMatches config e found).drafts.flatMap Draft.teams =
    (found.flatMap Fixture.teams).map TeamSpan.mention :=
  teams_draftsOf (Assignment.length_games_ofParameters _ _)

theorem mem_drafts_ofMatches {d : Draft α} (hd : d ∈ (ofMatches config e found).drafts) :
    ∃ m ∈ found, ∃ p ∈ (Assignment.ofParameters e.params found.length).games,
      d = Draft.ofMatch config e.params.remark m p := by
  rw [drafts_ofMatches, ← List.map_uncurry_zip_eq_zipWith] at hd
  obtain ⟨⟨m, p⟩, member, rfl⟩ := List.mem_map.mp hd
  exact ⟨m, (List.of_mem_zip member).1, p, (List.of_mem_zip member).2, rfl⟩

theorem mem_diagnostics_ofMatches {d : Diagnostic}
    (hd : d ∈ (ofMatches config e found).diagnostics) :
    (∃ remark, d = .confidence remark) ∨ (∃ note, d = .mismatch note) ∨
      ∃ i < found.length, ∃ m ∈ found, ∃ p,
        d ∈ Diagnostic.ofDraft i (Draft.ofMatch config e.params.remark m p) m.unknown := by
  simp only [ofMatches, List.mem_append, List.mem_map] at hd
  rcases hd with (⟨remark, -, rfl⟩ | ⟨note, -, rfl⟩) | hd
  · exact .inl ⟨remark, rfl⟩
  · exact .inr (.inl ⟨note, rfl⟩)
  · obtain ⟨i, bound, m, hm, p, hd⟩ := mem_diagnostics_draftsOf hd
    have inside : i < found.length := by simpa using bound
    exact .inr (.inr ⟨i, inside, m, hm, p, hd⟩)

theorem warnings_ofMatches (i : Nat) :
    (ofMatches config e found).diagnostics.countP (Diagnostic.warnsAbout i) =
      ((found[i]?).map fun m => m.unknown.length).getD 0 := by
  have remarks : (e.remarks.map Diagnostic.confidence).countP (Diagnostic.warnsAbout i) = 0 := by
    simp [List.countP_map, Function.comp_def, Diagnostic.warnsAbout, Diagnostic.index?]
  have notes : ((Assignment.ofParameters e.params found.length).notes.map
      Diagnostic.mismatch).countP (Diagnostic.warnsAbout i) = 0 := by
    simp [List.countP_map, Function.comp_def, Diagnostic.warnsAbout, Diagnostic.index?]
  simp only [ofMatches, List.countP_append, remarks, notes, Nat.zero_add]
  exact countP_draftsOf (Assignment.length_games_ofParameters _ _) i

theorem accounts_ofMatches {hits : List TeamSpan} (used : found.flatMap Fixture.teams = hits)
    (team : ∀ m ∈ found, m.teams ≠ []) (nonempty : found ≠ []) :
    (ofMatches config e found).Accounts hits found := by
  have filled : (ofMatches config e found).drafts ≠ [] := by
    rw [← List.length_pos_iff, length_drafts_ofMatches]
    exact List.length_pos_of_ne_nil nonempty
  have named (m : Fixture α) (hm : m ∈ found) (p : FixtureValues α) :
      (Draft.ofMatch config e.params.remark m p).hasTeam = true := by
    rw [Draft.hasTeam_iff, Draft.teams_ofMatch]
    simpa using team m hm
  have all_named : ∀ d ∈ (ofMatches config e found).drafts, d.hasTeam = true := by
    intro d hd
    obtain ⟨m, hm, p, -, rfl⟩ := mem_drafts_ofMatches config e found hd
    exact named m hm p
  have trusted :=
    trust_of_teams ((ofMatches config e found).diagnostics.map (·.level)) filled all_named
  refine ⟨length_drafts_ofMatches config e found, by rw [teams_ofMatches, used], all_named,
    ?_, ?_, ?_, trusted.1, ?_⟩
  · intro d hd
    rcases mem_diagnostics_ofMatches config e found hd with
      ⟨remark, rfl⟩ | ⟨note, rfl⟩ | ⟨i, -, m, hm, p, hd⟩
    · simp [Diagnostic.level]
    · simp [Diagnostic.level]
    · exact Diagnostic.level_ne_error_of_mem_ofDraft (named m hm p) hd
  · intro d hd i hi
    rw [length_drafts_ofMatches]
    rcases mem_diagnostics_ofMatches config e found hd with
      ⟨remark, rfl⟩ | ⟨note, rfl⟩ | ⟨j, inside, m, hm, p, hd⟩
    · cases hi
    · cases hi
    · rw [Diagnostic.index?_of_mem_ofDraft hd] at hi
      exact Option.some.inj hi ▸ inside
  · intro i m hm
    rw [warnings_ofMatches, hm]
    rfl
  · refine trusted.2.trans (and_congr_right fun _ => ?_)
    rw [List.mem_map]
    push Not
    rfl

end

variable [Scalar α]

theorem teams_found (t : Text) (hits : List TeamSpan) :
    (Fixture.list (α := α) (Segment.list t hits)).flatMap Fixture.teams = hits :=
  (Fixture.teams_list _).trans (Segment.teams_list t hits)

variable [SimilarNames]

theorem ofText_of_found {t : Text} {dictionary : List TeamAlias} {hits : List TeamSpan}
    (content : isEmptySlip t = false) (found : Scan.teamNames
      (Extraction.ofText (Text.normalize t) : Extraction α).residual dictionary = hits)
    (some_team : hits ≠ []) (directory : List (Team α)) (config : Config α) :
    ofText t dictionary directory config = ofMatches config (Extraction.ofText (Text.normalize t))
      (Fixture.list (Segment.list
        (Extraction.ofText (Text.normalize t) : Extraction α).residual hits)) := by
  subst found
  rw [ofText, content, if_neg Bool.false_ne_true, ofContent]
  exact if_neg (by simpa using some_team)

theorem drafts_ofText_of_not_found {t : Text} {dictionary : List TeamAlias}
    (nothing : isEmptySlip t = true ∨ Scan.teamNames
      (Extraction.ofText (Text.normalize t) : Extraction α).residual dictionary = [])
    (directory : List (Team α)) (config : Config α) :
    (ofText t dictionary directory config).drafts = [] ∧
      (ofText t dictionary directory config).trust = 0 := by
  cases blank : isEmptySlip t with
  | true =>
    rw [ofText, blank, if_pos rfl]
    exact ⟨rfl, rfl⟩
  | false =>
    have none := nothing.resolve_left (by simp [blank])
    rw [ofText, blank, if_neg Bool.false_ne_true, ofContent, none]
    exact ⟨rfl, rfl⟩

/-- Every draft of a slip is made of a match found in it and of values it states. -/
theorem mem_drafts_ofText {t : Text} {dictionary : List TeamAlias} {directory : List (Team α)}
    {config : Config α} {d : Draft α} (hd : d ∈ (ofText t dictionary directory config).drafts) :
    let e : Extraction α := Extraction.ofText (Text.normalize t)
    ∃ m ∈ Fixture.list (Segment.list e.residual (Scan.teamNames e.residual dictionary)), ∃ games,
      ∃ p ∈ (Assignment.ofParameters e.params games).games,
        d = Draft.ofMatch config e.params.remark m p := by
  intro e
  by_cases nothing : isEmptySlip t = true ∨ Scan.teamNames e.residual dictionary = []
  · rw [(drafts_ofText_of_not_found nothing directory config).1] at hd
    cases hd
  · obtain ⟨content, some_team⟩ := not_or.mp nothing
    rw [ofText_of_found (Bool.eq_false_iff.mpr content) rfl some_team] at hd
    obtain ⟨m, hm, p, hp, rfl⟩ := mem_drafts_ofMatches config e _ hd
    exact ⟨m, hm, _, p, hp, rfl⟩

/-- Either a slip says nothing or names no team, and there is no draft and no trust; or the drafts
are the matches that its residual text falls into, and all of these are accounted for. -/
theorem ofText_accounts (t : Text) (dictionary : List TeamAlias) (directory : List (Team α))
    (config : Config α) :
    let residual := (Extraction.ofText (Text.normalize t) : Extraction α).residual
    let hits := Scan.teamNames residual dictionary
    let p := ofText t dictionary directory config
    (isEmptySlip t = true ∨ hits = []) ∧ p.drafts = [] ∧ p.trust = 0 ∨
      ¬(isEmptySlip t = true ∨ hits = []) ∧ p.drafts ≠ [] ∧
        p.Accounts hits (Fixture.list (Segment.list residual hits)) := by
  intro residual hits p
  by_cases nothing : isEmptySlip t = true ∨ hits = []
  · exact .inl ⟨nothing, drafts_ofText_of_not_found nothing directory config⟩
  · right
    obtain ⟨content, some_team⟩ := not_or.mp nothing
    have parsed : p = ofMatches config (Extraction.ofText (Text.normalize t))
        (Fixture.list (Segment.list residual hits)) :=
      ofText_of_found (Bool.eq_false_iff.mpr content) rfl some_team directory config
    have used := teams_found (α := α) residual hits
    have nonempty : Fixture.list (α := α) (Segment.list residual hits) ≠ [] := by
      intro empty
      rw [empty] at used
      exact some_team used.symm
    have accounts := accounts_ofMatches config (Extraction.ofText (Text.normalize t)) _ used
      (fun m hm => Fixture.teams_ne_nil hm) nonempty
    rw [parsed]
    refine ⟨nothing, ?_, accounts⟩
    rw [← List.length_pos_iff, accounts.length_eq]
    exact List.length_pos_of_ne_nil nonempty

end Parse

end Wager
