import Wager.Proofs.Scalar.Double
import Wager.Proofs.Slip.Parse
import Wager.Proofs.Slip.Values
import Wager.Proofs.Team.Library
import Wager.Proofs.Team.Scan
import Wager.Slip.Storage
import Wager.Defaults

/-!
# Which drafts can be stored

All that a slip states, and all that stands in for it, passes the checks of stored matches, and so
do the names of curated teams.  Only the remark and the names of entries are as long as they were
typed.
-/

namespace Wager

theorem getD_of_forall {β : Type} {q : β → Prop} {given : Option β} {standIn : β}
    (some_value : ∀ x ∈ given, q x) (default : q standIn) : q (given.getD standIn) := by
  cases given with
  | none => exact default
  | some x => exact some_value x rfl

theorem map_getD_of_forall {β γ : Type} {q : γ → Prop} {f : β → γ} {given : Option β} {standIn : γ}
    (value : ∀ x, q (f x)) (default : q standIn) : q ((given.map f).getD standIn) := by
  cases given with
  | none => exact default
  | some x => exact value x

namespace Draft

section

variable {α : Type} {entries : List (Semantic α)} {odds : List α}

theorem odds_of_mem_price {e : DraftPick α} (he : e ∈ (price entries odds).1) :
    ∀ x ∈ e.odds, x ∈ odds := by
  obtain ⟨⟨s, i⟩, -, rfl⟩ := List.mem_map.mp he
  exact fun x => List.mem_of_getElem?

theorem mem_of_mem_price {x : α} (hx : x ∈ (price entries odds).2) : x ∈ odds := by
  unfold price at hx
  split at hx
  · exact List.mem_of_mem_head? hx
  · cases hx

/-- Whether some entry has a name that is too long to be stored. -/
def hasLongName (d : Draft α) : Bool :=
  d.entries.any fun e => StoredEntry.nameLimit < e.name.length

end

variable {α : Type} [Scalar α]

/-- Whether everything but the length of remark and entry names can be stored. -/
structure InRange (d : Draft α) : Prop where
  homeTeam : d.homeTeam.length ≤ StoredMatch.teamLimit
  awayTeam : d.awayTeam.length ≤ StoredMatch.teamLimit
  entries : ∀ e ∈ d.entries, ∀ x ∈ e.odds, 1.0 < x
  odds : ∀ x ∈ d.fallbackOdds, 1.0 < x
  conf : Percent.InRange d.conf
  mode : Mode.IsLabel d.mode
  tysHome : Tys.IsCode d.tysHome
  tysAway : Tys.IsCode d.tysAway
  fid : d.fid ∈ Fid.rungs
  fseHome : Percent.InRange d.fseHome
  fseAway : Percent.InRange d.fseAway

/-- Whether the names of both teams are short enough to be stored. -/
def HasShortTeams (d : Draft α) : Prop :=
  d.homeTeam.length ≤ StoredMatch.teamLimit ∧ d.awayTeam.length ≤ StoredMatch.teamLimit

theorem inRange_ofMatch {config : Config α} {note : Text} {m : Fixture α} {p : FixtureValues α}
    (defaults : config.InRange) (assigned : p.InRange)
    (short : (ofMatch config note m p).HasShortTeams) : (ofMatch config note m p).InRange where
  homeTeam := short.1
  awayTeam := short.2
  entries := fun _ he x hx => assigned.odds x (odds_of_mem_price he x hx)
  odds := fun x hx => assigned.odds x (mem_of_mem_price hx)
  conf := getD_of_forall assigned.conf defaults.conf
  mode := map_getD_of_forall (fun m => ⟨m, rfl⟩) defaults.mode
  tysHome := map_getD_of_forall (fun g => ⟨g, rfl⟩) defaults.tys
  tysAway := map_getD_of_forall (fun g => ⟨g, rfl⟩) defaults.tys
  fid := getD_of_forall assigned.fid defaults.fid
  fseHome := getD_of_forall assigned.fseHome defaults.fse
  fseAway := getD_of_forall assigned.fseAway defaults.fse

def storedEntries (d : Draft α) : List (StoredEntry α) :=
  (d.entries.filter (!·.name.isEmpty)).map fun e => ⟨e.name, e.odds⟩

def stored (d : Draft α) : StoredMatch α where
  id := none
  homeTeam := d.homeTeam
  awayTeam := d.awayTeam
  entries := d.storedEntries
  odds := d.fallbackOdds
  conf := d.conf
  mode := (Mode.ofLabel? d.mode).getD .standard
  tysHome := (Tys.ofCode? d.tysHome).getD .medium
  tysAway := (Tys.ofCode? d.tysAway).getD .medium
  fid := (Fid.rungOf? d.fid).getD Fid.middle
  fseHome := d.fseHome
  fseAway := d.fseAway
  note := d.note

section

variable [Coercion α]

theorem checkedEntries_eq {d : Draft α} (priced : ∀ e ∈ d.entries, ∀ x ∈ e.odds, 1.0 < x) :
    d.checkedEntries = if d.hasLongName then
      .error [⟨["name".toList], .tooLong StoredEntry.nameLimit⟩] else .ok d.storedEntries := by
  -- An entry that is left out has no name, which is not too long.
  have same : d.hasLongName = (d.entries.filter (!·.name.isEmpty)).any
      fun e => StoredEntry.nameLimit < e.name.length := by
    rw [hasLongName, List.any_filter]
    congr 1
    funext e
    cases e.name <;> simp
  rw [checkedEntries, same]
  apply mapM_of_same_fault
  intro e he
  obtain ⟨member, named⟩ := List.mem_filter.mp he
  rw [StoredEntry.ofFields_fields (by simpa using named) (priced e member)]
  simp

theorem passes_fields {d : Draft α} (range : d.InRange)
    (onLadder : (Fid.rungOf? d.fid).isSome = true) : StoredMatch.Passes d.fields d.stored := by
  obtain ⟨m, mode⟩ := range.mode
  obtain ⟨home, tysHome⟩ := range.tysHome
  obtain ⟨away, tysAway⟩ := range.tysAway
  obtain ⟨rung, fid⟩ := Option.isSome_iff_exists.mp onLadder
  have label : Mode.ofLabel? d.mode = some m := by rw [mode, Mode.ofLabel?_label]
  constructor
  case id => rfl
  case homeTeam =>
    rw [Check.fieldOr_of_lookup rfl, StoredMatch.checkTeam_text range.homeTeam]
    rfl
  case awayTeam =>
    rw [Check.fieldOr_of_lookup rfl, StoredMatch.checkTeam_text range.awayTeam]
    rfl
  case odds =>
    rw [Check.fieldOr_of_lookup rfl, Check.optional_odds range.odds]
    rfl
  case conf =>
    rw [Check.fieldOr_of_lookup rfl, StoredMatch.checkPercent_int range.conf]
    rfl
  case mode =>
    rw [Check.fieldOr_of_lookup rfl, StoredMatch.checkMode_text label, stored, label]
    rfl
  case tysHome =>
    rw [Check.fieldOr_of_lookup rfl, StoredMatch.checkTys_text tysHome, stored, tysHome]
    simp
  case tysAway =>
    rw [Check.fieldOr_of_lookup rfl, StoredMatch.checkTys_text tysAway, stored, tysAway]
    simp
  case fid =>
    rw [Check.fieldOr_of_lookup rfl, StoredMatch.checkFid_real fid, stored, fid]
    rfl
  case fseHome =>
    rw [Check.fieldOr_of_lookup rfl, StoredMatch.checkPercent_int range.fseHome]
    rfl
  case fseAway =>
    rw [Check.fieldOr_of_lookup rfl, StoredMatch.checkPercent_int range.fseAway]
    rfl

/-- A draft in range is stored unless an entry's name or the remark is too long. -/
theorem toStored_eq {d : Draft α} (range : d.InRange)
    (onLadder : (Fid.rungOf? d.fid).isSome = true) : d.toStored =
      if d.hasLongName then .error [⟨["name".toList], .tooLong StoredEntry.nameLimit⟩]
      else if StoredMatch.noteLimit < d.note.length then
        .error [⟨["note".toList], .tooLong StoredMatch.noteLimit⟩]
      else .ok d.stored := by
  have note : Check.fieldOr d.fields "note".toList [] StoredMatch.checkNote =
      (StoredMatch.checkNote (.text d.note)).under "note".toList := rfl
  rw [toStored, checkedEntries_eq range.entries]
  by_cases longName : d.hasLongName = true
  · rw [if_pos longName, if_pos longName]
    rfl
  · rw [if_neg longName, if_neg longName]
    change (pure d.stored.entries >>= fun e => StoredMatch.ofChecked (.ok e) d.fields) = _
    rw [pure_bind, StoredMatch.ofChecked_of_passes (passes_fields range onLadder), note]
    by_cases long : StoredMatch.noteLimit < d.note.length
    · rw [StoredMatch.checkNote_of_text, Check.atMost, if_pos long, if_pos long]
      rfl
    · rw [StoredMatch.checkNote_of_text, Check.atMost, if_neg long, if_neg long]
      rfl

end

section

variable [SimilarNames]

theorem inRange_of_mem_ofText {t : Text} {dictionary : List TeamAlias}
    {directory : List (Team α)} {d : Draft α}
    (hd : d ∈ (Parse.ofText t dictionary directory Config.standard).drafts)
    (short : d.HasShortTeams) : d.InRange := by
  obtain ⟨m, -, games, p, hp, rfl⟩ := Parse.mem_drafts_ofText hd
  have stated := Extraction.inRange_ofText (α := α) (Text.normalize t)
  exact inRange_ofMatch Config.inRange_standard (Assignment.inRange_of_mem_games stated hp) short

end

end Draft

namespace Parse

open Text

def curatedAliases : List TeamAlias :=
  AliasDictionary.ofTeams (Directory.library : List (Team Float))

theorem ofTeams_library (α : Type) [Scalar α] :
    AliasDictionary.ofTeams (Directory.library : List (Team α)) = curatedAliases := by
  unfold curatedAliases AliasDictionary.ofTeams Directory.library
  rw [List.flatMap_map, List.flatMap_map]
  rfl

theorem eq_wolves {e : TeamAlias} (he : e ∈ curatedAliases) {c : Char}
    (head : e.lowered.head? = some c) (mark : c ∈ slipMarks) : e = wolves := by
  obtain ⟨p, hp, listed⟩ := AliasDictionary.mem_ofTeams he
  obtain ⟨t, ht, rfl⟩ := List.mem_map.mp hp
  obtain ⟨name, hn, rfl⟩ := List.mem_map.mp listed
  have spelled := LibraryTeam.wellSpelled ht
  have begins : (lower name).head?.any slipMarks.contains = true := by
    rw [head]
    simpa using mark
  obtain ⟨id, team, rfl⟩ := spelled.begins name (spelled.mem_of_mem_aliases hn) begins
  change TeamAlias.mk _ _ t.id t.name = _
  rw [id, team]
  rfl

theorem wolves_mem_curatedAliases : wolves ∈ curatedAliases := by
  have listed : ∃ t ∈ teamLibrary, t.id = wolves.teamId ∧
      wolves ∈ TeamAlias.ofTeam (Team.ofLibrary t : Team Float) := by
    decide
  obtain ⟨t, ht, -, listed⟩ := listed
  have entry : wolves ∈ (Directory.library : List (Team Float)).flatMap TeamAlias.ofTeam :=
    List.mem_flatMap.mpr ⟨Team.ofLibrary t, List.mem_map_of_mem ht, listed⟩
  obtain ⟨kept, hk, same⟩ := AliasDictionary.exists_mem_ofAliases entry
  have head : kept.lowered.head? = some '狼' := by
    rw [same]
    rfl
  rwa [← eq_wolves hk head (by simp [slipMarks])]

def wolvesSpan : TeamSpan := ⟨wolves.teamId, wolves.teamName, wolves.name, 0, 2⟩

theorem teamNames_wolves {rest : Text} (marks : rest ⊆ entryMarks) :
    Scan.teamNames ('狼' :: '队' :: rest) curatedAliases = [wolvesSpan] := by
  have small : lowerInPlace slipMarks = slipMarks := rfl
  have within : '狼' :: '队' :: rest ⊆ slipMarks :=
    List.cons_subset_cons '狼' (List.cons_subset_cons '队' marks)
  have lowered := lowerInPlace_eq_self small within
  have behind : lowerInPlace rest = rest := by
    refine lowerInPlace_eq_self small fun c hc => within ?_
    exact List.mem_cons_of_mem _ (List.mem_cons_of_mem _ hc)
  have accepted : Scan.accepts wolves none ('狼' :: '队' :: rest) ('狼' :: '队' :: rest) = true := by
    have word : (!isReservedWord wolves.lowered && !Scan.mustStandApart wolves.name) = true := rfl
    simp only [Bool.and_eq_true] at word
    have front : wolves.lowered.isPrefixOf ('狼' :: '队' :: rest) = true := by simp [wolves]
    have filled : wolves.lowered.isEmpty = false := rfl
    rw [Scan.accepts, front, filled, word.1, word.2]
    rfl
  -- No alias but this one begins with a character of the slip, and it begins with the first alone.
  refine Scan.teamNames_of_front (e := wolves) ?_ ?_
  · rw [lowered]
    refine Scan.entryAt?_of_unique wolves_mem_curatedAliases accepted fun x hx same => ?_
    exact eq_wolves hx same List.mem_cons_self
  · intro c hc e he head
    have mark : c ∈ entryMarks := by
      apply marks
      rw [← behind]
      exact hc
    obtain rfl := eq_wolves he head (List.mem_cons_of_mem _ (List.mem_cons_of_mem _ mark))
    obtain rfl : '狼' = c := Option.some.inj head
    simp [entryMarks] at mark

/-- The parse of a slip on the one team that leaves `rest` behind its name. -/
def ofWolves {α : Type} [Scalar α] (t rest : Text) : Parse α :=
  ofMatches Config.standard (Extraction.ofText (normalize t))
    (Fixture.list (Segment.list ('狼' :: '队' :: rest) [wolvesSpan]))

theorem ofLibrary_eq_ofWolves [SimilarNames] {α : Type} [Scalar α] {t rest : Text}
    (content : isEmptySlip t = false)
    (residual : (Extraction.ofText (normalize t) : Extraction α).residual = '狼' :: '队' :: rest)
    (marks : rest ⊆ entryMarks) :
    ofLibrary t (Config.standard : Config α) = ofWolves t rest := by
  have found : Scan.teamNames ('狼' :: '队' :: rest) curatedAliases = [wolvesSpan] :=
    teamNames_wolves marks
  rw [ofLibrary, ofTeams_library,
    ofText_of_found content (by rw [residual]; exact found) (List.cons_ne_nil _ _), residual,
    ofWolves]

end Parse

namespace Draft

end Draft

end Wager
