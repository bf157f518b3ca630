import Wager.Proofs.Scalar.Rational
import Wager.Proofs.Team.Directory

/-!
# Rows that are no teams

A directory leaves out the rows that fail their checks.  But a row with a number or a truth value in
place of its abbreviations is not left out: it stops the directory, whatever the other rows are.
-/

namespace Wager

section

variable {α : Type}

def Datum.loneKind? : Datum α → Option String
  | .int _ => some "int"
  | .real _ => some "float"
  | .bool _ => some "bool"
  | _ => none

/-- The type of what a row has in place of its abbreviations, if that cannot be gone through. -/
def ProviderRow.unlistable? : ProviderRow α → Option String
  | .team _ => none
  | .loose d => (d.field "abbreviations".toList).loneKind?

end

theorem RowError.mapError_invalid_cases {β : Type} (x : Checked β) :
    (∃ b, x.mapError invalid = .ok b) ∨
      ∃ faults, x.mapError invalid = .error (.invalid faults) := by
  cases x with
  | ok b => exact .inl ⟨b, rfl⟩
  | error faults => exact .inr ⟨faults, rfl⟩

variable {α : Type} [Scalar α]

namespace Team

theorem readAbbreviations_of_lone {d : Datum α} {kind : String} (h : d.loneKind? = some kind) :
    readAbbreviations d = .error (.unlistable kind) := by
  cases d <;> cases h <;> rfl

theorem readAbbreviations_of_listable {d : Datum α} (h : d.loneKind? = none) :
    ∃ names, readAbbreviations d = .ok names := by
  cases d with
  | int n => cases h
  | real x => cases h
  | bool b => cases h
  | _ => exact ⟨_, rfl⟩

variable [Coercion α]

theorem ofDatum_of_lone {d : Datum α} {kind : String}
    (h : (d.field "abbreviations".toList).loneKind? = some kind) :
    ofDatum d = .error (.unlistable kind) := by
  cases d with
  | object fields =>
    have read : readAbbreviations ((fields.lookup "abbreviations".toList).getD .null) =
        .error (.unlistable kind) := readAbbreviations_of_lone h
    rw [ofDatum, ofFields, read]
    rfl
  | _ => cases h

/-- Where the abbreviations can be gone through, all that is wrong with a row is found by its
checks. -/
theorem ofDatum_of_listable {d : Datum α}
    (h : (d.field "abbreviations".toList).loneKind? = none) :
    (∃ p, ofDatum d = .ok p) ∨ ∃ faults, ofDatum d = .error (.invalid faults) := by
  cases d with
  | object fields =>
    obtain ⟨names, read⟩ : ∃ names,
        readAbbreviations ((fields.lookup "abbreviations".toList).getD .null) = .ok names :=
      readAbbreviations_of_listable h
    rw [ofDatum, ofFields, read]
    exact RowError.mapError_invalid_cases _
  | _ => exact .inr ⟨_, rfl⟩

end Team

namespace Directory

variable [Coercion α]

theorem absorbRow_eq (teams : KeyedTeams α) (row : ProviderRow α) : absorbRow teams row =
    match row.unlistable? with
    | some kind => .error (.unlistable kind)
    | none => .ok ((accepted [row]).foldl absorb teams) := by
  cases row with
  | team p => rfl
  | loose d =>
    cases lone : (ProviderRow.loose d).unlistable? with
    | some kind => rw [absorbRow, ProviderRow.toTeam, Team.ofDatum_of_lone lone]
    | none =>
      rcases Team.ofDatum_of_listable lone with ⟨p, read⟩ | ⟨faults, read⟩
      all_goals simp [absorbRow, ProviderRow.toTeam, accepted, read, Except.toOption]

/-- Rows are taken in one after another up to the first that stops the directory. -/
theorem foldlM_absorbRow_eq (rows : List (ProviderRow α)) (teams : KeyedTeams α) :
    rows.foldlM absorbRow teams =
      match rows.findSome? ProviderRow.unlistable? with
      | some kind => .error (.unlistable kind)
      | none => .ok ((accepted rows).foldl absorb teams) := by
  induction rows generalizing teams with
  | nil => rfl
  | cons row rows ih =>
    rw [List.foldlM_cons, absorbRow_eq, List.findSome?_cons]
    cases row.unlistable? with
    | some kind => rfl
    | none =>
      have split : accepted (row :: rows) = accepted [row] ++ accepted rows := by
        simp only [accepted, ← List.filterMap_append, List.singleton_append]
      rw [split, List.foldl_append]
      exact ih _

theorem isOk_toTeam_of_unlistable {row : ProviderRow α} {kind : String}
    (h : row.unlistable? = some kind) : row.toTeam.isOk = false := by
  cases row with
  | team p => cases h
  | loose d =>
    rw [ProviderRow.toTeam, Team.ofDatum_of_lone h]
    rfl

theorem accepted_filter (rows : List (ProviderRow α)) :
    accepted (rows.filter (·.toTeam.isOk)) = accepted rows := by
  rw [accepted, accepted, List.filterMap_filter]
  congr 1
  funext row
  cases row.toTeam <;> rfl

/-- The directory of the rows that pass their checks exists.  The directory of all rows is the same
one, unless a row has a number or a truth value in place of its abbreviations; then there is none,
and the first such row is the cause. -/
theorem build_leaves_out (rows : List (ProviderRow α)) :
    (∃ teams, build (rows.filter (·.toTeam.isOk)) = .ok teams) ∧
    build rows =
      match rows.findSome? ProviderRow.unlistable? with
      | some kind => .error (.unlistable kind)
      | none => build (rows.filter (·.toTeam.isOk)) := by
  have none : (rows.filter (·.toTeam.isOk)).findSome? ProviderRow.unlistable? = none := by
    rw [List.findSome?_eq_none_iff]
    intro row hr
    have passes := (List.mem_filter.mp hr).2
    cases lone : row.unlistable? with
    | none => rfl
    | some kind =>
      rw [isOk_toTeam_of_unlistable lone] at passes
      cases passes
  have kept : build (rows.filter (·.toTeam.isOk)) =
      .ok (((accepted rows).foldl absorb (keyed library)).map (·.2)) := by
    rw [build, foldlM_absorbRow_eq, none, accepted_filter]
    rfl
  refine ⟨⟨_, kept⟩, ?_⟩
  rw [kept, build, foldlM_absorbRow_eq]
  cases rows.findSome? ProviderRow.unlistable? <;> rfl

def numberedRow : ProviderRow ℚ := .loose (.object [
  ("teamId".toList, .text "x".toList), ("teamName".toList, .text "X".toList),
  ("abbreviations".toList, .int 5)])

/-- One such row takes the directory down, and without it there is one. -/
theorem build_numberedRow : build [numberedRow] = .error (.unlistable "int") ∧
    build ([numberedRow].filter (·.toTeam.isOk)) = .ok library :=
  ⟨rfl, build_nil⟩

end Directory

end Wager
