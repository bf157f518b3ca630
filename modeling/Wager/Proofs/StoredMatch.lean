import Mathlib
import Wager.StoredMatch

/-!
# Values that pass their checks

A short name, a percentage from 0 to 100, a price above one, the label of a mode, a TYS code and a
value on the FID ladder pass the checks of stored matches.  A match all of whose other fields pass
is as good as its note.
-/

namespace Wager

theorem mapM_of_same_fault {β γ ε : Type} {f : β → Except ε γ} {bad : β → Bool} {g : β → γ}
    {fault : ε} {l : List β}
    (value : ∀ b ∈ l, f b = if bad b then .error fault else .ok (g b)) :
    l.mapM f = if l.any bad then .error fault else .ok (l.map g) := by
  induction l with
  | nil => rfl
  | cons b l ih =>
    rw [List.mapM_cons, value b List.mem_cons_self,
      ih fun x hx => value x (List.mem_cons_of_mem b hx), List.any_cons]
    cases bad b
    · cases l.any bad <;> rfl
    · rfl

theorem eq_ok_of_bind {β γ ε : Type} {x : Except ε β} {f : β → Except ε γ} {c : γ}
    (h : (x >>= f) = .ok c) : ∃ b, x = .ok b ∧ f b = .ok c := by
  cases x with
  | error e => cases h
  | ok b => exact ⟨b, rfl, h⟩

theorem forall₂_of_mapM_ok {β γ ε : Type} {f : β → Except ε γ} {l : List β} {out : List γ}
    (h : l.mapM f = .ok out) : List.Forall₂ (fun b c => f b = .ok c) l out := by
  induction l generalizing out with
  | nil =>
    cases h
    exact .nil
  | cons b l ih =>
    rw [List.mapM_cons] at h
    obtain ⟨c, first, h⟩ := eq_ok_of_bind h
    obtain ⟨rest, later, h⟩ := eq_ok_of_bind h
    cases h
    exact .cons first (ih later)

namespace Checked

variable {β : Type}

theorem eq_ok_of_under {step : Text} {x : Checked β} {b : β} (h : under step x = .ok b) :
    x = .ok b := by
  cases x with
  | error found => cases h
  | ok c =>
    cases h
    rfl

@[simp] theorem faults_ok (b : β) : faults (.ok b) = [] := rfl

@[simp] theorem faults_error (found : List FaultAt) : faults (.error found : Checked β) = found :=
  rfl

@[simp] theorem under_ok (step : Text) (b : β) : under step (.ok b) = .ok b := rfl

@[simp] theorem under_fail (step : Text) (fault : Fault) :
    under step (fail fault : Checked β) = .error [⟨[step], fault⟩] := rfl

end Checked

def Percent.InRange (n : Int) : Prop := 0 ≤ n ∧ n ≤ 100

section

variable {α : Type}

theorem Check.fieldOr_of_lookup {β : Type} {fields : List (Text × Datum α)} {name : Text}
    {d : Datum α} (found : fields.lookup name = some d) (standIn : β)
    (check : Datum α → Checked β) :
    fieldOr fields name standIn check = (check d).under name := by
  rw [fieldOr, found]

variable [Coercion α]

theorem StoredEntry.checkName_of_text (t : Text) :
    checkName (.text t : Datum α) = (Check.atLeast 1 t >>= Check.atMost nameLimit) := by
  rw [checkName, Coercion.text_text]
  rfl

theorem StoredEntry.checkName_text {t : Text} (named : t ≠ []) : checkName (.text t : Datum α) =
    if nameLimit < t.length then .fail (.tooLong nameLimit) else .ok t := by
  have some_character : ¬t.length < 1 := not_lt.mpr (List.length_pos_of_ne_nil named)
  rw [checkName_of_text, Check.atLeast, if_neg some_character]
  rfl

theorem StoredEntry.eq_of_checkName_text {t n : Text}
    (h : checkName (.text t : Datum α) = .ok n) : n = t := by
  rw [checkName_of_text] at h
  obtain ⟨least, atLeast, atMost⟩ := eq_ok_of_bind h
  rw [Check.atLeast] at atLeast
  rw [Check.atMost] at atMost
  split at atLeast
  · cases atLeast
  · split at atMost
    · cases atMost
    · cases atLeast
      cases atMost
      rfl

theorem Check.atMost_of_le {most : Nat} {t : Text} (short : t.length ≤ most) :
    atMost most t = .ok t := if_neg (not_lt.mpr short)

theorem StoredMatch.checkTeam_of_text (t : Text) :
    checkTeam (.text t : Datum α) = Check.atMost teamLimit t := by
  rw [checkTeam, Coercion.text_text]
  rfl

theorem StoredMatch.checkTeam_text {t : Text} (short : t.length ≤ teamLimit) :
    checkTeam (.text t : Datum α) = .ok t := by
  rw [checkTeam_of_text, Check.atMost_of_le short]

theorem StoredMatch.checkNote_of_text (t : Text) :
    checkNote (.text t : Datum α) = Check.atMost noteLimit t := by
  rw [checkNote, Coercion.text_text]
  rfl

theorem StoredMatch.length_of_checkTeam_text {t u : Text}
    (h : checkTeam (.text t : Datum α) = .ok u) : t.length ≤ teamLimit := by
  by_contra long
  rw [checkTeam_of_text, Check.atMost, if_pos (not_le.mp long)] at h
  cases h

theorem StoredMatch.checkMode_text {t : Text} {m : Mode} (h : Mode.ofLabel? t = some m) :
    checkMode (.text t : Datum α) = .ok m := by
  rw [checkMode, Coercion.text_text]
  change (pure t >>= _) = _
  rw [pure_bind, h]

end

variable {α : Type} [Scalar α]

namespace Check

theorem percent_of_inRange {n : Int} (h : Percent.InRange n) : percent n = .ok n := by
  rw [percent, if_neg (not_lt.mpr h.2), if_neg (not_lt.mpr h.1)]

theorem odds_real [Coercion α] {x : α} (h : 1.0 < x) : odds (.real x) = .ok x := by
  rw [odds, Coercion.number_real]
  exact if_pos h

theorem optional_odds [Coercion α] {price : Option α} (h : ∀ x ∈ price, 1.0 < x) :
    optional odds (Datum.ofOption price) = .ok price := by
  cases price with
  | none => rfl
  | some x =>
    change (odds (.real x)).map some = _
    rw [odds_real (h x rfl)]
    rfl

end Check

variable [Coercion α]

theorem StoredEntry.ofFields_fields {e : StoredEntry α} (named : e.name ≠ [])
    (priced : ∀ x ∈ e.odds, 1.0 < x) : ofFields e.fields =
      if nameLimit < e.name.length then .error [⟨["name".toList], .tooLong nameLimit⟩]
      else .ok e := by
  have name : Check.required e.fields "name".toList checkName =
      (checkName (.text e.name)).under "name".toList := rfl
  have odds : Check.fieldOr e.fields "odds".toList none (Check.optional Check.odds) =
      .ok e.odds := by
    rw [Check.fieldOr_of_lookup (d := Datum.ofOption e.odds) rfl, Check.optional_odds priced,
      Checked.under_ok]
  rw [ofFields, name, odds, checkName_text named]
  by_cases long : nameLimit < e.name.length
  · rw [if_pos long, if_pos long]
    rfl
  · rw [if_neg long, if_neg long]
    rfl

theorem StoredEntry.name_of_ofFields {e s : StoredEntry α} (h : ofFields e.fields = .ok s) :
    s.name = e.name := by
  have name : Check.required e.fields "name".toList checkName =
      (checkName (.text e.name)).under "name".toList := rfl
  rw [ofFields, name] at h
  split at h
  next =>
    obtain ⟨n, named, h⟩ := eq_ok_of_bind h
    obtain ⟨x, -, h⟩ := eq_ok_of_bind h
    cases h
    exact eq_of_checkName_text (Checked.eq_ok_of_under named)
  next => cases h

namespace StoredMatch

omit [Scalar α] in
theorem checkPercent_int {n : Int} (h : Percent.InRange n) :
    checkPercent (.int n : Datum α) = .ok n := by
  rw [checkPercent, Coercion.integer_int]
  exact Check.percent_of_inRange h

omit [Coercion α] in
theorem checkTys_text {t : Text} {g : Tys} (h : t = [g.code]) :
    checkTys (.text t : Datum α) = .ok g := by
  subst h
  cases g <;> rfl

theorem checkFid_real {x rung : α} (h : Fid.rungOf? x = some rung) :
    checkFid (.real x) = .ok rung := by
  rw [checkFid, Coercion.number_real]
  change (pure x >>= _) = _
  rw [pure_bind, h]

/-- Some fields, apart from entries and note, pass as those of a match. -/
structure Passes (fields : List (Text × Datum α)) (r : StoredMatch α) : Prop where
  id : Check.fieldOr fields "id".toList none (Check.optional Coercion.text) = .ok r.id
  homeTeam : Check.fieldOr fields "home_team".toList [] checkTeam = .ok r.homeTeam
  awayTeam : Check.fieldOr fields "away_team".toList [] checkTeam = .ok r.awayTeam
  odds : Check.fieldOr fields "odds".toList none (Check.optional Check.odds) = .ok r.odds
  conf : Check.fieldOr fields "conf".toList 50 checkPercent = .ok r.conf
  mode : Check.fieldOr fields "mode".toList Mode.standard checkMode = .ok r.mode
  tysHome : Check.fieldOr fields "tys_home".toList Tys.medium checkTys = .ok r.tysHome
  tysAway : Check.fieldOr fields "tys_away".toList Tys.medium checkTys = .ok r.tysAway
  fid : Check.fieldOr fields "fid".toList Fid.middle checkFid = .ok r.fid
  fseHome : Check.fieldOr fields "fse_home".toList 50 checkPercent = .ok r.fseHome
  fseAway : Check.fieldOr fields "fse_away".toList 50 checkPercent = .ok r.fseAway

theorem ofChecked_of_passes {fields : List (Text × Datum α)} {r : StoredMatch α}
    (h : Passes fields r) : ofChecked (.ok r.entries) fields =
      (Check.fieldOr fields "note".toList [] checkNote).map fun note => { r with note } := by
  rw [ofChecked, h.id, h.homeTeam, h.awayTeam, h.odds, h.conf, h.mode, h.tysHome, h.tysAway,
    h.fid, h.fseHome, h.fseAway]
  cases Check.fieldOr fields "note".toList [] checkNote with
  | ok note => rfl
  | error found =>
    cases found <;> rfl

theorem passes_of_ofChecked {entries : Checked (List (StoredEntry α))}
    {fields : List (Text × Datum α)} {r : StoredMatch α} (h : ofChecked entries fields = .ok r) :
    entries = .ok r.entries ∧ Passes fields r := by
  rw [ofChecked] at h
  split at h
  next =>
    obtain ⟨_, id, h⟩ := eq_ok_of_bind h
    obtain ⟨_, homeTeam, h⟩ := eq_ok_of_bind h
    obtain ⟨_, awayTeam, h⟩ := eq_ok_of_bind h
    obtain ⟨_, listed, h⟩ := eq_ok_of_bind h
    obtain ⟨_, odds, h⟩ := eq_ok_of_bind h
    obtain ⟨_, conf, h⟩ := eq_ok_of_bind h
    obtain ⟨_, mode, h⟩ := eq_ok_of_bind h
    obtain ⟨_, tysHome, h⟩ := eq_ok_of_bind h
    obtain ⟨_, tysAway, h⟩ := eq_ok_of_bind h
    obtain ⟨_, fid, h⟩ := eq_ok_of_bind h
    obtain ⟨_, fseHome, h⟩ := eq_ok_of_bind h
    obtain ⟨_, fseAway, h⟩ := eq_ok_of_bind h
    obtain ⟨_, -, h⟩ := eq_ok_of_bind h
    cases h
    exact ⟨listed, ⟨id, homeTeam, awayTeam, odds, conf, mode, tysHome, tysAway, fid, fseHome,
      fseAway⟩⟩
  next => cases h

end StoredMatch

end Wager
