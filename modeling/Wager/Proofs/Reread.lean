import Wager.Proofs.Scalar.Double
import Wager.Proofs.StoredMatch
import Wager.Proofs.Text.Trim
import Wager.Team.Basic
import Wager.Defaults

/-!
# Accepted values are accepted again

Checks bring a value to a form of its own.  Written out in this form, a stored match or the row of a
team passes all its checks again and is read as the same, and so does every value that stands in for
a missing field.
-/

namespace Wager

section

variable {α β γ : Type}

theorem RowError.eq_ok_of_mapError {x : Checked β} {b : β} (h : x.mapError invalid = .ok b) :
    x = .ok b := by
  cases x with
  | error found => cases h
  | ok c =>
    cases h
    rfl

/-- A check reads all that it accepts as the same value when that is written out. -/
def Check.Rereads (check : Datum α → Checked β) (write : β → Datum α) : Prop :=
  ∀ d b, check d = .ok b → check (write b) = .ok b

namespace Checked

theorem faults_eq_nil_of_mem_map_ok {l : List β} {item : Checked β}
    (h : item ∈ l.map .ok) : item.faults = [] := by
  obtain ⟨b, -, rfl⟩ := List.mem_map.mp h
  rfl

theorem faults_under_ok {item : Checked β} (step : Text) (h : item.faults = []) :
    (item.under step).faults = [] := by
  cases item with
  | ok b => rfl
  | error found =>
    change found = [] at h
    rw [h]
    rfl

theorem all_eq_ok_iff {items : List (Checked β)} {l : List β} :
    all items = .ok l ↔ items = l.map .ok := by
  constructor
  · intro h
    unfold all at h
    split at h
    · rw [← List.forall₂_eq_eq_eq, List.forall₂_map_right_iff]
      exact forall₂_of_mapM_ok h
    · cases h
  · rintro rfl
    have clean : ((l.map (Except.ok : β → Checked β)).zipIdx.flatMap
        fun (item, i) => (under (Text.ofNat i) item).faults) = [] := by
      apply List.flatMap_eq_nil_iff.mpr
      rintro ⟨item, i⟩ hi
      have member := List.mem_map_of_mem (f := Prod.fst) hi
      rw [List.zipIdx_map_fst] at member
      exact faults_under_ok _ (faults_eq_nil_of_mem_map_ok member)
    rw [all, clean]
    change (l.map (Except.ok : β → Checked β)).mapM id = _
    rw [List.mapM_map]
    exact List.mapM_pure.trans (congrArg _ (List.map_id l))

end Checked

namespace Check

/-- A rule behind a check that reads whatever is written has to accept its own results. -/
theorem rereads_bind {check : Datum α → Checked β} {rule : β → Checked γ} {write : γ → Datum α}
    (g : γ → β) (reads : ∀ c, check (write c) = .ok (g c))
    (kept : ∀ b c, rule b = .ok c → rule (g c) = .ok c) :
    Rereads (fun d => check d >>= rule) write := by
  intro d c h
  obtain ⟨b, -, passed⟩ := eq_ok_of_bind h
  change (check (write c) >>= rule) = _
  rw [reads]
  exact kept b c passed

theorem rereads_of_unchanged {check : Datum α → Checked β} {rule : β → Checked β}
    {write : β → Datum α} (reads : ∀ b, check (write b) = .ok b)
    (unchanged : ∀ b c, rule b = .ok c → c = b) : Rereads (fun d => check d >>= rule) write := by
  refine rereads_bind id reads fun b c passed => ?_
  rw [id, unchanged b c passed, passed, unchanged b c passed]

theorem rereads_text [Coercion α] : Rereads (Coercion.text (α := α)) .text :=
  fun _ t _ => Coercion.text_text t

theorem optional_of_ne_null (check : Datum α → Checked β) {d : Datum α} (h : d ≠ .null) :
    optional check d = (check d).map some := by
  cases d with
  | null => exact absurd rfl h
  | _ => rfl

theorem rereads_optional {check : Datum α → Checked β} {write : β → Datum α}
    (h : Rereads check write) (present : ∀ b, write b ≠ .null) :
    Rereads (optional check) fun given => (given.map write).getD .null := by
  intro d given read
  cases given with
  | none => rfl
  | some b =>
    have given_too : d ≠ .null := by
      rintro rfl
      cases read
    rw [optional_of_ne_null check given_too] at read
    cases passed : check d with
    | error found =>
      rw [passed] at read
      cases read
    | ok c =>
      rw [passed] at read
      cases read
      change optional check (write b) = _
      rw [optional_of_ne_null check (present b), h d b passed]
      rfl

/-- What holds of the value that stands in for a missing field and of all that passes its check
holds of the field. -/
theorem of_fieldOr {P : β → Prop} {fields : List (Text × Datum α)} {name : Text} {standIn b : β}
    {check : Datum α → Checked β} (read : fieldOr fields name standIn check = .ok b)
    (usual : P standIn) (given : ∀ d b, check d = .ok b → P b) : P b := by
  rw [fieldOr] at read
  split at read
  next d _ => exact given d b (Checked.eq_ok_of_under read)
  next =>
    cases read
    exact usual

theorem fieldOr_of_lookup_ok {fields : List (Text × Datum α)} {name : Text} {d : Datum α}
    {standIn b : β} {check : Datum α → Checked β} (put : fields.lookup name = some d)
    (passes : check d = .ok b) : fieldOr fields name standIn check = .ok b := by
  rw [fieldOr_of_lookup put, passes, Checked.under_ok]

theorem fieldOr_again {fields written : List (Text × Datum α)} {name : Text} {standIn b : β}
    {check : Datum α → Checked β} {write : β → Datum α}
    (read : fieldOr fields name standIn check = .ok b) (h : Rereads check write)
    (usual : check (write standIn) = .ok standIn)
    (put : written.lookup name = some (write b)) :
    fieldOr written name standIn check = .ok b :=
  fieldOr_of_lookup_ok put (of_fieldOr (P := fun b => check (write b) = .ok b) read usual h)

theorem required_again {fields written : List (Text × Datum α)} {name : Text} {b : β}
    {check : Datum α → Checked β} {write : β → Datum α}
    (read : required fields name check = .ok b) (h : Rereads check write)
    (put : written.lookup name = some (write b)) : required written name check = .ok b := by
  rw [required] at read
  split at read
  next d _ =>
    rw [required, put]
    change Checked.under name (check (write b)) = _
    rw [h d b (Checked.eq_ok_of_under read), Checked.under_ok]
  next => cases read

theorem atLeast_eq {least : Nat} {t u : Text} (h : atLeast least t = .ok u) : u = t := by
  unfold atLeast at h
  split at h <;> cases h
  rfl

theorem atMost_eq {most : Nat} {t u : Text} (h : atMost most t = .ok u) : u = t := by
  unfold atMost at h
  split at h <;> cases h
  rfl

theorem percent_eq {n m : Int} (h : percent n = .ok m) : m = n ∧ Percent.InRange m := by
  unfold percent at h
  split at h
  · cases h
  · split at h <;> cases h
    exact ⟨rfl, by omega, by omega⟩

end Check

theorem StoredEntry.rereads_checkName [Coercion α] :
    Check.Rereads (checkName (α := α)) .text := by
  refine Check.rereads_of_unchanged Coercion.text_text fun t u h => ?_
  obtain ⟨v, least, most⟩ := eq_ok_of_bind h
  rw [Check.atMost_eq most, Check.atLeast_eq least]

namespace StoredMatch

variable [Coercion α]

theorem rereads_checkTeam : Check.Rereads (checkTeam (α := α)) .text :=
  Check.rereads_of_unchanged Coercion.text_text fun _ _ => Check.atMost_eq

theorem rereads_checkNote : Check.Rereads (checkNote (α := α)) .text :=
  Check.rereads_of_unchanged Coercion.text_text fun _ _ => Check.atMost_eq

theorem rereads_checkMode : Check.Rereads (checkMode (α := α)) fun m => .text m.label :=
  fun _ m _ => checkMode_text (Mode.ofLabel?_label m)

end StoredMatch

namespace Team

theorem rereads_checkName [Coercion α] : Check.Rereads (checkName (α := α)) .text := by
  refine Check.rereads_bind (fun t => t) Coercion.text_text fun t u h => ?_
  obtain ⟨v, -, h⟩ := eq_ok_of_bind h
  dsimp only at h
  split at h
  next => cases h
  next some_left =>
    cases h
    have named : ¬(Text.trim v).length < 1 := by
      rw [Nat.lt_one_iff, List.length_eq_zero_iff]
      exact fun none => some_left (by rw [none]; rfl)
    change (Check.atLeast 1 (Text.trim v) >>= fun t => _) = _
    rw [Check.atLeast, if_neg named]
    change (if (Text.trim (Text.trim v)).isEmpty then _ else
      Except.ok (Text.trim (Text.trim v))) = _
    rw [Text.trim_trim, if_neg some_left]

variable {rows written : List (Text × Datum α)} {first second name : Text} {b : β}
  {check : Datum α → Checked β} {write : β → Datum α}

theorem requiredEither_again (read : requiredEither rows first second check = .ok b)
    (h : Check.Rereads check write)
    (put : lookupEither written first second = (name, some (write b))) :
    requiredEither written first second check = .ok b := by
  rw [requiredEither] at read
  split at read
  next d _ =>
    rw [requiredEither, put]
    change Checked.under name (check (write b)) = _
    rw [h d b (Checked.eq_ok_of_under read), Checked.under_ok]
  next => cases read

theorem eitherOr_again {standIn : β} (read : eitherOr rows first second standIn check = .ok b)
    (h : Check.Rereads check write) (usual : check (write standIn) = .ok standIn)
    (put : lookupEither written first second = (name, some (write b))) :
    eitherOr written first second standIn check = .ok b := by
  have passes : check (write b) = .ok b := by
    rw [eitherOr] at read
    split at read
    next d _ => exact h d b (Checked.eq_ok_of_under read)
    next =>
      cases read
      exact usual
  rw [eitherOr, put]
  change Checked.under name (check (write b)) = _
  rw [passes, Checked.under_ok]

end Team

end

variable {α : Type} [Scalar α]

namespace Check

theorem rereads_odds [Coercion α] : Rereads (odds (α := α)) .real := by
  refine rereads_of_unchanged Coercion.number_real fun x y h => ?_
  split at h <;> cases h
  rfl

theorem rereads_optional_odds [Coercion α] : Rereads (optional (odds (α := α))) Datum.ofOption := by
  have written : (Datum.ofOption : Option α → Datum α) = fun o => (o.map .real).getD .null := by
    funext o
    cases o <;> rfl
  rw [written]
  exact rereads_optional rereads_odds fun _ h => by cases h

end Check

namespace StoredEntry

variable [Coercion α]

theorem ofFields_eq_ok_iff {fields : List (Text × Datum α)} {e : StoredEntry α} :
    ofFields fields = .ok e ↔ Check.required fields "name".toList checkName = .ok e.name ∧
      Check.fieldOr fields "odds".toList none (Check.optional Check.odds) = .ok e.odds := by
  constructor
  · intro h
    rw [ofFields] at h
    split at h
    next =>
      obtain ⟨name, named, h⟩ := eq_ok_of_bind h
      obtain ⟨odds, priced, h⟩ := eq_ok_of_bind h
      cases h
      exact ⟨named, priced⟩
    next => cases h
  · rintro ⟨named, priced⟩
    rw [ofFields, named, priced]
    rfl

theorem rereads_ofDatum : Check.Rereads (ofDatum (α := α)) fun e => .object e.fields := by
  intro d e h
  cases d with
  | object fields =>
    obtain ⟨named, priced⟩ := ofFields_eq_ok_iff.mp h
    exact ofFields_eq_ok_iff.mpr ⟨Check.required_again named rereads_checkName rfl,
      Check.fieldOr_again priced Check.rereads_optional_odds rfl rfl⟩
  | _ => cases h

end StoredEntry

namespace StoredMatch

variable [Coercion α]

omit [Scalar α] in
theorem rereads_checkPercent : Check.Rereads (checkPercent (α := α)) .int :=
  Check.rereads_of_unchanged Coercion.integer_int fun _ _ h => (Check.percent_eq h).1

omit [Coercion α] in
theorem rereads_checkTys : Check.Rereads (checkTys (α := α)) fun g => .text [g.code] :=
  fun _ _ _ => checkTys_text rfl

theorem mem_rungs_of_checkFid {d : Datum α} {rung : α} (h : checkFid d = .ok rung) :
    rung ∈ Fid.rungs := by
  obtain ⟨x, -, h⟩ := eq_ok_of_bind h
  split at h
  next found =>
    cases h
    exact List.mem_of_find?_eq_some found
  next => cases h

theorem rereads_checkFid (onRung : ∀ x ∈ (Fid.rungs : List α), Fid.rungOf? x = some x) :
    Check.Rereads (checkFid (α := α)) .real :=
  fun _ rung h => checkFid_real (onRung rung (mem_rungs_of_checkFid h))

theorem rereads_checkEntries : Check.Rereads (checkEntries (α := α))
    fun entries => .list (entries.map fun e => .object e.fields) := by
  intro d entries h
  cases d with
  | list items =>
    have read := Checked.all_eq_ok_iff.mp h
    change Checked.all ((entries.map fun e => Datum.object e.fields).map StoredEntry.ofDatum) = _
    rw [Checked.all_eq_ok_iff, List.map_map]
    apply List.map_congr_left
    intro e he
    obtain ⟨item, -, passed⟩ : ∃ item ∈ items, StoredEntry.ofDatum item = .ok e := by
      rw [← List.mem_map, read]
      exact List.mem_map_of_mem he
    exact StoredEntry.rereads_ofDatum item e passed
  | _ => cases h

/-- A match is read exactly when its entries, all its fields and its note pass. -/
theorem ofFields_eq_ok_iff {fields : List (Text × Datum α)} {r : StoredMatch α} :
    ofFields fields = .ok r ↔
      Check.fieldOr fields "entries".toList [] checkEntries = .ok r.entries ∧ Passes fields r ∧
        Check.fieldOr fields "note".toList [] checkNote = .ok r.note := by
  constructor
  · intro h
    obtain ⟨entries, passes⟩ := passes_of_ofChecked h
    refine ⟨entries, passes, ?_⟩
    rw [ofFields, entries, ofChecked_of_passes passes] at h
    cases note : Check.fieldOr fields "note".toList [] checkNote with
    | error found =>
      rw [note] at h
      cases h
    | ok t =>
      rw [note] at h
      exact congrArg (fun m => Except.ok m.note) (Except.ok.inj h)
  · rintro ⟨entries, passes, note⟩
    rw [ofFields, entries, ofChecked_of_passes passes, note]
    rfl

/-- What all accepted matches have: grades with one of four codes, a value on a rung of the ladder,
a mode that is listed, and percentages. -/
structure IsLawful (r : StoredMatch α) : Prop where
  tysHome : r.tysHome.code ∈ ['S', 'M', 'L', 'H']
  tysAway : r.tysAway.code ∈ ['S', 'M', 'L', 'H']
  fid : r.fid ∈ Fid.rungs
  mode : r.mode.label ∈ Mode.all.map Mode.label
  conf : Percent.InRange r.conf
  fseHome : Percent.InRange r.fseHome
  fseAway : Percent.InRange r.fseAway

omit [Scalar α] in
theorem inRange_of_fieldOr {fields : List (Text × Datum α)} {name : Text} {n : Int}
    (h : Check.fieldOr fields name 50 checkPercent = .ok n) : Percent.InRange n := by
  apply Check.of_fieldOr h ⟨by decide, by decide⟩
  intro d m read
  obtain ⟨k, -, read⟩ := eq_ok_of_bind read
  exact (Check.percent_eq read).2

theorem Passes.isLawful {fields : List (Text × Datum α)} {r : StoredMatch α}
    (h : Passes fields r) : r.IsLawful where
  tysHome := by cases r.tysHome <;> decide
  tysAway := by cases r.tysAway <;> decide
  fid := Check.of_fieldOr h.fid (by simp [Fid.middle, Fid.rungs]) fun _ _ => mem_rungs_of_checkFid
  mode := List.mem_map_of_mem (by cases r.mode <;> decide)
  conf := inRange_of_fieldOr h.conf
  fseHome := inRange_of_fieldOr h.fseHome
  fseAway := inRange_of_fieldOr h.fseAway

omit [Scalar α] in
theorem checkPercent_fifty : checkPercent (.int 50 : Datum α) = .ok 50 :=
  checkPercent_int ⟨by decide, by decide⟩

theorem Passes.again (onRung : ∀ x ∈ (Fid.rungs : List α), Fid.rungOf? x = some x)
    {fields : List (Text × Datum α)} {r : StoredMatch α} (h : Passes fields r) :
    Passes r.fields r where
  id := Check.fieldOr_again h.id
    (Check.rereads_optional Check.rereads_text fun _ h => by cases h) rfl rfl
  homeTeam := Check.fieldOr_again h.homeTeam rereads_checkTeam (checkTeam_text (Nat.zero_le _)) rfl
  awayTeam := Check.fieldOr_again h.awayTeam rereads_checkTeam (checkTeam_text (Nat.zero_le _)) rfl
  odds := Check.fieldOr_again h.odds Check.rereads_optional_odds rfl rfl
  conf := Check.fieldOr_again h.conf rereads_checkPercent checkPercent_fifty rfl
  mode := Check.fieldOr_again h.mode rereads_checkMode
    (checkMode_text (Mode.ofLabel?_label _)) rfl
  tysHome := Check.fieldOr_again h.tysHome rereads_checkTys rfl rfl
  tysAway := Check.fieldOr_again h.tysAway rereads_checkTys rfl rfl
  fid := Check.fieldOr_again h.fid (rereads_checkFid onRung)
    (checkFid_real (onRung _ (by simp [Fid.middle, Fid.rungs]))) rfl
  fseHome := Check.fieldOr_again h.fseHome rereads_checkPercent checkPercent_fifty rfl
  fseAway := Check.fieldOr_again h.fseAway rereads_checkPercent checkPercent_fifty rfl

def IsAccepted (r : StoredMatch α) : Prop := ∃ d, ofDatum d = .ok r

theorem IsAccepted.isLawful {r : StoredMatch α} (h : r.IsAccepted) : r.IsLawful := by
  obtain ⟨d, read⟩ := h
  cases d with
  | object fields => exact (ofFields_eq_ok_iff.mp read).2.1.isLawful
  | _ => cases read

theorem rereads_ofDatum (onRung : ∀ x ∈ (Fid.rungs : List α), Fid.rungOf? x = some x) :
    Check.Rereads (ofDatum (α := α)) fun r => .object r.fields := by
  intro d r h
  cases d with
  | object fields =>
    obtain ⟨entries, passes, note⟩ := ofFields_eq_ok_iff.mp h
    exact ofFields_eq_ok_iff.mpr ⟨Check.fieldOr_again entries rereads_checkEntries rfl rfl,
      passes.again onRung, Check.fieldOr_again note rereads_checkNote
        ((checkNote_of_text []).trans rfl) rfl⟩
  | _ => cases h

end StoredMatch

namespace Team

def fieldsUnder (id name samples rating : String) (p : Team α) : List (Text × Datum α) :=
  [ (id.toList, .text p.id),
    (name.toList, .text p.name),
    ("abbreviations".toList, .list (p.abbreviations.map .text)),
    (samples.toList, .int p.totalSamples),
    (rating.toList, .real p.avgRep) ]

def fields (p : Team α) : List (Text × Datum α) :=
  fieldsUnder "team_id" "team_name" "total_samples" "avg_rep" p

def camelFields (p : Team α) : List (Text × Datum α) :=
  fieldsUnder "teamId" "teamName" "totalSamples" "avgRep" p

variable [Coercion α]

structure Passes (fields : List (Text × Datum α)) (p : Team α) : Prop where
  abbreviations : readAbbreviations ((fields.lookup "abbreviations".toList).getD .null) =
    .ok p.abbreviations
  id : requiredEither fields "teamId".toList "team_id".toList checkName = .ok p.id
  name : requiredEither fields "teamName".toList "team_name".toList checkName = .ok p.name
  totalSamples : eitherOr fields "totalSamples".toList "total_samples".toList 0 checkSamples =
    .ok p.totalSamples
  avgRep : eitherOr fields "avgRep".toList "avg_rep".toList 0.5 checkRating = .ok p.avgRep

theorem ofFields_eq_ok_iff {fields : List (Text × Datum α)} {p : Team α} :
    ofFields fields = .ok p ↔ Passes fields p := by
  constructor
  · intro h
    obtain ⟨abbreviations, listed, h⟩ := eq_ok_of_bind h
    have checked := RowError.eq_ok_of_mapError h
    split at checked
    next =>
      obtain ⟨id, hid, checked⟩ := eq_ok_of_bind checked
      obtain ⟨name, hname, checked⟩ := eq_ok_of_bind checked
      obtain ⟨samples, hsamples, checked⟩ := eq_ok_of_bind checked
      obtain ⟨rating, hrating, checked⟩ := eq_ok_of_bind checked
      cases checked
      exact ⟨listed, hid, hname, hsamples, hrating⟩
    next => cases checked
  · rintro ⟨listed, id, name, samples, rating⟩
    rw [ofFields, listed, id, name, samples, rating]
    rfl

omit [Scalar α] in
theorem rereads_checkSamples : Check.Rereads (checkSamples (α := α)) .int := by
  refine Check.rereads_of_unchanged Coercion.integer_int fun n m h => ?_
  split at h <;> cases h
  rfl

theorem rereads_checkRating : Check.Rereads (checkRating (α := α)) .real := by
  refine Check.rereads_of_unchanged Coercion.number_real fun x y h => ?_
  split at h
  · cases h
  · split at h <;> cases h
    rfl

omit [Coercion α] in
theorem trimmed_of_readAbbreviations {d : Datum α} {names : List Text}
    (h : readAbbreviations d = .ok names) :
    ∀ name ∈ names, Text.trim name = name ∧ name.isEmpty = false := by
  obtain ⟨items, rfl⟩ : ∃ items : List (Datum α), names = items.filterMap fun item =>
      if (Text.trim item.content).isEmpty then none else some (Text.trim item.content) := by
    cases d <;> cases h <;> exact ⟨_, rfl⟩
  intro name listed
  obtain ⟨item, -, read⟩ := List.mem_filterMap.mp listed
  split at read
  next => cases read
  next some_left =>
    cases read
    exact ⟨Text.trim_trim _, Bool.eq_false_iff.mpr some_left⟩

omit [Coercion α] in
theorem readAbbreviations_again {d : Datum α} {names : List Text}
    (h : readAbbreviations d = .ok names) :
    readAbbreviations (.list (names.map (Datum.text (α := α)))) = .ok names := by
  have trimmed := trimmed_of_readAbbreviations h
  change Except.ok ((names.map Datum.text).filterMap _) = _
  rw [List.filterMap_map]
  apply congrArg
  refine (List.filterMap_congr fun name listed => ?_).trans List.filterMap_some
  obtain ⟨same, named⟩ := trimmed name listed
  change (if (Text.trim name).isEmpty then none else some (Text.trim name)) = _
  rw [same, named, if_neg Bool.false_ne_true]

theorem Passes.again {fields : List (Text × Datum α)} {p : Team α} (h : Passes fields p)
    (usual : checkRating (.real (0.5 : α)) = .ok 0.5) :
    Passes p.fields p ∧ Passes p.camelFields p := by
  have none : checkSamples (.int 0 : Datum α) = .ok 0 := by
    rw [checkSamples, Coercion.integer_int]
    rfl
  constructor
  all_goals
    exact ⟨readAbbreviations_again h.abbreviations,
      requiredEither_again h.id rereads_checkName rfl,
      requiredEither_again h.name rereads_checkName rfl,
      eitherOr_again h.totalSamples rereads_checkSamples none rfl,
      eitherOr_again h.avgRep rereads_checkRating usual rfl⟩

end Team

/-- A match or a row that was accepted is accepted again when it is written out, a row under either
spelling, and is read as the same; and an accepted match is lawful. -/
theorem accepted_again [Coercion Float] :
    (∀ (d : Datum Float) (r : StoredMatch Float), StoredMatch.ofDatum d = .ok r →
      StoredMatch.ofDatum (.object r.fields) = .ok r ∧ r.IsLawful) ∧
    ∀ (d : Datum Float) (p : Team Float), Team.ofDatum d = .ok p →
      Team.ofDatum (.object p.fields) = .ok p ∧ Team.ofDatum (.object p.camelFields) = .ok p := by
  constructor
  · intro d r read
    exact ⟨StoredMatch.rereads_ofDatum Fid.rungOf?_of_mem_rungs d r read,
      StoredMatch.IsAccepted.isLawful ⟨d, read⟩⟩
  · intro d p read
    cases d with
    | object fields =>
      have usual : Team.checkRating (.real (0.5 : Float)) = .ok 0.5 := by
        rw [Team.checkRating, Coercion.number_real]
        rfl
      obtain ⟨words, camel⟩ := (Team.ofFields_eq_ok_iff.mp read).again usual
      exact ⟨Team.ofFields_eq_ok_iff.mpr words, Team.ofFields_eq_ok_iff.mpr camel⟩
    | _ => cases read

/-- A match as someone typed it: blanks around a grade, a percentage as text, a value beside its
rung. -/
def typedMatch : Datum Float := .object [
  ("entries".toList, .list [
    .object [("name".toList, .text "胜".toList), ("odds".toList, .real 8.1)]]),
  ("conf".toList, .text " 35.0 ".toList),
  ("tys_home".toList, .text " h ".toList),
  ("fid".toList, .real 0.7500000001)]

/-- A row under the other spelling, with blank and missing abbreviations. -/
def typedRow : Datum Float := .object [
  ("teamId".toList, .text "afc".toList),
  ("teamName".toList, .text " 阿森纳 ".toList),
  ("abbreviations".toList, .list [.text "a".toList, .text " ".toList, .null, .text "b ".toList]),
  ("total_samples".toList, .bool true)]

theorem accepted_again_typed :
    ∃ r p, StoredMatch.ofDatum typedMatch = .ok r ∧ Team.ofDatum typedRow = .ok p ∧
      (StoredMatch.ofDatum (.object r.fields) = .ok r ∧ r.IsLawful) ∧
      Team.ofDatum (.object p.fields) = .ok p ∧ Team.ofDatum (.object p.camelFields) = .ok p := by
  let r : StoredMatch Float :=
    ⟨none, [], [], [⟨"胜".toList, some 8.1⟩], none, 35, .standard, .heavy, .medium, 0.75, 50, 50,
      []⟩
  let p : Team Float :=
    ⟨"afc".toList, "阿森纳".toList, ["a".toList, "b".toList], 1, 0.5⟩
  have read : StoredMatch.ofDatum typedMatch = .ok r ∧ Team.ofDatum typedRow = .ok p := by decide
  exact ⟨r, p, read.1, read.2, accepted_again.1 _ r read.1, accepted_again.2 _ p read.2⟩

end Wager
