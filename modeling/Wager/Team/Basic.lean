import Wager.Check.Basic
import Wager.Team.Library

/-!
# Teams

A team with its name, the names under which it is typed, its samples and its rating, and how one is
read from a row that a directory provider hands out.
-/

namespace Wager

open Text

structure Team (α : Type) where
  id : Text
  name : Text
  abbreviations : List Text
  totalSamples : Int
  avgRep : α
  deriving DecidableEq, Repr

/-- The form in which names are compared: trimmed and in lower case. -/
def nameKey (t : Text) : Text := lower (trim t)

/-- The names that are not blank and not in `seen`, each once; letter case makes no difference. -/
def distinctNamesFrom (seen : List Text) : List Text → List Text
  | [] => []
  | raw :: rest =>
    let name := trim raw
    let key := lower name
    if name.isEmpty || seen.contains key then distinctNamesFrom seen rest
    else name :: distinctNamesFrom (key :: seen) rest

def distinctNames (names : List Text) : List Text := distinctNamesFrom [] names

inductive RowError where
  | invalid (faults : List FaultAt)
  /-- The abbreviations are a value that cannot be gone through; `kind` names its type. -/
  | unlistable (kind : String)
  deriving DecidableEq, Repr

def RowError.message : RowError → String
  | .invalid faults => faultsMessage faults
  | .unlistable kind => "'" ++ kind ++ "' object is not iterable"

namespace Team

section

variable {α : Type}

/-- All names of a team, the canonical one first. -/
def aliases (p : Team α) : List Text := distinctNames (p.name :: p.abbreviations)

end

variable {α : Type} [Scalar α]

/-- A field that two spellings name, with the spelling in use; the first one wins. -/
def lookupEither (fields : List (Text × Datum α)) (first second : Text) :
    Text × Option (Datum α) :=
  match fields.lookup first with
  | some d => (first, some d)
  | none =>
    match fields.lookup second with
    | some d => (second, some d)
    | none => (first, none)

def requiredEither {β : Type} (fields : List (Text × Datum α)) (first second : Text)
    (check : Datum α → Checked β) : Checked β :=
  match lookupEither fields first second with
  | (name, some d) => (check d).under name
  | (name, none) => .error [⟨[name], .missing⟩]

def eitherOr {β : Type} (fields : List (Text × Datum α)) (first second : Text) (standIn : β)
    (check : Datum α → Checked β) : Checked β :=
  match lookupEither fields first second with
  | (name, some d) => (check d).under name
  | (_, none) => .ok standIn

def checkName [Coercion α] (d : Datum α) : Checked Text := do
  let t ← Coercion.text d
  let t ← Check.atLeast 1 t
  let t := trim t
  if t.isEmpty then .fail (.rule "must not be blank") else .ok t

def checkSamples [Coercion α] (d : Datum α) : Checked Int := do
  let n ← Coercion.integer d
  if n < 0 then .fail (.below 0) else .ok n

def checkRating [Coercion α] (d : Datum α) : Checked α := do
  let x ← Coercion.number d
  if !(x ≤ 1.0) then .fail (.above 1) else if !(0.0 ≤ x) then .fail (.below 0) else .ok x

/-- The names a row lists: the texts of its items without absent and blank ones. -/
def readAbbreviations : Datum α → Except RowError (List Text)
  | .int _ => .error (.unlistable "int")
  | .real _ => .error (.unlistable "float")
  | .bool _ => .error (.unlistable "bool")
  | d => .ok (d.elements.filterMap fun item =>
      let name := trim item.content
      if name.isEmpty then none else some name)

def ofFields [Coercion α] (fields : List (Text × Datum α)) : Except RowError (Team α) := do
  let abbreviations ← readAbbreviations ((fields.lookup "abbreviations".toList).getD .null)
  let id := requiredEither fields "teamId".toList "team_id".toList checkName
  let name := requiredEither fields "teamName".toList "team_name".toList checkName
  let totalSamples := eitherOr fields "totalSamples".toList "total_samples".toList 0 checkSamples
  let avgRep := eitherOr fields "avgRep".toList "avg_rep".toList 0.5 checkRating
  let checked : Checked (Team α) :=
    match id.faults ++ name.faults ++ totalSamples.faults ++ avgRep.faults with
    | [] => do
      return { id := ← id, name := ← name, abbreviations, totalSamples := ← totalSamples,
               avgRep := ← avgRep }
    | found => .error found
  checked.mapError .invalid

def ofDatum [Coercion α] : Datum α → Except RowError (Team α)
  | .object fields => ofFields fields
  | _ => .error (.invalid [⟨[], .notFields⟩])

def ofLibrary (t : LibraryTeam) : Team α :=
  ⟨t.id, t.name, distinctNames (t.name :: t.aliases), 0, 0.5⟩

inductive SeedError where
  | blankName
  deriving DecidableEq, Repr

def SeedError.message : SeedError → String
  | .blankName => "team_name must not be blank"

/-- A team that was typed in.  A curated team brings its names along; any other is
known by its own name alone. -/
def seed (id name : Text) : Except SeedError (Team α) :=
  let clean := trim name
  if clean.isEmpty then .error .blankName
  else
    let abbreviations :=
      match teamLibrary.find? fun t => nameKey t.name == nameKey clean with
      | some t => distinctNames (clean :: t.aliases)
      | none => [nameKey clean]
    .ok ⟨id, clean, abbreviations, 0, 0.5⟩

end Team

/-- A row of a directory provider: a team as it is, or a value that has to be checked. -/
inductive ProviderRow (α : Type) where
  | team (p : Team α)
  | loose (d : Datum α)

def ProviderRow.toTeam {α : Type} [Scalar α] [Coercion α] :
    ProviderRow α → Except RowError (Team α)
  | .team p => .ok p
  | .loose d => Team.ofDatum d

end Wager
