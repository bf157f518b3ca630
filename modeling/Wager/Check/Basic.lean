import Wager.Datum

/-!
# Checking fields

Values from outside are checked field by field.  A field is first brought to its type, in whatever
way the coercions allow, then to its rules; every field that fails leaves one fault with the path to
it, and a value passes when there is none.
-/

namespace Wager

inductive Fault where
  | missing
  | notText
  | tooShort (least : Nat)
  | tooLong (most : Nat)
  | notInteger
  | notIntegerText
  | fractional
  | notFinite
  | integerSize
  | notNumber
  | notNumberText
  | notGreater (bound : Nat)
  | below (bound : Nat)
  | above (bound : Nat)
  | notList
  | notInstance (name : String)
  | notFields
  /-- A rule of the field itself, with its wording. -/
  | rule (wording : String)
  deriving DecidableEq, Repr

namespace Fault

def characters (n : Nat) : String := toString n ++ (if n == 1 then " character" else " characters")

def wording : Fault → String
  | .missing => "Field required"
  | .notText => "Input should be a valid string"
  | .tooShort least => "String should have at least " ++ characters least
  | .tooLong most => "String should have at most " ++ characters most
  | .notInteger => "Input should be a valid integer"
  | .notIntegerText =>
    "Input should be a valid integer, unable to parse string as an integer"
  | .fractional => "Input should be a valid integer, got a number with a fractional part"
  | .notFinite => "Input should be a finite number"
  | .integerSize => "Unable to parse input string as an integer, exceeded maximum size"
  | .notNumber => "Input should be a valid number"
  | .notNumberText => "Input should be a valid number, unable to parse string as a number"
  | .notGreater bound => "Input should be greater than " ++ toString bound
  | .below bound => "Input should be greater than or equal to " ++ toString bound
  | .above bound => "Input should be less than or equal to " ++ toString bound
  | .notList => "Input should be a valid list"
  | .notInstance name => "Input should be a valid dictionary or instance of " ++ name
  | .notFields => "Input should be a valid dictionary or object to extract fields from"
  | .rule wording => "Value error, " ++ wording

def kind : Fault → String
  | .missing => "missing"
  | .notText => "string_type"
  | .tooShort _ => "string_too_short"
  | .tooLong _ => "string_too_long"
  | .notInteger => "int_type"
  | .notIntegerText => "int_parsing"
  | .fractional => "int_from_float"
  | .notFinite => "finite_number"
  | .integerSize => "int_parsing_size"
  | .notNumber => "float_type"
  | .notNumberText => "float_parsing"
  | .notGreater _ => "greater_than"
  | .below _ => "greater_than_equal"
  | .above _ => "less_than_equal"
  | .notList => "list_type"
  | .notInstance _ => "model_type"
  | .notFields => "model_attributes_type"
  | .rule _ => "value_error"

end Fault

structure FaultAt where
  path : List Text
  fault : Fault
  deriving DecidableEq, Repr

def FaultAt.message (f : FaultAt) : String :=
  String.ofList (Text.join ['.'] f.path) ++ ": " ++ f.fault.wording ++ " [" ++ f.fault.kind ++ "]"

def faultsMessage (faults : List FaultAt) : String :=
  String.intercalate "; " (faults.map FaultAt.message)

/-- A value that passed its checks, or all its faults. -/
abbrev Checked (β : Type) := Except (List FaultAt) β

namespace Checked

def faults {β : Type} : Checked β → List FaultAt
  | .ok _ => []
  | .error found => found

def fail {β : Type} (fault : Fault) : Checked β := .error [⟨[], fault⟩]

def under {β : Type} (step : Text) : Checked β → Checked β
  | .ok value => .ok value
  | .error found => .error (found.map fun f => { f with path := step :: f.path })

/-- All values of a list, or the faults of all of them with their positions. -/
def all {β : Type} (items : List (Checked β)) : Checked (List β) :=
  match (items.zipIdx.flatMap fun (item, i) => (item.under (Text.ofNat i)).faults) with
  | [] => items.mapM id
  | found => .error found

end Checked

/-- How a field of each type takes a value: one of its own type as it is, any other one as far as it
can be brought to that type. -/
class Coercion (α : Type) where
  text : Datum α → Checked Text
  number : Datum α → Checked α
  integer : Datum α → Checked Int
  text_text (t : Text) : text (.text t) = .ok t
  number_real (x : α) : number (.real x) = .ok x
  integer_int (n : Int) : integer (.int n) = .ok n

attribute [simp] Coercion.text_text Coercion.number_real Coercion.integer_int

namespace Check

variable {α : Type}

def atLeast (least : Nat) (t : Text) : Checked Text :=
  if t.length < least then .fail (.tooShort least) else .ok t

def atMost (most : Nat) (t : Text) : Checked Text :=
  if most < t.length then .fail (.tooLong most) else .ok t

def percent (n : Int) : Checked Int :=
  if 100 < n then .fail (.above 100) else if n < 0 then .fail (.below 0) else .ok n

def optional {β : Type} (check : Datum α → Checked β) : Datum α → Checked (Option β)
  | .null => .ok none
  | d => (check d).map some

def odds [Scalar α] [Coercion α] (d : Datum α) : Checked α := do
  let x ← Coercion.number d
  if 1.0 < x then .ok x else .fail (.notGreater 1)

def fieldOr {β : Type} (fields : List (Text × Datum α)) (name : Text) (standIn : β)
    (check : Datum α → Checked β) : Checked β :=
  match fields.lookup name with
  | some d => (check d).under name
  | none => .ok standIn

def required {β : Type} (fields : List (Text × Datum α)) (name : Text)
    (check : Datum α → Checked β) : Checked β :=
  match fields.lookup name with
  | some d => (check d).under name
  | none => .error [⟨[name], .missing⟩]

end Check

end Wager
