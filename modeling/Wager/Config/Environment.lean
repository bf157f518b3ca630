import Wager.Config.Basic
import Wager.Decimal.Numeral
import Wager.Text.Casing
import Wager.Text.Quoted

/-!
# Settings from the environment

Settings can be given as variables whose names begin with the application's name.  A variable that
is not set keeps its default; one that spells no number is an error.
-/

namespace Wager

namespace Config

/-- A reader of files of variables: the variables after a file is read, where those set before stay
as they are. -/
structure FileReader where
  load : List (Text × Text) → Text → List (Text × Text)
  lookup_load {environment : List (Text × Text)} {name value : Text}
    (set : environment.lookup name = some value) (file : Text) :
    (load environment file).lookup name = some value

inductive SettingError where
  | number (value : Text)
  | integer (value : Text)
  | tooManyDigits (count : Nat)
  deriving DecidableEq, Repr

def SettingError.message : SettingError → String
  | .number value => "could not convert string to float: " ++ String.ofList (Text.quoted value)
  | .integer value =>
    "invalid literal for int() with base 10: " ++ String.ofList ((Text.quoted value).take 200)
  | .tooManyDigits count =>
    "Exceeds the limit (4300 digits) for integer string conversion: value has " ++
      toString count ++ " digits; use sys.set_int_max_str_digits() to increase the limit"

def maxDigits : Nat := 4300

def readInteger (value : Text) : Except SettingError Int :=
  match Numeral.readInt? value with
  | some (n, digits) => if maxDigits < digits then .error (.tooManyDigits digits) else .ok n
  | none => .error (.integer value)

variable {α : Type} [Scalar α]

def readNumber (value : Text) : Except SettingError α :=
  match (Numeral.read? value).bind Scalar.ofNumeral? with
  | some x => .ok x
  | none => .error (.number value)

def setting {β : Type} (read : Text → Except SettingError β) (standIn : β) :
    Option Text → Except SettingError β
  | some value => read value
  | none => .ok standIn

def ofVariables (application : Text) (environment : List (Text × Text)) :
    Except SettingError (Config α) := do
  let get := fun (name : String) => environment.lookup (application ++ name.toList)
  let base : Config α := standard
  let aliasCacheSeconds ← setting readNumber base.aliasCacheSeconds (get "ALIAS_CACHE_TTL")
  let defaultConf ← setting readInteger base.defaultConf (get "DEFAULT_CONF")
  let defaultMode := (get "DEFAULT_MODE").getD base.defaultMode
  let defaultTys := Text.upper ((get "DEFAULT_TYS").getD base.defaultTys)
  let defaultFid ← setting readNumber base.defaultFid (get "DEFAULT_FID")
  let defaultFse ← setting readInteger base.defaultFse (get "DEFAULT_FSE")
  let defaultOdds ← setting readNumber base.defaultOdds (get "DEFAULT_ODDS")
  let initialCapital ← setting readNumber base.initialCapital (get "INITIAL_CAPITAL")
  let riskCapRatio ← setting readNumber base.riskCapRatio (get "RISK_CAP_RATIO")
  let kellyDivisor ← setting readNumber base.kellyDivisor (get "KELLY_DIVISOR")
  let maxKellyFraction ← setting readNumber base.maxKellyFraction (get "MAX_KELLY_FRACTION")
  return { aliasCacheSeconds, defaultConf, defaultMode, defaultTys, defaultFid, defaultFse,
           defaultOdds, initialCapital, riskCapRatio, kellyDivisor, maxKellyFraction }

def ofEnvironment (reader : FileReader) (application : Text) (environment : List (Text × Text))
    (file : Option Text) : Except SettingError (Config α) :=
  ofVariables application (file.elim environment (reader.load environment))

theorem ofVariables_congr {environment environment' : List (Text × Text)}
    (same : ∀ name, environment.lookup name = environment'.lookup name) (application : Text) :
    (ofVariables application environment : Except SettingError (Config α)) =
      ofVariables application environment' := by
  simp only [ofVariables, same]

/-- What the environment says about a setting stands in front of what the file says. -/
theorem ofEnvironment_some (reader : FileReader) (application : Text)
    (environment : List (Text × Text)) (file : Text) :
    (ofEnvironment reader application environment (some file) : Except SettingError (Config α)) =
      ofVariables application (environment ++ reader.load environment file) := by
  refine ofVariables_congr (fun name => ?_) application
  rw [List.lookup_append]
  cases set : environment.lookup name with
  | none => rfl
  | some value => exact reader.lookup_load set file

end Config

end Wager
