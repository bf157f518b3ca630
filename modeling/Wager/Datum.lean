import Wager.Scalar.Basic
import Wager.Text.Quoted

/-!
# Loosely typed values

Odds, names and directory rows arrive from outside with whatever value their sender put there.
A `Datum` is such a value; this module says how one is read as a number, as a text or as nothing.
-/

namespace Wager

inductive Datum (α : Type) where
  | null
  | bool (value : Bool)
  | int (value : Int)
  | real (value : α)
  | text (value : Text)
  | list (items : List (Datum α))
  | object (fields : List (Text × Datum α))

namespace Datum

inductive Overflow where
  | integerTooLarge
  deriving DecidableEq, Repr

def Overflow.message : Overflow → String
  | .integerTooLarge => "int too large to convert to float"

variable {α : Type} [Scalar α]

mutual

def literal : Datum α → Text
  | .null => "None".toList
  | .bool true => "True".toList
  | .bool false => "False".toList
  | .int n => Text.ofInt n
  | .real x => Scalar.text x
  | .text t => Text.quoted t
  | .list items => '[' :: Text.join [',', ' '] (literals items) ++ [']']
  | .object fields => '\x7b' :: Text.join [',', ' '] (fieldLiterals fields) ++ ['\x7d']

def literals : List (Datum α) → List Text
  | [] => []
  | item :: rest => literal item :: literals rest

def fieldLiterals : List (Text × Datum α) → List Text
  | [] => []
  | (key, value) :: rest =>
    (Text.quoted key ++ ':' :: ' ' :: literal value) :: fieldLiterals rest

end

def shown : Datum α → Text
  | .text t => t
  | other => literal other

def content : Datum α → Text
  | .null => []
  | other => shown other

/-- Whether a value counts as nothing: absent, false, zero or empty. -/
def isVoid : Datum α → Bool
  | .null => true
  | .bool b => !b
  | .int n => n == 0
  | .real x => Scalar.isZero x
  | .text t => t.isEmpty
  | .list items => items.isEmpty
  | .object fields => fields.isEmpty

def orElse (first second : Datum α) : Datum α := if first.isVoid then second else first

def label (d : Datum α) : Text := if d.isVoid then [] else d.shown

/-- The finite number a value spells, if it spells one.  Truth values are no numbers, and an integer
beyond the range of the scalars is an error. -/
def number? : Datum α → Except Overflow (Option α)
  | .int n =>
    match Scalar.ofInt? n with
    | some x => .ok (some x)
    | none => .error .integerTooLarge
  | .real x => .ok (Scalar.finite? x)
  | .text t => .ok (Scalar.ofText? t)
  | _ => .ok none

def numberOr (d : Datum α) (fallback : α) : Except Overflow α := do
  return (← d.number?).getD fallback

def field (d : Datum α) (name : Text) : Datum α :=
  match d with
  | .object fields => (fields.lookup name).getD .null
  | _ => .null

/-- The values met when going through a list, a text or the keys of an object. -/
def elements : Datum α → List (Datum α)
  | .list items => items
  | .text t => t.map fun c => .text [c]
  | .object fields => fields.map fun (key, _) => .text key
  | _ => []

def ofOption : Option α → Datum α
  | some x => .real x
  | none => .null

end Datum

end Wager
