import Wager.Datum

/-!
# Percentages

Confidence and FSE are typed as fractions or as percentages and kept as whole percentages.  A
confidence between one and ten may mean tenths; every reading of one comes with a remark.
-/

namespace Wager

inductive ConfidenceRemark where
  | tooLarge (typed : Text)
  | readAsTenths (typed : Text) (percent : Int)
  | ambiguous (typed : Text) (percent : Int)
  deriving DecidableEq, Repr

def ConfidenceRemark.message : ConfidenceRemark → Text
  | .tooLarge typed => "conf ".toList ++ typed ++ " is above 100 and was ignored".toList
  | .readAsTenths typed percent =>
    "conf ".toList ++ typed ++ " read as ".toList ++ Text.ofInt percent ++ ['%']
  | .ambiguous typed percent =>
    "conf ".toList ++ typed ++ " is ambiguous, read as ".toList ++ Text.ofInt percent ++ ['%']

structure ConfidenceReading where
  percent : Option Int
  remark : Option ConfidenceRemark
  deriving DecidableEq, Repr

namespace Percent

variable {α : Type} [Scalar α]

/-- A confidence.  Up to one it is a fraction, from ten to a hundred a percentage; in between it is
read as tenths where that lands from 10 to 95, else as it stands. -/
def readConfidence (typed : Text) (value : Option α) : ConfidenceReading :=
  match value with
  | none => ⟨none, none⟩
  | some x =>
    if x < 0.0 then ⟨none, none⟩
    else if x ≤ 1.0 then ⟨some (Scalar.roundHalfUp (x * 100.0)), none⟩
    else if 10.0 ≤ x ∧ x ≤ 100.0 then ⟨some (Scalar.roundHalfUp x), none⟩
    else if 100.0 < x then ⟨none, some (.tooLarge typed)⟩
    else
      let tenths := Scalar.roundHalfUp (x * 10.0)
      if 10 ≤ tenths ∧ tenths ≤ 95 then ⟨some tenths, some (.readAsTenths typed tenths)⟩
      else
        let plain := Scalar.roundHalfUp x
        ⟨some plain, some (.ambiguous typed plain)⟩

/-- An FSE.  Up to one it is a fraction, up to a hundred a percentage, above that nothing. -/
def readFse (value : Option α) : Option Int :=
  match value with
  | none => none
  | some x =>
    if x < 0.0 then none
    else if x ≤ 1.0 then some (Scalar.roundHalfUp (x * 100.0))
    else if x ≤ 100.0 then some (Scalar.roundHalfUp x)
    else none

def confidenceOf (d : Datum α) : Except Datum.Overflow ConfidenceReading := do
  return readConfidence d.shown (← d.number?)

def fseOf (d : Datum α) : Except Datum.Overflow (Option Int) := do
  return readFse (← d.number?)

end Percent

end Wager
