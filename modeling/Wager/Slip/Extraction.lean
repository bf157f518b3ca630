import Wager.Fid
import Wager.Slip.Keyword
import Wager.Slip.Parameters
import Wager.Slip.Percent

/-!
# Extraction of parameters

The parameters are taken out of a slip one keyword after the other, and every match leaves a blank
behind, so that in the end only team names and entries remain.  A remark runs to the end of the slip
and is cut off first; then come the mode, FSE, TYS, confidence, odds and FID.  Numbers outside a
parameter's range are taken out like the others and dropped.
-/

namespace Wager

open Text

structure Extraction (α : Type) where
  params : Parameters α
  /-- What was remarkable about the confidences, in order. -/
  remarks : List ConfidenceRemark
  /-- What remains, evenly spaced. -/
  residual : Text
  deriving DecidableEq, Repr

namespace Extraction

def remarkMarker : Pattern Unit := fun before t => do
  let rest ← Keyword.word? "remark".toList before t <|> Keyword.word? "note".toList before t <|>
    Keyword.mark? "备注".toList t
  match skipBlanks rest with
  | ':' :: rest => return ((), skipBlanks rest)
  | rest => return ((), rest)

/-- The remark, and the text in front of its marker. -/
def takeRemark (t : Text) : Text × Text :=
  match remarkMarker.find t with
  | some (front, _, remark) => (trim remark, front)
  | none => ([], t)

def isIdeograph (c : Char) : Bool := 0x3400 ≤ c.toNat && c.toNat ≤ 0x9FFF

/-- A word for a mode.  A Latin one is read in any letter case and touches no letter or digit, one
of ideographs touches no other ideograph. -/
def modeWord (w : Text) : Pattern Unit := fun before t => do
  if w.all fun c => c.toNat < 0x80 then
    let rest ← Keyword.word? w before t
    guard (!rest.head?.any Char.isDigit)
    return ((), rest)
  else
    guard (!before.any isIdeograph)
    let rest ← Keyword.mark? w t
    guard (!rest.head?.any isIdeograph)
    return ((), rest)

/-- The mode whose label stands in the text, which is cut out where the lower-case text has it. -/
def takeLabel? (t : Text) : Option (Mode × Text) :=
  let lowered := lower t
  Mode.all.findSome? fun m =>
    (indexOf? m.label lowered).map fun i =>
      (m, t.take i ++ ' ' :: t.drop (i + m.label.length))

def takeAlias? (t : Text) : Option (Mode × Text) :=
  Mode.aliases.findSome? fun (w, m) =>
    ((modeWord w).find t).map fun (front, _, tail) => (m, front ++ ' ' :: tail)

def takeMode (t : Text) : Option Mode × Text :=
  match takeLabel? t <|> takeAlias? t with
  | some (m, rest) => (some m, rest)
  | none => (none, t)

def ofSide {β : Type} (side : Side) (values : List (Side × β)) : List β :=
  values.filterMap fun (s, v) => if s == side then some v else none

/-- The values that stand with their side, on either side of the keyword `w`. -/
def takeSided {β : Type} (w : Text) (value : Text → Option (β × Text)) (t : Text) :
    List (Side × β) × Text :=
  let (behind, t) := (Keyword.sided (Keyword.sideAfter w) value).sweep t
  let (before, t) := (Keyword.sided (Keyword.sideBefore w) value).sweep t
  (behind ++ before, t)

/-- The lists of numbers that stand behind a keyword, then the numbers that stand in front of
one. -/
def takeNumbers (lead : Option Char → Text → Option Text) (trail : Text → Option Text) (t : Text) :
    List (List Text) × Text :=
  let (behind, t) := (Keyword.numbersAfter lead).sweep t
  let (before, t) := (Keyword.numberBefore trail).sweep t
  (behind ++ before, t)

def fseWord (before : Option Char) (t : Text) : Option Text := Keyword.word? "fse".toList before t

def confLead (before : Option Char) (t : Text) : Option Text :=
  Keyword.word? "confidence".toList before t <|> Keyword.word? "conf".toList before t <|>
    Keyword.mark? "信心".toList t

def confTrail (t : Text) : Option Text :=
  Keyword.wordEnd? "confidence".toList t <|> Keyword.wordEnd? "conf".toList t <|>
    Keyword.mark? "信心".toList t

def oddsLead (before : Option Char) (t : Text) : Option Text :=
  Keyword.word? "odds".toList before t <|> Keyword.mark? "赔率".toList t <|> Keyword.mark? ['@'] t

def oddsTrail (t : Text) : Option Text :=
  Keyword.wordEnd? "odds".toList t <|> Keyword.mark? "赔率".toList t

def fidLead (before : Option Char) (t : Text) : Option Text := Keyword.word? "fid".toList before t

def fidTrail (t : Text) : Option Text := Keyword.wordEnd? "fid".toList t

variable {α : Type} [Scalar α]

def fseValues (α : Type) [Scalar α] (typed : List Text) : List Int :=
  typed.filterMap fun t => Percent.readFse (Scalar.ofText? t : Option α)

def confidences (α : Type) [Scalar α] (typed : List Text) : List ConfidenceReading :=
  typed.map fun t => Percent.readConfidence t (Scalar.ofText? t : Option α)

def prices (typed : List Text) : List α :=
  typed.filterMap fun t => (Scalar.ofText? t).filter fun x => 1.0 < x

def fidRungs (typed : List Text) : List α :=
  typed.map fun t => ((Scalar.ofText? t).map Fid.snap).getD Fid.middle

def ofText (t : Text) : Extraction α :=
  let (remark, t) := takeRemark t
  let (mode, t) := takeMode t
  let (fseSided, t) := takeSided "fse".toList Keyword.numbers? t
  let (fseBoth, t) := (Keyword.numbersAfter fseWord).sweep t
  let (tysSided, t) := takeSided "tys".toList Keyword.endingCode? t
  let (tysBoth, t) := Keyword.codesAfter.sweep t
  let (confTyped, t) := takeNumbers confLead confTrail t
  let (oddsTyped, t) := takeNumbers oddsLead oddsTrail t
  let (fidTyped, t) := takeNumbers fidLead fidTrail t
  let readings := confidences α confTyped.flatten
  let groups := (oddsTyped.map prices).filter (!·.isEmpty)
  { params :=
      { conf := readings.filterMap (·.percent)
        odds := groups.flatten
        oddsGroups := groups
        fse := fseValues α fseBoth.flatten
        fseHome := fseValues α (ofSide .home fseSided).flatten
        fseAway := fseValues α (ofSide .away fseSided).flatten
        tys := tysBoth.flatten
        tysHome := ofSide .home tysSided
        tysAway := ofSide .away tysSided
        fid := fidRungs fidTyped.flatten
        mode
        remark }
    remarks := readings.filterMap (·.remark)
    residual := trim (collapse t) }

end Extraction

end Wager
