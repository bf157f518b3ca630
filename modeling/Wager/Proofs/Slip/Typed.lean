import Wager.Slip.Extraction

/-!
# What a slip states, as typed

Taking the parameters out of a slip has two parts: the keywords and their values are found and cut
out, and the values are read.  How values are read depends on nothing but the values.
-/

namespace Wager

open Text

/-- The values that the keywords of a slip state, as typed. -/
structure Typed where
  remark : Text
  mode : Option Mode
  fseSided : List (Side × List Text)
  fseBoth : List (List Text)
  tysSided : List (Side × Tys)
  tysBoth : List (List Tys)
  conf : List (List Text)
  odds : List (List Text)
  fid : List (List Text)

namespace Typed

variable {α : Type} [Scalar α]

def params (v : Typed) : Parameters α :=
  let groups := (v.odds.map Extraction.prices).filter (!·.isEmpty)
  { conf := (Extraction.confidences α v.conf.flatten).filterMap (·.percent)
    odds := groups.flatten
    oddsGroups := groups
    fse := Extraction.fseValues α v.fseBoth.flatten
    fseHome := Extraction.fseValues α (Extraction.ofSide .home v.fseSided).flatten
    fseAway := Extraction.fseValues α (Extraction.ofSide .away v.fseSided).flatten
    tys := v.tysBoth.flatten
    tysHome := Extraction.ofSide .home v.tysSided
    tysAway := Extraction.ofSide .away v.tysSided
    fid := Extraction.fidRungs v.fid.flatten
    mode := v.mode
    remark := v.remark }

def remarks (α : Type) [Scalar α] (v : Typed) : List ConfidenceRemark :=
  (Extraction.confidences α v.conf.flatten).filterMap (·.remark)

end Typed

namespace Extraction

/-- The values that a slip states, and the slip with a space for each statement. -/
def typed (t : Text) : Typed × Text :=
  let (remark, t) := takeRemark t
  let (mode, t) := takeMode t
  let (fseSided, t) := takeSided "fse".toList Keyword.numbers? t
  let (fseBoth, t) := (Keyword.numbersAfter fseWord).sweep t
  let (tysSided, t) := takeSided "tys".toList Keyword.endingCode? t
  let (tysBoth, t) := Keyword.codesAfter.sweep t
  let (conf, t) := takeNumbers confLead confTrail t
  let (odds, t) := takeNumbers oddsLead oddsTrail t
  let (fid, t) := takeNumbers fidLead fidTrail t
  ({ remark, mode, fseSided, fseBoth, tysSided, tysBoth, conf, odds, fid }, t)

theorem ofText_eq_typed {α : Type} [Scalar α] (t : Text) : (ofText t : Extraction α) =
    { params := (typed t).1.params
      remarks := (typed t).1.remarks α
      residual := trim (collapse (typed t).2) } := by
  simp only [ofText, typed, Typed.params, Typed.remarks]

end Extraction

end Wager
