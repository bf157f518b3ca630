import Wager.Text.CaseTable

/-!
# Letter case

Full lower- and upper-casing, in which one letter may become several, the position-preserving lower
case that scanning uses, and the comparison of a keyword letter with a typed one.
-/

namespace Wager.Text

def lowerChar (c : Char) : Text :=
  if c.toNat < 0x80 then [if c.isUpper then Char.ofNat (c.toNat + 32) else c]
  else if c == '\u0130' then ['i', '\u0307']
  else [CaseRange.apply lowerRanges c]

def upperChar (c : Char) : Text :=
  if c.toNat < 0x80 then [if c.isLower then Char.ofNat (c.toNat - 32) else c]
  else
    match longUppers.lookup c with
    | some long => long
    | none => [CaseRange.apply upperRanges c]

def inRanges (ranges : List (Nat × Nat)) (c : Char) : Bool :=
  ranges.any fun (first, last) => first ≤ c.toNat && c.toNat ≤ last

/-- Whether the nearest character that a sigma does not skip is a cased letter. -/
def meetsCased (near : Text) : Bool :=
  match near.find? (!inRanges skippedRanges ·) with
  | some c => inRanges casedRanges c
  | none => false

/-- Lowers a text of which `before` was read already, nearest character first.  A capital sigma
that ends a word becomes the final small sigma. -/
def lowerFrom (before : Text) : Text → Text
  | [] => []
  | c :: rest =>
    if c == '\u03A3' then
      (if meetsCased before && !meetsCased rest then '\u03C2' else '\u03C3') ::
        lowerFrom (c :: before) rest
    else lowerChar c ++ lowerFrom (c :: before) rest

def lower (t : Text) : Text := lowerFrom [] t

def upper (t : Text) : Text := t.flatMap upperChar

/-- Lowers character by character and keeps every character whose lower-case form is longer, so that
positions stay the same. -/
def lowerInPlace (t : Text) : Text :=
  t.map fun c =>
    match lowerChar c with
    | [small] => small
    | _ => c

@[simp] theorem length_lowerInPlace (t : Text) : (lowerInPlace t).length = t.length := by
  simp [lowerInPlace]

/-- The lower-case text without its blanks: the form in which spellings are looked up. -/
def compact (t : Text) : Text := squeeze (lower (trim t))

/-- Latin letters as keywords see them: the ASCII letters and the four other characters that fold
to one of them. -/
def isLatinLetter (c : Char) : Bool :=
  c.isAlpha || c == '\u0130' || c == '\u0131' || c == '\u017F' || c == '\u212A'

/-- Whether a typed character counts as the small letter `k` of a keyword, in either case or as one
of the letters that fold to it. -/
def sameLetter (k c : Char) : Bool :=
  c == k || (c.isUpper && Char.ofNat (c.toNat + 32) == k) ||
    (k == 's' && c == '\u017F') || (k == 'k' && c == '\u212A') ||
    (k == 'i' && (c == '\u0130' || c == '\u0131'))

/-- What follows a keyword that stands at the front of the text in any letter case. -/
def afterWord? : Text → Text → Option Text
  | [], t => some t
  | _ :: _, [] => none
  | k :: word, c :: rest => if sameLetter k c then afterWord? word rest else none

end Wager.Text
