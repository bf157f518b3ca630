/-!
# Text

A text is the list of its code points, so a length, a position or a span counts code points.
This module holds what is the same for every reader of slips: blanks, trimming, cutting into words,
searching and replacing.
-/

namespace Wager

abbrev Text := List Char

namespace Text

/-- The characters that separate words: the ASCII and Unicode spaces, line and paragraph ends, and
the four information separators. -/
def isBlank (c : Char) : Bool :=
  let n := c.toNat
  (0x09 ≤ n && n ≤ 0x0D) || (0x1C ≤ n && n ≤ 0x20) || n == 0x85 || n == 0xA0 || n == 0x1680 ||
    (0x2000 ≤ n && n ≤ 0x200A) || n == 0x2028 || n == 0x2029 || n == 0x202F || n == 0x205F ||
    n == 0x3000

def trimWhere (p : Char → Bool) (t : Text) : Text :=
  ((t.dropWhile p).reverse.dropWhile p).reverse

def trim (t : Text) : Text := trimWhere isBlank t

def skipBlanks (t : Text) : Text := t.dropWhile isBlank

def squeeze (t : Text) : Text := t.filter (!isBlank ·)

/-- Turns runs of blanks into one space each; `inRun` says that the run's space is already out. -/
def collapseFrom (inRun : Bool) : Text → Text
  | [] => []
  | c :: rest =>
    if isBlank c then
      if inRun then collapseFrom true rest else ' ' :: collapseFrom true rest
    else c :: collapseFrom false rest

def collapse (t : Text) : Text := collapseFrom false t

/-- The pieces between the characters satisfying `p`, empty ones included. -/
def splitWhere (p : Char → Bool) : Text → List Text
  | [] => [[]]
  | c :: rest =>
    match splitWhere p rest with
    | [] => [[c]]
    | piece :: more => if p c then [] :: piece :: more else (c :: piece) :: more

theorem splitWhere_ne_nil (p : Char → Bool) (t : Text) : splitWhere p t ≠ [] := by
  cases t with
  | nil => simp [splitWhere]
  | cons c rest =>
    simp only [splitWhere]
    split
    · simp
    · split <;> simp

def words (t : Text) : List Text := (splitWhere isBlank t).filter (!·.isEmpty)

def join (separator : Text) : List Text → Text
  | [] => []
  | [piece] => piece
  | piece :: more => piece ++ separator ++ join separator more

/-- The first position at which `piece` stands in the text. -/
def indexOf? (piece : Text) : Text → Option Nat
  | [] => if piece.isEmpty then some 0 else none
  | c :: rest =>
    if piece.isPrefixOf (c :: rest) then some 0 else (indexOf? piece rest).map (· + 1)

def occursIn (piece t : Text) : Bool := (indexOf? piece t).isSome

/-- Replaces occurrences of `piece` from the left while `skip` characters of the last one remain. -/
def replaceFrom (piece substitute : Text) : Nat → Text → Text
  | _, [] => []
  | skip + 1, _ :: rest => replaceFrom piece substitute skip rest
  | 0, c :: rest =>
    if piece.isPrefixOf (c :: rest) && !piece.isEmpty then
      substitute ++ replaceFrom piece substitute (piece.length - 1) rest
    else c :: replaceFrom piece substitute 0 rest

def replace (piece substitute t : Text) : Text := replaceFrom piece substitute 0 t

def ofNat (n : Nat) : Text := Nat.toDigits 10 n

def ofInt (n : Int) : Text :=
  if n < 0 then '-' :: ofNat n.natAbs else ofNat n.natAbs

end Text

end Wager
