import Wager.Text.Basic

/-!
# Normal form of typed text

Slips mix full-width and half-width punctuation.  Everything behind this module sees half-width
marks, one kind of dash and quote, single spaces and no blank at either end.
-/

namespace Wager.Text

def halfWidth (c : Char) : Char :=
  match c with
  | '，' => ','
  | '；' => ';'
  | '。' => '.'
  | '：' => ':'
  | '（' => '('
  | '）' => ')'
  | '／' => '/'
  | '“' => '"'
  | '”' => '"'
  | '‘' => '\''
  | '’' => '\''
  | '—' => '-'
  | '–' => '-'
  | '－' => '-'
  | '﹣' => '-'
  | '−' => '-'
  | '　' => ' '
  | other => other

/-- Half-width marks, single spaces, trimmed. -/
def normalize (t : Text) : Text := trim (collapse (t.map halfWidth))

def dropBlanksBefore (mark : Char) (t : Text) : Text :=
  t.foldr (fun c rest => if isBlank c && rest.head? == some mark then rest else c :: rest) []

/-- Removes the blanks behind a mark; `behind` says that the last character kept was the mark. -/
def dropBlanksBehind (mark : Char) (behind : Bool) : Text → Text
  | [] => []
  | c :: rest =>
    if behind && isBlank c then dropBlanksBehind mark true rest
    else c :: dropBlanksBehind mark (c == mark) rest

def dropBlanksAfter (mark : Char) (t : Text) : Text := dropBlanksBehind mark false t

/-- Writes every comma directly behind what precedes it and with one space after it. -/
def spaceCommas (t : Text) : Text :=
  (dropBlanksAfter ',' (dropBlanksBefore ',' t)).flatMap fun c =>
    if c == ',' then [',', ' '] else [c]

def isSeparator (c : Char) : Bool := c == ',' || c == ';' || isBlank c

/-- The normal form of an entry's name: evenly spaced commas and no separator at either end. -/
def normalizeName (t : Text) : Text := trimWhere isSeparator (spaceCommas (normalize t))

end Wager.Text
