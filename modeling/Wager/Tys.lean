import Wager.Scalar.Basic

/-!
# TYS codes

The four grades of a side, from small to heavy, each written as one letter.
-/

namespace Wager

inductive Tys where
  | small
  | medium
  | large
  | heavy
  deriving DecidableEq, Repr

namespace Tys

def all : List Tys := [.small, .medium, .large, .heavy]

def code : Tys → Char
  | .small => 'S'
  | .medium => 'M'
  | .large => 'L'
  | .heavy => 'H'

def ofCode? (t : Text) : Option Tys := all.find? fun g => t == [g.code]

@[simp] theorem ofCode?_code (g : Tys) : ofCode? [g.code] = some g := by
  cases g <;> rfl

variable {α : Type} [Scalar α]

def factor : Tys → α
  | .small => 0.94
  | .medium => 1.0
  | .large => 1.04
  | .heavy => 1.08

end Tys

end Wager
