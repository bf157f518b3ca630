import Wager.Mode
import Wager.Tys

/-!
# Parameters of a slip

The values that a slip states by keywords, in the order in which they were typed.
-/

namespace Wager

structure Parameters (α : Type) where
  /-- Confidences in percent. -/
  conf : List Int
  /-- All prices in order. -/
  odds : List α
  /-- The prices of each odds keyword. -/
  oddsGroups : List (List α)
  /-- FSE values in percent for both sides, and for either one. -/
  fse : List Int
  fseHome : List Int
  fseAway : List Int
  /-- TYS grades for both sides, and for either one. -/
  tys : List Tys
  tysHome : List Tys
  tysAway : List Tys
  /-- FID values, each on a rung. -/
  fid : List α
  mode : Option Mode
  remark : Text
  deriving DecidableEq, Repr

namespace Parameters

variable {α : Type}

def none : Parameters α where
  conf := []
  odds := []
  oddsGroups := []
  fse := []
  fseHome := []
  fseAway := []
  tys := []
  tysHome := []
  tysAway := []
  fid := []
  mode := Option.none
  remark := []

def hasFseSides (p : Parameters α) : Bool := !p.fseHome.isEmpty || !p.fseAway.isEmpty

def hasTysSides (p : Parameters α) : Bool := !p.tysHome.isEmpty || !p.tysAway.isEmpty

def hasSides (p : Parameters α) : Bool := p.hasFseSides || p.hasTysSides

end Parameters

end Wager
