import Wager.Text.Basic

/-!
# Rounding to decimal places

Quotients are rounded to the nearest integer, a half to the even neighbour, and scaled integers are
written with a fixed number of places.
-/

namespace Wager.Decimal

/-- The integer nearest to `num / den`; a half goes to the even neighbour. -/
def roundQuotient (num den : Nat) : Nat :=
  let q := num / den
  let twice := 2 * (num % den)
  if twice < den || (twice == den && q % 2 == 0) then q else q + 1

def padZeros (width : Nat) (t : Text) : Text := List.replicate (width - t.length) '0' ++ t

/-- The number `units / 10 ^ places` with all its places. -/
def fixedText (places units : Nat) : Text :=
  if places == 0 then Text.ofNat units
  else
    let one := Nat.pow 10 places
    Text.ofNat (units / one) ++ '.' :: padZeros places (Text.ofNat (units % one))

end Wager.Decimal
