import DataShape.Binary64

/-!
# Decimal numbers

A coefficient and a power of ten. Every finite double is one exactly (`ofUnits`),
and every one has a nearest double (`toBinary64`). Exponents far outside the
range of doubles are decided without computing the power.
-/

namespace DataShape

/-- The number `coefficient * 10 ^ exponent`. -/
structure Decimal where
  coefficient : Nat
  exponent : Int
deriving DecidableEq, Repr

namespace Decimal

/-- The decimal written as `whole.fraction` with a power of ten behind it. -/
def ofDigits (whole fraction : List Char) (exponent : Int) : Decimal :=
  ⟨Text.ofDigits (whole ++ fraction), exponent - fraction.length⟩

/-- A count of steps of `2 ^ (-1074)`, exactly. -/
def ofUnits (u : Nat) : Decimal :=
  ⟨u * Nat.pow 5 1074, -1074⟩

/-- The nearest double. A coefficient of zero is zero whatever the exponent ; from `10 ^ 400` on
the result is infinite, and below `2 ^ (-1079)` it is zero. -/
def toBinary64 (negative : Bool) (d : Decimal) : Binary64 :=
  if d.coefficient = 0 then .zero negative
  else match d.exponent with
    | .ofNat e =>
      if 400 ≤ e then .infinite negative
      else .ofRatio negative (d.coefficient * Nat.pow 10 e) 1
    | .negSucc e =>
      if d.coefficient.log2 + 1080 < 3 * (e + 1) then .zero negative
      else .ofRatio negative d.coefficient (Nat.pow 10 (e + 1))

/-- How many digits the coefficient has. -/
def length (d : Decimal) : Nat :=
  (Text.digits d.coefficient).length

/-- Factors of ten move from the coefficient into the exponent, at most `n` of them. -/
def stripUpTo : Nat → Decimal → Decimal
  | 0, d => d
  | n + 1, d =>
    if d.coefficient ≠ 0 ∧ d.coefficient % 10 = 0 then
      stripUpTo n ⟨d.coefficient / 10, d.exponent + 1⟩
    else d

/-- The same number without trailing zeros in the coefficient. -/
def strip (d : Decimal) : Decimal :=
  stripUpTo d.length d

end Decimal

end DataShape
