import DataShape.Decimal.Basic

/-!
# From numerals to doubles

A numeral that is no integer of 64 bits is converted to a double. What a reader needs for
this is a `Conversion` : it is given the digits before and behind the point and the
exponent. `nearest` rounds the decimal they stand for, once. `scaled` is quicker and
coarser : it takes as many digits as fit 64 bits and multiplies or divides by powers of
ten, and rounds to a double at each step. Mostly they agree, and where they do not they are
close together.
-/

namespace DataShape

namespace Binary64

/-- The rank nearest to the product of two ranks. -/
def mulRank (v w : Nat) : Nat :=
  roundRank (units v * units w) unitsPerOne

/-- The rank nearest to the quotient of two ranks. -/
def divRank (v w : Nat) : Nat :=
  roundRank (units v * unitsPerOne) (units w)

/-- The rank nearest to a natural number. -/
def natRank (n : Nat) : Nat :=
  roundRank (n * unitsPerOne) 1

end Binary64

namespace Json

open Binary64 (mulRank divRank natRank)

/-- Converts the digits before and behind a point, with a sign and a power of ten, to a double.
There is none if the number is too large. -/
abbrev Conversion :=
  (minus : Bool) → (whole fraction : List Char) → (exponent : Int) → Option Binary64

namespace Conversion

/-- The nearest double, if it is finite. -/
def nearest : Conversion := fun minus whole fraction exponent =>
  let x := (Decimal.ofDigits whole fraction exponent).toBinary64 minus
  if x.isFinite then some x else none

/-! ## Scaling in doubles -/

/-- Digits carry a number on as long as it fits 64 bits. Gives the number and what is left. -/
def gather : Nat → List Char → Nat × List Char
  | n, [] => (n, [])
  | n, c :: cs =>
    let m := 10 * n + Text.digitValue c
    if m < UInt64.size then gather m cs else (n, c :: cs)

/-- The largest power of ten that is a finite double. -/
abbrev tenLimit : Nat := 308

/-- The rank nearest to a power of ten. -/
def tenRank (e : Nat) : Nat :=
  natRank (Nat.pow 10 e)

/-- A rank divided by the largest power of ten this often, unless it is zero before. -/
def shrink : Nat → Nat → Nat
  | 0, w => w
  | k + 1, w => if w = 0 then 0 else shrink k (divRank w (tenRank tenLimit))

/-- A rank times a power of ten, if it is finite. Of a power that is too small for a double the
largest ones that are not are divided by first. -/
def scale (w : Nat) : Int → Option Nat
  | .ofNat e =>
    if tenLimit < e then if w = 0 then some 0 else none
    else if mulRank w (tenRank e) < finiteRanks then some (mulRank w (tenRank e))
    else none
  | .negSucc e =>
    let k := e / tenLimit
    some (divRank (shrink k w) (tenRank (e + 1 - k * tenLimit)))

/-- The leading digits that fit 64 bits, times a power of ten. The digits left of the whole part
count in the power, those left behind the point do not count. -/
def scaled : Conversion := fun minus whole fraction exponent =>
  let (n, wholeLeft) := gather 0 whole
  let (n, fractionLeft) := gather n fraction
  let places : Int := fraction.length - fractionLeft.length
  (scale (natRank n) (exponent + wholeLeft.length - places)).map (Binary64.ofRank minus)

end Conversion

end Json

end DataShape
