import DataShape.Text.Digits

/-!
# Doubles

A finite double is a sign and a rank : its place among the non-negative finite
doubles in ascending order. Rank `w` stands for `units w` steps of `2 ^ (-1074)`,
so each finite double is an exact natural number of steps and a sign, and every
comparison and rounding below is done in natural numbers. There is one not-a-number.

`roundRank` takes a quotient of naturals to the nearest rank, an exact tie to the
even one. The exponent of the result is read off the logarithm of the quotient ; a
significand that rounds up to the next power of two carries into the next rank by
itself, since ranks of adjacent exponents are adjacent.

Powers are spelled `Nat.pow`, which is one function whatever algebra is imported.
-/

namespace DataShape

/-- The number of non-negative finite doubles. -/
abbrev finiteRanks : Nat := 2047 * Nat.pow 2 52

/-- A double. -/
inductive Binary64 where
  | nan
  | infinite (negative : Bool)
  | finite (negative : Bool) (rank : Fin finiteRanks)
deriving DecidableEq, Repr

namespace Binary64

/-! ## Exact values -/

/-- How often the significand of rank `w` is doubled to count in steps of `2 ^ (-1074)`. -/
def doublings (w : Nat) : Nat :=
  w / Nat.pow 2 52 - 1

/-- The significand of rank `w`, below `2 ^ 53`. -/
def significand (w : Nat) : Nat :=
  w - doublings w * Nat.pow 2 52

/-- The value of rank `w` in steps of `2 ^ (-1074)`. -/
def units (w : Nat) : Nat :=
  significand w * Nat.pow 2 (doublings w)

/-- The number of steps of `2 ^ (-1074)` in one. -/
abbrev unitsPerOne : Nat := Nat.pow 2 1074

/-- The integer a double stands for, when it stands for one. Both zeros are `0`. -/
def toInt? : Binary64 → Option Int
  | finite negative rank =>
    let u := units rank
    if u % unitsPerOne = 0 then
      some (if negative then -(u / unitsPerOne : Nat) else (u / unitsPerOne : Nat))
    else none
  | _ => none

def isNaN : Binary64 → Bool
  | nan => true
  | _ => false

def isInfinite : Binary64 → Bool
  | infinite _ => true
  | _ => false

def isFinite : Binary64 → Bool
  | finite _ _ => true
  | _ => false

/-- Numeric equality : not-a-number differs from everything, the two zeros are equal. -/
def equal : Binary64 → Binary64 → Bool
  | infinite s, infinite t => s == t
  | finite s v, finite t w => v == w && (s == t || v.val == 0)
  | _, _ => false

/-! ## Rounding to nearest -/

/-- `num / den` to the nearest natural, a tie to the even neighbour. -/
def halfEven (num den : Nat) : Nat :=
  let q := num / den
  let r := num % den
  if 2 * r < den then q
  else if den < 2 * r then q + 1
  else if q % 2 = 0 then q
  else q + 1

/-- The rank nearest to `num / den` steps of `2 ^ (-1074)`. -/
def roundRank (num den : Nat) : Nat :=
  let e := (num / den).log2 - 52
  e * Nat.pow 2 52 + halfEven num (den * Nat.pow 2 e)

/-- A rank with a sign ; a rank past the last finite one is an infinity. -/
def ofRank (negative : Bool) (w : Nat) : Binary64 :=
  if h : w < finiteRanks then finite negative ⟨w, h⟩ else infinite negative

/-- The double nearest to `num / den`. -/
def ofRatio (negative : Bool) (num den : Nat) : Binary64 :=
  ofRank negative (roundRank (num * unitsPerOne) den)

/-- The double nearest to an integer. -/
def ofInt (n : Int) : Binary64 :=
  ofRatio (n < 0) n.natAbs 1

def zero (negative : Bool) : Binary64 :=
  ofRank negative 0

/-! ## Bit patterns -/

/-- The sign bit above the 63 bits of the rank ; every pattern above those of the infinities is
not-a-number. -/
def ofBits (b : UInt64) : Binary64 :=
  let negative := decide (Nat.pow 2 63 ≤ b.toNat)
  let w := b.toNat % Nat.pow 2 63
  if finiteRanks < w then nan else ofRank negative w

/-- Not-a-number has the quiet pattern without a sign. -/
def toBits : Binary64 → UInt64
  | nan => 0x7FF8000000000000
  | infinite negative => UInt64.ofNat ((if negative then Nat.pow 2 63 else 0) + finiteRanks)
  | finite negative rank => UInt64.ofNat ((if negative then Nat.pow 2 63 else 0) + rank.val)

end Binary64

end DataShape
