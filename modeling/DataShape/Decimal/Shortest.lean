import DataShape.Decimal.Basic

/-!
# Fewest digits that read back

Of all decimals that round to a given finite double, the library writes one with
the fewest digits. For one digit, two digits and so on, the exact value has two
neighbours on the grid of decimals with that many digits. The first grid with a
neighbour that reads back wins ; of two such neighbours the nearer, and on an
exact tie the one the format asks for. Seventeen digits are always enough ; the
exact decimal stands behind the search all the same.
-/

namespace DataShape.Decimal

/-- Which of two equally near neighbours is written. -/
inductive Tie where
  | toEven
  | upward
deriving DecidableEq, Repr

/-- Whether a decimal rounds to the finite double of rank `w`. -/
def readsBack (w : Nat) (d : Decimal) : Bool :=
  d.toBinary64 false == .ofRank false w

/-- The neighbour of `exact` that reads back once its last `cut` digits are dropped. -/
def neighbour? (tie : Tie) (w : Nat) (exact : Decimal) (cut : Nat) : Option Decimal :=
  let grid := Nat.pow 10 cut
  let lower : Decimal := ⟨exact.coefficient / grid, exact.exponent + cut⟩
  let upper : Decimal := ⟨exact.coefficient / grid + 1, exact.exponent + cut⟩
  let r := exact.coefficient % grid
  if r = 0 then
    if readsBack w lower then some lower else none
  else match readsBack w lower, readsBack w upper with
    | true, true =>
      if 2 * r < grid then some lower
      else if grid < 2 * r then some upper
      else match tie with
        | .toEven => some (if lower.coefficient % 2 = 0 then lower else upper)
        | .upward => some upper
    | true, false => some lower
    | false, true => some upper
    | false, false => none

/-- The shortest decimal that reads back as the finite double of rank `w`. Zero is written as zero
ones. -/
def shortest (tie : Tie) (w : Nat) : Decimal :=
  if w = 0 then ⟨0, 0⟩ else
  let exact := ofUnits (Binary64.units w)
  let length := exact.length
  let found := (List.range 17).findSome? fun i =>
    neighbour? tie w exact (length - (i + 1))
  (found.getD exact).strip

end DataShape.Decimal
