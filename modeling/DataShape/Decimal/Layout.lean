import DataShape.Decimal.Shortest

/-!
# Laying decimals out as text

A `Layout` holds the decisions of one output format : which magnitudes are
written positionally, whether an integral number keeps a fraction, and which way
ties between shortest decimals go. Outside the positional range a number is
written with one digit before the point and a signed exponent.
-/

namespace DataShape.Decimal

/-- The decisions of an output format for finite doubles. -/
structure Layout where
  /-- Whether a number whose leading digit stands for `10 ^ e` is written without an exponent. -/
  positional : Int → Bool
  /-- Whether an integral number written positionally ends in `.0`. -/
  keepsFraction : Bool
  tie : Tie

/-- Digits and a power of ten, written without an exponent. -/
def positionalDigits (keepsFraction : Bool) (ds : List Char) (exponent : Int) : List Char :=
  match exponent with
  | .ofNat e => ds ++ List.replicate e '0' ++ (if keepsFraction then ['.', '0'] else [])
  | .negSucc e =>
    let places := e + 1
    if places < ds.length then
      ds.take (ds.length - places) ++ '.' :: ds.drop (ds.length - places)
    else
      '0' :: '.' :: (List.replicate (places - ds.length) '0' ++ ds)

/-- Digits with the point after the first, and the power of ten of that first digit. -/
def scientificDigits (ds : List Char) (leading : Int) : List Char :=
  let power := 'e' :: (if leading < 0 then '-' else '+') :: Text.digits leading.natAbs
  match ds with
  | [] => power
  | [d] => d :: power
  | d :: rest => d :: '.' :: (rest ++ power)

/-- The finite double of rank `w` in the given layout, without its sign. -/
def Layout.write (layout : Layout) (w : Nat) : List Char :=
  let d := shortest layout.tie w
  let ds := Text.digits d.coefficient
  let leading := d.exponent + ds.length - 1
  if layout.positional leading then positionalDigits layout.keepsFraction ds d.exponent
  else scientificDigits ds leading

end DataShape.Decimal
