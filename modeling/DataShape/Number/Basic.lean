import DataShape.Decimal.Layout

/-!
# Numbers

A number is an unsigned or signed 64-bit integer or a double. The three kinds are
kept apart, since they are written differently, but compared by value : integers
that are exact on both sides are compared as integers, everything else as
doubles. A double counts as an exact integer when it is integral and below
`2 ^ 127` in size.
-/

namespace DataShape

/-- A number. -/
inductive Number where
  | unsigned (n : UInt64)
  | signed (n : Int64)
  | float (x : Binary64)
deriving DecidableEq, Repr

namespace Number

/-- The integer a number is exactly, within `2 ^ 127` for doubles. -/
def exactInt? : Number → Option Int
  | unsigned n => some n.toNat
  | signed n => some n.toInt
  | float x => x.toInt?.filter fun n => n.natAbs < Nat.pow 2 127

/-- The number as a double ; large integers are rounded to nearest. -/
def toBinary64 : Number → Binary64
  | unsigned n => .ofInt n.toNat
  | signed n => .ofInt n.toInt
  | float x => x

/-- The number as an unsigned 64-bit integer, if it is one exactly. -/
def toUInt64? (a : Number) : Option UInt64 :=
  match a.exactInt? with
  | some n => if 0 ≤ n ∧ n < UInt64.size then some (UInt64.ofNat n.toNat) else none
  | none => none

/-- The number as a signed 64-bit integer, if it is one exactly. -/
def toInt64? (a : Number) : Option Int64 :=
  match a.exactInt? with
  | some n =>
    if Int64.minValue.toInt ≤ n ∧ n ≤ Int64.maxValue.toInt then some (Int64.ofInt n) else none
  | none => none

theorem toUInt64?_eq_some_iff {a : Number} {k : UInt64} :
    a.toUInt64? = some k ↔ a.exactInt? = some (k.toNat : Int) := by
  unfold toUInt64?
  cases a.exactInt? with
  | none => simp
  | some n =>
    simp only [Option.some_inj]
    constructor
    · intro h
      split at h
      · rename_i hrange
        have hlt : n.toNat < UInt64.size := by omega
        obtain rfl := Option.some.inj h
        rw [UInt64.toNat_ofNat_of_lt' hlt, Int.toNat_of_nonneg hrange.1]
      · cases h
    · rintro rfl
      rw [if_pos ⟨Int.natCast_nonneg _, Int.ofNat_lt.2 k.toNat_lt⟩, Int.toNat_natCast,
        UInt64.ofNat_toNat]

theorem toInt64?_eq_some_iff {a : Number} {k : Int64} :
    a.toInt64? = some k ↔ a.exactInt? = some k.toInt := by
  unfold toInt64?
  cases a.exactInt? with
  | none => simp
  | some n =>
    simp only [Option.some_inj]
    constructor
    · intro h
      split at h
      · rename_i hrange
        have hlt : n < 2 ^ 63 := Int.lt_of_le_of_lt hrange.2 (by decide)
        obtain rfl := Option.some.inj h
        rw [Int64.toInt_ofInt_of_le hrange.1 hlt]
      · cases h
    · rintro rfl
      rw [if_pos ⟨k.minValue_le_toInt, k.toInt_le⟩, Int64.ofInt_toInt]

def isInteger : Number → Bool
  | float x => x.toInt?.isSome
  | _ => true

def isNaN : Number → Bool
  | float x => x.isNaN
  | _ => false

def isInfinite : Number → Bool
  | float x => x.isInfinite
  | _ => false

def isFinite : Number → Bool
  | float x => x.isFinite
  | _ => true

/-- Numeric equality across the three kinds. -/
def equal (a b : Number) : Bool :=
  match a.exactInt?, b.exactInt? with
  | some m, some n => m == n
  | _, _ => a.toBinary64.equal b.toBinary64

/-- Numbers with one exact integer are equal. -/
theorem equal_of_exactInt? {a b : Number} {n : Int} (ha : a.exactInt? = some n)
    (hb : b.exactInt? = some n) : a.equal b = true := by
  simp [equal, ha, hb]

end Number

end DataShape
