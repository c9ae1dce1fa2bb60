import DataShape.Number.Basic
import DataShape.Proofs.Decimal.Rounding
import Mathlib.Data.EReal.Basic
import Mathlib.Tactic.Linarith

/-!
# Values of numbers

The value of a number is an extended real : the integer that is held, or what the bits of a
double stand for, the infinities included. Not-a-number has none (`Number.value?`).

A double is an exact integer if its value is an integer (`Binary64.toInt?_eq_some_iff`), and two
doubles are equal if their values are (`Binary64.equal_iff`). Between the kinds, numbers are
compared as doubles only where one of them is no exact integer. The other one may be rounded
then, but an integer is rounded to an integer, and one of 64 bits to one that still counts as
exact (`Number.exists_exactInt?_toBinary64`), so it does not meet the first
(`Number.value?_ne_of_exactInt?`). Equality of numbers is therefore equality of values
(`numbers_equal_by_value`). The views of a number as an integer of 64 bits are decided by its value
too (`integer_views_exact`).
-/

namespace DataShape

namespace Binary64

/-! ## Values of doubles -/

/-- The value of a rank : below the sign there are eleven bits of exponent and the fraction, which
has a leading one unless the exponent is zero. -/
noncomputable def magnitude (w : Nat) : ℝ :=
  if w / 2 ^ 52 = 0 then (w % 2 ^ 52 : ℕ) * 2 ^ (-1074 : ℤ)
  else (2 ^ 52 + w % 2 ^ 52 : ℕ) * 2 ^ ((w / 2 ^ 52 : ℕ) - 1075 : ℤ)

/-- The exact value of a double, unless it is not-a-number. -/
noncomputable def value? : Binary64 → Option EReal
  | nan => none
  | infinite negative => some (if negative then ⊥ else ⊤)
  | finite negative rank => some ((if negative then -magnitude rank else magnitude rank : ℝ))

theorem cast_unitsPerOne : ((unitsPerOne : ℕ) : ℝ) = 2 ^ 1074 := by
  simp only [Nat.pow_eq, Nat.cast_pow, Nat.cast_ofNat]

/-- Ranks count steps of `2 ^ (-1074)`. -/
theorem magnitude_eq (w : Nat) : magnitude w = units w / unitsPerOne := by
  have hpowers : ∀ k n : ℕ, (2 : ℝ) ^ ((k : ℤ) - n) = 2 ^ k / 2 ^ n := fun k n => by
    rw [zpow_sub₀ two_ne_zero, zpow_natCast, zpow_natCast]
  rw [magnitude, cast_unitsPerOne]
  split_ifs with hw
  · have hlt : w < 2 ^ 53 := by omega
    have hrest : w % 2 ^ 52 = w := by omega
    rw [units_of_lt hlt, hrest, zpow_neg, div_eq_mul_inv]
    exact congrArg (fun u : ℝ => w * u⁻¹) (zpow_natCast 2 1074)
  · obtain ⟨e, he⟩ : ∃ e, w / 2 ^ 52 = e + 1 := Nat.exists_eq_succ_of_ne_zero hw
    have hdoublings : doublings w = e := by
      simp only [doublings, Nat.pow_eq, he, Nat.add_sub_cancel]
    have hsignificand : significand w = 2 ^ 52 + w % 2 ^ 52 := by
      simp only [significand, hdoublings, Nat.pow_eq]
      omega
    have hexponent : ((e + 1 : ℕ) - 1075 : ℤ) = e - (1074 : ℕ) := by omega
    rw [units, hsignificand, hdoublings, he, hexponent, hpowers, Nat.cast_mul, Nat.pow_eq,
      Nat.cast_pow, mul_div_assoc]
    rfl

theorem units_injective : Function.Injective units := fun v w h => by
  rw [← roundRank_units v, h, roundRank_units]

theorem unitsPerOne_pos : 0 < unitsPerOne := by
  obtain ⟨k, hunits, -⟩ := exists_unitsPerOne_eq
  exact hunits ▸ Nat.two_pow_pos k

theorem cast_unitsPerOne_ne_zero : ((unitsPerOne : ℕ) : ℝ) ≠ 0 :=
  Nat.cast_ne_zero.2 unitsPerOne_pos.ne'

theorem magnitude_nonneg (w : Nat) : 0 ≤ magnitude w := by
  rw [magnitude_eq]
  exact div_nonneg (Nat.cast_nonneg _) (Nat.cast_nonneg _)

theorem magnitude_inj {v w : Nat} : magnitude v = magnitude w ↔ v = w := by
  rw [magnitude_eq, magnitude_eq, div_left_inj' cast_unitsPerOne_ne_zero, Nat.cast_inj,
    units_injective.eq_iff]

theorem magnitude_eq_natCast {w k : Nat} : magnitude w = k ↔ units w = k * unitsPerOne := by
  rw [magnitude_eq, div_eq_iff cast_unitsPerOne_ne_zero, ← Nat.cast_mul, Nat.cast_inj]

theorem magnitude_zero : magnitude 0 = 0 := by
  have hunits : units 0 = 0 * unitsPerOne := by
    rw [Nat.zero_mul]
    rfl
  exact_mod_cast magnitude_eq_natCast.2 hunits

theorem neg_magnitude_eq_iff {v w : Nat} : -magnitude v = magnitude w ↔ v = 0 ∧ w = 0 := by
  have hv := magnitude_nonneg v
  have hw := magnitude_nonneg w
  rw [← magnitude_inj, ← magnitude_inj, magnitude_zero]
  constructor
  · intro h
    constructor <;> linarith
  · rintro ⟨hv, hw⟩
    rw [hv, hw, neg_zero]

/-- Signed values differ with their ranks and signs, but for the two zeros. -/
theorem signed_magnitude_inj {s t : Bool} {v w : Nat} :
    (if s then -magnitude v else magnitude v) = (if t then -magnitude w else magnitude w) ↔
      v = w ∧ (s = t ∨ v = 0) := by
  cases s <;> cases t <;> simp only [Bool.false_eq_true, if_true, if_false, reduceCtorEq, false_or,
    true_or, and_true, neg_inj, magnitude_inj, neg_magnitude_eq_iff]
  · rw [eq_comm, neg_magnitude_eq_iff]
    omega
  · omega

/-- Doubles are equal if they have one value. -/
theorem equal_iff {x y : Binary64} :
    x.equal y = true ↔ ∃ v, x.value? = some v ∧ y.value? = some v := by
  cases x with
  | nan => simp [equal, value?]
  | infinite s =>
    cases y with
    | nan => simp [equal, value?]
    | infinite t => cases s <;> cases t <;> simp [equal, value?]
    | finite t w => cases s <;> simp [equal, value?]
  | finite s v =>
    cases y with
    | nan => simp [equal, value?]
    | infinite t => cases t <;> simp [equal, value?]
    | finite t w =>
      simp only [equal, value?, Bool.and_eq_true, Bool.or_eq_true, beq_iff_eq, Option.some_inj,
        exists_eq_left', EReal.coe_eq_coe_iff]
      rw [eq_comm (b := ite (s = true) _ _), signed_magnitude_inj, Fin.val_inj]

theorem toInt?_finite {s : Bool} {rank : Fin finiteRanks} {k : Nat}
    (h : units rank = k * unitsPerOne) :
    (finite s rank).toInt? = some (if s then -(k : Int) else k) := by
  simp only [toInt?, h, Nat.mul_mod_left, Nat.mul_div_cancel _ unitsPerOne_pos, if_true]

theorem toInt?_of_rank_eq_zero {s : Bool} {rank : Fin finiteRanks} (h : rank.val = 0) :
    (finite s rank).toInt? = some 0 := by
  have hunits : units rank = 0 * unitsPerOne := by
    rw [h, Nat.zero_mul]
    rfl
  rw [toInt?_finite hunits]
  cases s <;> rfl

/-- Equal doubles are one double, but for the two zeros. -/
theorem eq_of_equal {x y : Binary64} (h : x.equal y = true) (hx : x.toInt? ≠ some 0) : x = y := by
  cases x with
  | nan => exact nomatch h
  | infinite s =>
    cases y with
    | infinite t => exact congrArg infinite (eq_of_beq h)
    | _ => exact nomatch h
  | finite s v =>
    cases y with
    | finite t w =>
      simp only [equal, Bool.and_eq_true, Bool.or_eq_true, beq_iff_eq] at h
      obtain ⟨rfl, rfl | hzero⟩ := h
      · rfl
      · exact absurd (toInt?_of_rank_eq_zero hzero) hx
    | _ => exact nomatch h

/-- A double that stands for an integer is a whole number of ones. -/
theorem exists_units_eq_of_toInt? {s : Bool} {rank : Fin finiteRanks} {n : Int}
    (h : (finite s rank).toInt? = some n) :
    ∃ k : Nat, units rank = k * unitsPerOne ∧ n = if s then -(k : Int) else k := by
  obtain ⟨k, hk⟩ : ∃ k, units rank = k * unitsPerOne := by
    simp only [toInt?] at h
    split at h
    · exact exists_eq_mul_left_of_dvd (Nat.dvd_of_mod_eq_zero ‹_›)
    · cases h
  exact ⟨k, hk, Option.some.inj (h.symm.trans (toInt?_finite hk))⟩

/-- The integer a double stands for is its value. -/
theorem toInt?_eq_some_iff {x : Binary64} {n : Int} :
    x.toInt? = some n ↔ x.value? = some ((n : ℝ) : EReal) := by
  cases x with
  | nan => simp [toInt?, value?]
  | infinite s => cases s <;> simp [toInt?, value?]
  | finite s w =>
    rw [value?, Option.some_inj, EReal.coe_eq_coe_iff]
    constructor
    · intro h
      obtain ⟨k, hk, rfl⟩ := exists_units_eq_of_toInt? h
      rw [magnitude_eq_natCast.2 hk]
      split <;> simp
    · intro h
      have hvalue : magnitude w = n.natAbs := by
        rw [Nat.cast_natAbs, Int.cast_abs, ← h]
        cases s <;> simp [abs_of_nonneg (magnitude_nonneg w)]
      have hsign : (if s then -(n.natAbs : ℝ) else n.natAbs) = n := hvalue ▸ h
      rw [toInt?_finite (magnitude_eq_natCast.1 hvalue)]
      refine congrArg some (Int.cast_injective (α := ℝ) ?_)
      cases s <;> simpa using hsign

/-! ## Rounded integers -/

/-- A 64-bit integer is rounded to an integer of no more than `2 ^ 64`. -/
theorem exists_toInt?_ofInt {n : Int} (hn : n.natAbs < Nat.pow 2 64) :
    ∃ m, (ofInt n).toInt? = some m ∧ m.natAbs ≤ Nat.pow 2 64 := by
  obtain ⟨k, hunitsPerOne, hk⟩ := exists_unitsPerOne_eq
  obtain ⟨hrank, m, hm, hunits⟩ := exists_units_roundRank_eq k (by decide) hn
  rw [← hunitsPerOne] at hrank hunits
  have hfinite : roundRank (n.natAbs * unitsPerOne) 1 < finiteRanks :=
    hrank.trans_lt (by rw [hk]; decide)
  have hrounded : ofInt n = finite (n < 0) ⟨_, hfinite⟩ := dif_pos hfinite
  refine ⟨if decide (n < 0) then -(m : Int) else m, ?_, ?_⟩
  · exact (congrArg toInt? hrounded).trans (toInt?_finite hunits)
  · split <;> omega

end Binary64

namespace Number

/-- The exact value of a number, unless it is not-a-number. -/
noncomputable def value? : Number → Option EReal
  | unsigned n => some (((n.toNat : Int) : ℝ) : EReal)
  | signed n => some ((n.toInt : ℝ) : EReal)
  | float x => x.value?

variable {a b : Number} {n : Int}

theorem value?_eq_none_iff : a.value? = none ↔ a.isNaN = true := by
  cases a with
  | float x => cases x <;> simp [value?, Binary64.value?, isNaN, Binary64.isNaN]
  | _ => simp [value?, isNaN]

/-- The integer a number is exactly is its value. -/
theorem exactInt?_eq_some_iff :
    a.exactInt? = some n ↔ a.value? = some ((n : ℝ) : EReal) ∧ n.natAbs < Nat.pow 2 127 := by
  cases a with
  | unsigned k =>
    have hk := k.toNat_lt
    simp only [exactInt?, value?, Option.some_inj, EReal.coe_eq_coe_iff, Int.cast_inj, Nat.pow_eq]
    omega
  | signed k =>
    have hlow := k.le_toInt
    have hhigh := k.toInt_lt
    simp only [exactInt?, value?, Option.some_inj, EReal.coe_eq_coe_iff, Int.cast_inj, Nat.pow_eq]
    omega
  | float x =>
    simp only [exactInt?, value?, Option.filter_eq_some_iff, Binary64.toInt?_eq_some_iff,
      decide_eq_true_eq]

theorem exists_float_of_exactInt?_eq_none (h : a.exactInt? = none) : ∃ x, a = float x := by
  cases a with
  | float x => exact ⟨x, rfl⟩
  | _ => exact nomatch h

/-- The double nearest to an exact integer is an exact integer. -/
theorem exists_exactInt?_toBinary64 (h : a.exactInt? = some n) :
    ∃ m, (float a.toBinary64).exactInt? = some m := by
  have hrounded : ∀ k : Int, k.natAbs < Nat.pow 2 64 →
      ∃ m, (float (.ofInt k)).exactInt? = some m := fun k hk => by
    obtain ⟨m, hm, hle⟩ := Binary64.exists_toInt?_ofInt hk
    refine ⟨m, Option.filter_eq_some_iff.2 ⟨hm, decide_eq_true (hle.trans_lt (by decide))⟩⟩
  cases a with
  | unsigned k =>
    have hk := k.toNat_lt
    exact hrounded _ (by simp only [Nat.pow_eq]; omega)
  | signed k =>
    have hlow := k.le_toInt
    have hhigh := k.toInt_lt
    exact hrounded _ (by simp only [Nat.pow_eq]; omega)
  | float x => exact ⟨n, h⟩

/-- A number that is no exact integer differs from all that are, and from the doubles nearest to
them. -/
theorem value?_ne_of_exactInt? (ha : a.exactInt? = some n) (hb : b.exactInt? = none) :
    a.value? ≠ b.value? ∧ a.toBinary64.value? ≠ b.toBinary64.value? := by
  have hapart : ∀ {a : Number} {n : Int}, a.exactInt? = some n → a.value? ≠ b.value? := by
    intro a n ha heq
    obtain ⟨hvalue, hbound⟩ := exactInt?_eq_some_iff.1 ha
    exact nomatch hb.symm.trans (exactInt?_eq_some_iff.2 ⟨heq ▸ hvalue, hbound⟩)
  obtain ⟨m, hm⟩ := exists_exactInt?_toBinary64 ha
  obtain ⟨y, rfl⟩ := exists_float_of_exactInt?_eq_none hb
  exact ⟨hapart ha, hapart hm⟩

/-- Numbers are equal if they have one value. -/
theorem equal_iff_exists_value :
    a.equal b = true ↔ ∃ v, a.value? = some v ∧ b.value? = some v := by
  rw [equal]
  cases ha : a.exactInt? with
  | some m =>
    cases hb : b.exactInt? with
    | some n =>
      rw [(exactInt?_eq_some_iff.1 ha).1, (exactInt?_eq_some_iff.1 hb).1]
      simp only [beq_iff_eq, Option.some_inj, exists_eq_left', EReal.coe_eq_coe_iff, Int.cast_inj]
      exact eq_comm
    | none =>
      obtain ⟨hvalue, hdouble⟩ := value?_ne_of_exactInt? ha hb
      refine Binary64.equal_iff.trans (iff_of_false ?_ ?_)
      · rintro ⟨v, hv, hw⟩
        exact hdouble (hv.trans hw.symm)
      · rintro ⟨v, hv, hw⟩
        exact hvalue (hv.trans hw.symm)
  | none =>
    cases hb : b.exactInt? with
    | some n =>
      obtain ⟨hvalue, hdouble⟩ := value?_ne_of_exactInt? hb ha
      refine Binary64.equal_iff.trans (iff_of_false ?_ ?_)
      · rintro ⟨v, hv, hw⟩
        exact hdouble (hw.trans hv.symm)
      · rintro ⟨v, hv, hw⟩
        exact hvalue (hw.trans hv.symm)
    | none =>
      obtain ⟨x, rfl⟩ := exists_float_of_exactInt?_eq_none ha
      obtain ⟨y, rfl⟩ := exists_float_of_exactInt?_eq_none hb
      exact Binary64.equal_iff

theorem exists_value?_iff : (∃ v, a.value? = some v) ↔ a.isNaN = false := by
  rw [← Option.isSome_iff_exists, Option.isSome_iff_ne_none, ← Bool.not_eq_true,
    ← value?_eq_none_iff]

theorem equal_symm (h : a.equal b = true) : b.equal a = true := by
  obtain ⟨x, ha, hb⟩ := equal_iff_exists_value.1 h
  exact equal_iff_exists_value.2 ⟨x, hb, ha⟩

theorem equal_trans {c : Number} (hab : a.equal b = true) (hbc : b.equal c = true) :
    a.equal c = true := by
  obtain ⟨x, ha, hb⟩ := equal_iff_exists_value.1 hab
  obtain ⟨y, hb', hc⟩ := equal_iff_exists_value.1 hbc
  obtain rfl := Option.some.inj (hb.symm.trans hb')
  exact equal_iff_exists_value.2 ⟨x, ha, hc⟩

theorem equal_self_iff : a.equal a = true ↔ a.isNaN = false := by
  rw [equal_iff_exists_value, ← exists_value?_iff]
  simp only [and_self]

end Number

/-- Equality of numbers is equality of their exact values, whatever kinds they are of : it holds
unless one of them is not-a-number. So it is symmetric and transitive, and a number that differs
from itself is not-a-number. -/
theorem numbers_equal_by_value :
    (∀ a b : Number, a.equal b = true ↔
      a.isNaN = false ∧ b.isNaN = false ∧ a.value? = b.value?) ∧
    (∀ a b : Number, a.equal b = b.equal a) ∧
    (∀ a b c : Number, a.equal b = true → b.equal c = true → a.equal c = true) ∧
    ∀ a : Number, a.equal a = true ↔ a.isNaN = false := by
  refine ⟨fun a b => ?_, fun a b => ?_, fun _ _ _ => Number.equal_trans,
    fun _ => Number.equal_self_iff⟩
  · rw [Number.equal_iff_exists_value, ← Number.exists_value?_iff, ← Number.exists_value?_iff]
    constructor
    · rintro ⟨v, hv, hw⟩
      exact ⟨⟨v, hv⟩, ⟨v, hw⟩, hv.trans hw.symm⟩
    · rintro ⟨⟨v, hv⟩, -, heq⟩
      exact ⟨v, hv, heq ▸ hv⟩
  · exact Bool.eq_iff_iff.2 ⟨Number.equal_symm, Number.equal_symm⟩

/-- One integer past `2 ^ 53` in all three kinds. -/
theorem three_kinds_equal_by_value :
    let a := Number.unsigned 1152921504606846976
    let b := Number.float (.ofInt 1152921504606846976)
    let c := Number.signed 1152921504606846976
    a.equal b = true ∧ b.equal c = true ∧ a.equal c = true := by
  intro a b c
  have hab : a.equal b = true := by decide +kernel
  have hbc : b.equal c = true := by decide +kernel
  exact ⟨hab, hbc, numbers_equal_by_value.2.2.1 a b c hab hbc⟩

/-! ## Integers that fit -/

namespace Number

variable {a : Number} {k : Int}

/-- An integer of 64 bits, with or without a sign, is small enough to be exact in every kind. -/
theorem exactInt?_eq_some_iff_of_range (hlow : -2 ^ 63 ≤ k) (hhigh : k < 2 ^ 64) :
    a.exactInt? = some k ↔ a.value? = some ((k : ℝ) : EReal) := by
  rw [exactInt?_eq_some_iff, and_iff_left]
  simp only [Nat.pow_eq]
  omega

theorem toUInt64?_map_eq_some_iff : a.toUInt64?.map (fun n => (n.toNat : Int)) = some k ↔
    a.value? = some ((k : ℝ) : EReal) ∧ 0 ≤ k ∧ k < 2 ^ 64 := by
  rw [Option.map_eq_some_iff]
  constructor
  · rintro ⟨n, hn, rfl⟩
    have hlow : (0 : Int) ≤ n.toNat := Int.natCast_nonneg _
    have hhigh : (n.toNat : Int) < 2 ^ 64 := Int.ofNat_lt.2 n.toNat_lt
    have hrange := exactInt?_eq_some_iff_of_range (a := a) (le_trans (by decide) hlow) hhigh
    exact ⟨hrange.1 (toUInt64?_eq_some_iff.1 hn), hlow, hhigh⟩
  · rintro ⟨hvalue, hlow, hhigh⟩
    have hrange := exactInt?_eq_some_iff_of_range (a := a) (le_trans (by decide) hlow) hhigh
    have hexact := hrange.2 hvalue
    have hlt : k.toNat < UInt64.size := (Int.toNat_lt hlow).2 hhigh
    have hk : ((UInt64.ofNat k.toNat).toNat : Int) = k := by
      rw [UInt64.toNat_ofNat_of_lt' hlt, Int.toNat_of_nonneg hlow]
    exact ⟨_, toUInt64?_eq_some_iff.2 (hk.symm ▸ hexact), hk⟩

theorem toInt64?_map_eq_some_iff : a.toInt64?.map Int64.toInt = some k ↔
    a.value? = some ((k : ℝ) : EReal) ∧ -2 ^ 63 ≤ k ∧ k < 2 ^ 63 := by
  rw [Option.map_eq_some_iff]
  constructor
  · rintro ⟨n, hn, rfl⟩
    have hlow := n.le_toInt
    have hhigh := n.toInt_lt
    have hexact := toInt64?_eq_some_iff.1 hn
    exact ⟨(exactInt?_eq_some_iff_of_range hlow (by omega)).1 hexact, hlow, hhigh⟩
  · rintro ⟨hvalue, hlow, hhigh⟩
    have hexact := (exactInt?_eq_some_iff_of_range hlow (by omega)).2 hvalue
    have hk : (Int64.ofInt k).toInt = k := Int64.toInt_ofInt_of_le hlow hhigh
    exact ⟨_, toInt64?_eq_some_iff.2 (hk.symm ▸ hexact), hk⟩

/-- A view is missing exactly if there is nothing that it could be. -/
theorem eq_none_iff_of_map {α : Type} {x : Option α} {f : α → Int} {P : Int → Prop}
    (h : ∀ k, x.map f = some k ↔ P k) : x = none ↔ ∀ k, ¬ P k := by
  cases x with
  | none => simp [← h]
  | some n => exact iff_of_false nofun fun hnot => hnot (f n) ((h _).1 rfl)

end Number

/-- A number is viewed as an unsigned or a signed integer of 64 bits exactly if its value is an
integer in that range, and as that integer. So there is no view of what is infinite, not a number,
not integral or out of range. The integer that is viewed is a number equal to the first. -/
theorem integer_views_exact (a : Number) :
    (∀ k : Int, a.toUInt64?.map (fun n => (n.toNat : Int)) = some k ↔
      a.value? = some ((k : ℝ) : EReal) ∧ 0 ≤ k ∧ k < 2 ^ 64) ∧
    (∀ k : Int, a.toInt64?.map Int64.toInt = some k ↔
      a.value? = some ((k : ℝ) : EReal) ∧ -2 ^ 63 ≤ k ∧ k < 2 ^ 63) ∧
    (a.toUInt64? = none ↔
      ∀ k : Int, ¬ (a.value? = some ((k : ℝ) : EReal) ∧ 0 ≤ k ∧ k < 2 ^ 64)) ∧
    (a.toInt64? = none ↔
      ∀ k : Int, ¬ (a.value? = some ((k : ℝ) : EReal) ∧ -2 ^ 63 ≤ k ∧ k < 2 ^ 63)) ∧
    (∀ n, a.toUInt64? = some n → (Number.unsigned n).equal a = true) ∧
    ∀ n, a.toInt64? = some n → (Number.signed n).equal a = true := by
  refine ⟨fun k => Number.toUInt64?_map_eq_some_iff, fun k => Number.toInt64?_map_eq_some_iff,
    Number.eq_none_iff_of_map fun k => Number.toUInt64?_map_eq_some_iff,
    Number.eq_none_iff_of_map fun k => Number.toInt64?_map_eq_some_iff, fun n hn => ?_,
    fun n hn => ?_⟩
  · exact Number.equal_of_exactInt? rfl (Number.toUInt64?_eq_some_iff.1 hn)
  · exact Number.equal_of_exactInt? rfl (Number.toInt64?_eq_some_iff.1 hn)

/-- The double `2 ^ 63` is an unsigned integer and no signed one. -/
theorem two_pow_63_viewed : let a := Number.float (.ofInt (2 ^ 63))
    a.toUInt64? = some 9223372036854775808 ∧ (Number.unsigned 9223372036854775808).equal a = true ∧
      a.value? = some (((2 ^ 63 : Int) : ℝ) : EReal) ∧ a.toInt64? = none := by
  intro a
  have hview : a.toUInt64? = some 9223372036854775808 := by decide +kernel
  obtain ⟨hunsigned, -, -, -, hequal, -⟩ := integer_views_exact a
  have hvalue := ((hunsigned (2 ^ 63)).1 (by rw [hview]; rfl)).1
  exact ⟨hview, hequal _ hview, hvalue, by decide +kernel⟩

end DataShape
