import DataShape.Decimal.Basic

/-!
# Rounding to the nearest double

`roundRank` depends on a quotient and not on how it is written as a fraction
(`roundRank_eq_of_mul_eq`), and it takes the exact value of a rank to that rank
(`roundRank_units`). Integers are rounded to integers (`dvd_units_roundRank`), and what is
below a power of two to no more than that (`roundRank_le`).

A decimal is a quotient of naturals as well. The guards of `Decimal.toBinary64`, which
decide far exponents without a power, agree with rounding that quotient
(`Decimal.toBinary64_eq_ofRank`). So a decimal and its sign are rounded apart, factors of
ten may move between the coefficient and the exponent (`Decimal.rank_shift`), and the
decimal that is exactly a rank is rounded to it (`Decimal.rank_ofUnits`).
-/

namespace DataShape

namespace Binary64

variable {num den num' den' : Nat}

/-! ## Quotients -/

theorem halfEven_mul_right (num den : Nat) {k : Nat} (hk : 0 < k) :
    halfEven (num * k) (den * k) = halfEven num den := by
  have hquotient : num * k / (den * k) = num / den := Nat.mul_div_mul_right _ _ hk
  have hremainder : num * k % (den * k) = num % den * k := Nat.mul_mod_mul_right ..
  simp only [halfEven, hquotient, hremainder, ← Nat.mul_assoc, Nat.mul_lt_mul_right hk]

theorem halfEven_mul (m : Nat) (hden : 0 < den) : halfEven (m * den) den = m := by
  simp [halfEven, Nat.mul_div_cancel _ hden, hden]

theorem roundRank_mul_right (num den : Nat) {k : Nat} (hk : 0 < k) :
    roundRank (num * k) (den * k) = roundRank num den := by
  simp only [roundRank, Nat.mul_div_mul_right _ _ hk, Nat.mul_right_comm den k,
    halfEven_mul_right _ _ hk]

/-- Fractions of one value are rounded to one rank. -/
theorem roundRank_eq_of_mul_eq (hden : 0 < den) (hden' : 0 < den')
    (h : num * den' = num' * den) : roundRank num den = roundRank num' den' := by
  rw [← roundRank_mul_right num den hden', h, Nat.mul_comm den den',
    roundRank_mul_right num' den' hden]

/-! ## Exact values -/

/-- The number of steps in one is a power of two. Large powers are better left alone, so its
exponent is a variable here. -/
theorem exists_unitsPerOne_eq : ∃ k, unitsPerOne = Nat.pow 2 k ∧ k = 1074 :=
  ⟨1074, by simp only [unitsPerOne], rfl⟩

theorem units_of_lt {w : Nat} (h : w < Nat.pow 2 53) : units w = w := by
  have hdoublings : doublings w = 0 := by
    simp only [doublings, Nat.pow_eq] at h ⊢
    omega
  simp [units, significand, hdoublings]

/-- From rank `2 ^ 53` on the significand has its leading bit. -/
theorem significand_bounds {w : Nat} (h : Nat.pow 2 53 ≤ w) :
    Nat.pow 2 52 ≤ significand w ∧ significand w < Nat.pow 2 53 := by
  simp only [significand, doublings, Nat.pow_eq] at h ⊢
  omega

/-- A significand with its leading bit, doubled some times, is the logarithm away from it. -/
theorem log2_significand_mul {m : Nat} (hlow : Nat.pow 2 52 ≤ m) (hhigh : m < Nat.pow 2 53)
    (k : Nat) : (m * Nat.pow 2 k).log2 = 52 + k := by
  rw [Nat.pow_eq] at hlow hhigh ⊢
  have hpos : 0 < 2 ^ k := Nat.two_pow_pos k
  have hnext : 2 ^ (52 + k + 1) = 2 ^ 53 * 2 ^ k := by rw [Nat.add_right_comm, Nat.pow_add]
  rw [Nat.log2_eq_iff (Nat.mul_ne_zero (by omega) (Nat.ne_of_gt hpos)), hnext, Nat.pow_add]
  exact ⟨Nat.mul_le_mul_right _ hlow, (Nat.mul_lt_mul_right hpos).2 hhigh⟩

/-- The exact value of a rank is rounded to that rank. -/
theorem roundRank_units (w : Nat) : roundRank (units w) 1 = w := by
  by_cases hw : w < Nat.pow 2 53
  · have hlog : w.log2 - 52 = 0 := by
      rcases Nat.eq_zero_or_pos w with rfl | hpos
      · rfl
      · have := (Nat.log2_lt (Nat.ne_of_gt hpos)).2 hw
        omega
    rw [units_of_lt hw, roundRank, Nat.div_one, hlog]
    simpa using halfEven_mul w Nat.one_pos
  · obtain ⟨hlow, hhigh⟩ := significand_bounds (Nat.not_lt.1 hw)
    have hlog : (units w).log2 - 52 = doublings w := by
      rw [units, log2_significand_mul hlow hhigh]
      omega
    have hrank : doublings w * Nat.pow 2 52 + significand w = w := by
      simp only [significand, doublings, Nat.pow_eq] at hw ⊢
      omega
    have hexact : halfEven (units w) (1 * Nat.pow 2 (doublings w)) = significand w := by
      rw [Nat.one_mul]
      exact halfEven_mul _ (Nat.two_pow_pos _)
    rw [roundRank, Nat.div_one, hlog, hexact, hrank]

/-! ## What is rounded to -/

/-- Rounding goes to the quotient or to the next natural. -/
theorem halfEven_eq_or (num den : Nat) :
    halfEven num den = num / den ∨ halfEven num den = num / den + 1 := by
  simp only [halfEven]
  repeat' split
  all_goals simp

/-- A significand behind its exponent, also one that was rounded up to the next power of two. -/
theorem units_of_parts {e m : Nat} (hlow : e = 0 ∨ Nat.pow 2 52 ≤ m) (hhigh : m ≤ Nat.pow 2 53) :
    units (e * Nat.pow 2 52 + m) = m * Nat.pow 2 e := by
  rcases Nat.lt_or_eq_of_le hhigh with hlt | rfl
  · by_cases hm : Nat.pow 2 52 ≤ m
    · have hdoublings : doublings (e * Nat.pow 2 52 + m) = e := by
        simp only [doublings, Nat.pow_eq] at hm hlt ⊢
        omega
      rw [units, significand, hdoublings, Nat.add_sub_cancel_left]
    · obtain rfl := hlow.resolve_right hm
      rw [Nat.zero_mul, Nat.zero_add, units_of_lt hlt]
      exact (Nat.mul_one m).symm
  · have hdoublings : doublings (e * Nat.pow 2 52 + Nat.pow 2 53) = e + 1 := by
      simp only [doublings, Nat.pow_eq]
      omega
    have hsignificand :
        e * Nat.pow 2 52 + Nat.pow 2 53 - (e + 1) * Nat.pow 2 52 = Nat.pow 2 52 := by
      simp only [Nat.pow_eq]
      omega
    rw [units, significand, hdoublings, hsignificand]
    simp only [Nat.pow_eq]
    rw [← Nat.pow_add, ← Nat.pow_add]
    congr 1
    omega

/-- The logarithm leaves a quotient with its leading bit, unless it was below that before. -/
theorem div_log2_bounds (q : Nat) :
    (q.log2 - 52 = 0 ∨ Nat.pow 2 52 ≤ q / Nat.pow 2 (q.log2 - 52)) ∧
      q / Nat.pow 2 (q.log2 - 52) < Nat.pow 2 53 := by
  generalize he : q.log2 - 52 = e
  have hhigh : q < Nat.pow 2 53 * Nat.pow 2 e :=
    calc q < Nat.pow 2 (q.log2 + 1) := Nat.lt_log2_self
      _ ≤ Nat.pow 2 (53 + e) := Nat.pow_le_pow_right Nat.two_pos (by omega)
      _ = Nat.pow 2 53 * Nat.pow 2 e := Nat.pow_add ..
  refine ⟨?_, (Nat.div_lt_iff_lt_mul (Nat.two_pow_pos e)).2 hhigh⟩
  rcases Nat.eq_zero_or_pos e with rfl | hpos
  · exact Or.inl rfl
  · have hlog : 52 + e = q.log2 := by omega
    have hq : q ≠ 0 := by
      rintro rfl
      rw [Nat.log2_zero] at he
      omega
    refine Or.inr ((Nat.le_div_iff_mul_le (Nat.two_pow_pos e)).2 ?_)
    calc Nat.pow 2 52 * Nat.pow 2 e = Nat.pow 2 (52 + e) := (Nat.pow_add ..).symm
      _ ≤ q := hlog ▸ Nat.log2_self_le hq

section Parts

variable (num den : Nat)

theorem halfEven_bounds : let e := (num / den).log2 - 52
    (e = 0 ∨ Nat.pow 2 52 ≤ halfEven num (den * Nat.pow 2 e)) ∧
      halfEven num (den * Nat.pow 2 e) ≤ Nat.pow 2 53 := by
  intro e
  have hquotient : num / (den * Nat.pow 2 e) = num / den / Nat.pow 2 e :=
    (Nat.div_div_eq_div_mul ..).symm
  have hrounded := halfEven_eq_or num (den * Nat.pow 2 e)
  obtain ⟨hlow, hhigh⟩ := div_log2_bounds (num / den)
  rw [← hquotient] at hlow hhigh
  exact ⟨hlow.imp_right fun h => by omega, by omega⟩

/-- What a quotient is rounded to, in steps. -/
theorem units_roundRank : units (roundRank num den) =
    halfEven num (den * Nat.pow 2 ((num / den).log2 - 52)) *
      Nat.pow 2 ((num / den).log2 - 52) :=
  units_of_parts (halfEven_bounds num den).1 (halfEven_bounds num den).2

end Parts

/-- A multiple of a power of two is rounded to one. -/
theorem dvd_units_roundRank (n k : Nat) :
    Nat.pow 2 k ∣ units (roundRank (n * Nat.pow 2 k) 1) := by
  rw [units_roundRank, Nat.div_one, Nat.one_mul]
  generalize (n * Nat.pow 2 k).log2 - 52 = e
  rcases Nat.le_total k e with he | he
  · exact Nat.dvd_mul_left_of_dvd (Nat.pow_dvd_pow 2 he) _
  · -- Fewer halvings than there are factors of two leave nothing to round.
    have hsplit : n * Nat.pow 2 k = n * Nat.pow 2 (k - e) * Nat.pow 2 e := by
      rw [Nat.mul_assoc]
      exact congrArg (n * ·) ((congrArg (2 ^ ·) (by omega)).trans (Nat.pow_add 2 (k - e) e))
    have hpos : 0 < Nat.pow 2 e := Nat.two_pow_pos e
    rw [hsplit, halfEven_mul _ hpos]
    exact ⟨n, by rw [← hsplit, Nat.mul_comm]⟩

/-- What is below a power of two is rounded to at most that power, and to a rank that is as low. -/
theorem roundRank_le {k : Nat} (hk : 53 ≤ k) (h : num / den < Nat.pow 2 k) :
    roundRank num den ≤ (k - 51) * Nat.pow 2 52 ∧ units (roundRank num den) ≤ Nat.pow 2 k := by
  obtain ⟨-, hhigh⟩ := halfEven_bounds num den
  have hlog : (num / den).log2 - 52 ≤ k - 53 := by
    rcases Nat.eq_zero_or_pos (num / den) with hzero | hpos
    · simp [hzero]
    · have := (Nat.log2_lt (Nat.ne_of_gt hpos)).2 h
      omega
  constructor
  · rw [roundRank]
    simp only [Nat.pow_eq] at hhigh ⊢
    omega
  · rw [units_roundRank]
    calc _ ≤ Nat.pow 2 53 * Nat.pow 2 (k - 53) :=
          Nat.mul_le_mul hhigh (Nat.pow_le_pow_right Nat.two_pos hlog)
      _ = Nat.pow 2 (53 + (k - 53)) := (Nat.pow_add ..).symm
      _ = Nat.pow 2 k := congrArg (Nat.pow 2) (by omega)

/-- An integer that is counted in smaller steps is rounded to an integer, to no more than the power
of two that it is below. -/
theorem exists_units_roundRank_eq {n j : Nat} (k : Nat) (hj : 53 ≤ j) (h : n < Nat.pow 2 j) :
    roundRank (n * Nat.pow 2 k) 1 ≤ (j + k - 51) * Nat.pow 2 52 ∧
      ∃ m ≤ Nat.pow 2 j, units (roundRank (n * Nat.pow 2 k) 1) = m * Nat.pow 2 k := by
  have hpos : 0 < Nat.pow 2 k := Nat.two_pow_pos k
  have hscaled : n * Nat.pow 2 k / 1 < Nat.pow 2 (j + k) := by
    rw [Nat.div_one]
    exact Nat.lt_of_lt_of_eq (Nat.mul_lt_mul_of_pos_right h hpos) (Nat.pow_add ..).symm
  have hlarge : 53 ≤ j + k := Nat.le_trans hj (Nat.le_add_right j k)
  obtain ⟨hrank, hunits⟩ := roundRank_le hlarge hscaled
  obtain ⟨m, hm⟩ := dvd_units_roundRank n k
  rw [Nat.mul_comm (Nat.pow 2 k) m] at hm
  have hle : m * Nat.pow 2 k ≤ Nat.pow 2 j * Nat.pow 2 k :=
    calc m * Nat.pow 2 k = units (roundRank (n * Nat.pow 2 k) 1) := hm.symm
      _ ≤ Nat.pow 2 (j + k) := hunits
      _ = Nat.pow 2 j * Nat.pow 2 k := Nat.pow_add ..
  exact ⟨hrank, m, Nat.le_of_mul_le_mul_right hle hpos, hm⟩

/-! ## Far values -/

theorem mul_le_roundRank {num e : Nat} (h : Nat.pow 2 (e + 52) ≤ num) :
    e * Nat.pow 2 52 ≤ roundRank num 1 := by
  have hpos : num ≠ 0 := fun h0 => by
    rw [h0] at h
    exact absurd h (Nat.not_le.2 (Nat.two_pow_pos _))
  have hlog := (Nat.le_log2 hpos).2 h
  rw [roundRank, Nat.div_one]
  exact Nat.le_trans (Nat.mul_le_mul_right _ (by omega)) (Nat.le_add_right _ _)

theorem roundRank_eq_zero (h : 2 * num < den) : roundRank num den = 0 := by
  have hlt : num < den := by omega
  simp [roundRank, halfEven, Nat.div_eq_of_lt hlt, Nat.mod_eq_of_lt hlt, h]

theorem ofRank_inj_of_lt {s t : Bool} {v w : Nat} (hw : w < finiteRanks)
    (h : ofRank s v = ofRank t w) : v = w := by
  simp only [ofRank, dif_pos hw] at h
  split at h
  · exact congrArg Fin.val (finite.inj h).2
  · exact nomatch h

theorem ofRank_finite (s : Bool) (rank : Fin finiteRanks) : ofRank s rank = finite s rank :=
  dif_pos rank.isLt

end Binary64

namespace Decimal

open Binary64 (roundRank ofRank ofRatio unitsPerOne)

/-! ## Decimals as quotients -/

def numerator (d : Decimal) : Nat :=
  d.coefficient * Nat.pow 10 d.exponent.toNat

def denominator (d : Decimal) : Nat :=
  Nat.pow 10 (-d.exponent).toNat

/-- The rank nearest to a decimal. -/
def rank (d : Decimal) : Nat :=
  roundRank (d.numerator * unitsPerOne) d.denominator

theorem denominator_pos (d : Decimal) : 0 < d.denominator :=
  Nat.pow_pos (by decide)

theorem rank_zero (e : Int) : rank ⟨0, e⟩ = 0 := by
  refine Binary64.roundRank_eq_zero ?_
  rw [numerator, Nat.zero_mul, Nat.zero_mul]
  exact denominator_pos _

theorem rank_ofNat (c e : Nat) :
    rank ⟨c, .ofNat e⟩ = roundRank (c * Nat.pow 10 e * unitsPerOne) 1 := by
  have hden : denominator ⟨c, .ofNat e⟩ = 1 :=
    congrArg (Nat.pow 10) (Int.toNat_eq_zero.2 (Int.neg_nonpos_of_nonneg (Int.natCast_nonneg e)))
  rw [rank, hden]
  rfl

theorem rank_negSucc (c e : Nat) :
    rank ⟨c, .negSucc e⟩ = roundRank (c * unitsPerOne) (Nat.pow 10 (e + 1)) := by
  have hnum : numerator ⟨c, .negSucc e⟩ = c := Nat.mul_one c
  rw [rank, hnum]
  rfl

theorem two_pow_le_ten_pow {k e : Nat} (h : k ≤ 3 * e) : Nat.pow 2 k ≤ Nat.pow 10 e :=
  calc Nat.pow 2 k ≤ Nat.pow 2 (3 * e) := Nat.pow_le_pow_right Nat.two_pos h
    _ = Nat.pow (Nat.pow 2 3) e := Nat.pow_mul ..
    _ ≤ Nat.pow 10 e := Nat.pow_le_pow_left (by decide) e

theorem two_pow_le_mul {c e m n : Nat} (hc : c ≠ 0) (h : n ≤ 3 * e + m) :
    Nat.pow 2 n ≤ c * Nat.pow 10 e * Nat.pow 2 m := by
  have hten : Nat.pow 2 (3 * e) ≤ c * Nat.pow 10 e :=
    Nat.le_trans (two_pow_le_ten_pow (Nat.le_refl _))
      (Nat.le_mul_of_pos_left _ (Nat.pos_of_ne_zero hc))
  calc Nat.pow 2 n ≤ Nat.pow 2 (3 * e + m) := Nat.pow_le_pow_right Nat.two_pos h
    _ = Nat.pow 2 (3 * e) * Nat.pow 2 m := Nat.pow_add ..
    _ ≤ c * Nat.pow 10 e * Nat.pow 2 m := Nat.mul_le_mul_right _ hten

theorem mul_two_pow_lt {c e m : Nat} (h : c.log2 + 1 + m + 1 ≤ 3 * e) :
    2 * (c * Nat.pow 2 m) < Nat.pow 10 e := by
  have hc : c < Nat.pow 2 (c.log2 + 1) := Nat.lt_log2_self
  have hdoubled : c * Nat.pow 2 m < Nat.pow 2 (c.log2 + 1) * Nat.pow 2 m :=
    Nat.mul_lt_mul_of_pos_right hc (Nat.pow_pos Nat.two_pos)
  calc 2 * (c * Nat.pow 2 m) < 2 * (Nat.pow 2 (c.log2 + 1) * Nat.pow 2 m) :=
        Nat.mul_lt_mul_of_pos_left hdoubled Nat.two_pos
    _ = 2 * Nat.pow 2 (c.log2 + 1 + m) := congrArg (2 * ·) (Nat.pow_add ..).symm
    _ = Nat.pow 2 (c.log2 + 1 + m + 1) := Nat.pow_succ'.symm
    _ ≤ Nat.pow 10 e := two_pow_le_ten_pow h

theorem le_roundRank_mul {c e k n : Nat} (hc : c ≠ 0) (h : n + 52 ≤ 3 * e + k) :
    n * Nat.pow 2 52 ≤ roundRank (c * Nat.pow 10 e * Nat.pow 2 k) 1 :=
  Binary64.mul_le_roundRank (two_pow_le_mul hc h)

theorem roundRank_mul_eq_zero {c e k : Nat} (h : c.log2 + 1 + k + 1 ≤ 3 * e) :
    roundRank (c * Nat.pow 2 k) (Nat.pow 10 e) = 0 :=
  Binary64.roundRank_eq_zero (mul_two_pow_lt h)

/-- A decimal with a large exponent is past the finite ranks. -/
theorem finiteRanks_le_rank {c e : Nat} (hc : c ≠ 0) (he : 400 ≤ e) :
    finiteRanks ≤ rank ⟨c, .ofNat e⟩ := by
  obtain ⟨k, hunits, hk⟩ := Binary64.exists_unitsPerOne_eq
  rw [rank_ofNat, hunits]
  exact le_roundRank_mul hc (by omega)

/-- A decimal with a small exponent is nearest to zero. -/
theorem rank_eq_zero {c e : Nat} (he : c.log2 + 1080 < 3 * (e + 1)) :
    rank ⟨c, .negSucc e⟩ = 0 := by
  obtain ⟨k, hunits, hk⟩ := Binary64.exists_unitsPerOne_eq
  rw [rank_negSucc, hunits]
  exact roundRank_mul_eq_zero (by omega)

/-- The guards for far exponents decide as rounding does. -/
theorem toBinary64_eq_ofRank (negative : Bool) (d : Decimal) :
    d.toBinary64 negative = ofRank negative d.rank := by
  obtain ⟨c, e⟩ := d
  by_cases hc : c = 0
  · subst hc
    rw [toBinary64, if_pos rfl, rank_zero, Binary64.zero]
  rw [toBinary64, if_neg hc]
  cases e with
  | ofNat e =>
    by_cases he : 400 ≤ e
    · have hlarge := finiteRanks_le_rank hc he
      simp only [if_pos he, ofRank, dif_neg (Nat.not_lt.2 hlarge)]
    · simp only [if_neg he, ofRatio, rank_ofNat]
  | negSucc e =>
    by_cases he : c.log2 + 1080 < 3 * (e + 1)
    · simp only [if_pos he, rank_eq_zero he, Binary64.zero]
    · simp only [if_neg he, ofRatio, rank_negSucc]

/-- Factors of ten of the coefficient count as well in the exponent. -/
theorem rank_shift (c k : Nat) (e : Int) :
    rank ⟨c * Nat.pow 10 k, e⟩ = rank ⟨c, e + k⟩ := by
  have hpowers : Nat.pow 10 k * Nat.pow 10 e.toNat * Nat.pow 10 (-(e + k)).toNat =
      Nat.pow 10 (e + k).toNat * Nat.pow 10 (-e).toNat := by
    simp only [Nat.pow_eq, ← Nat.pow_add]
    congr 1
    omega
  refine Binary64.roundRank_eq_of_mul_eq (denominator_pos _) (denominator_pos _) ?_
  simp only [numerator, denominator]
  generalize unitsPerOne = u
  calc c * Nat.pow 10 k * Nat.pow 10 e.toNat * u * Nat.pow 10 (-(e + k)).toNat
      = c * (Nat.pow 10 k * Nat.pow 10 e.toNat * Nat.pow 10 (-(e + k)).toNat) * u := by ac_rfl
    _ = c * Nat.pow 10 (e + k).toNat * u * Nat.pow 10 (-e).toNat := by
        rw [hpowers]
        ac_rfl

/-- The exact decimal of a rank is rounded to that rank. -/
theorem rank_ofUnits (w : Nat) : rank (ofUnits (Binary64.units w)) = w := by
  have hround : ∀ n, roundRank (Binary64.units w * Nat.pow 5 n * Nat.pow 2 n) (Nat.pow 10 n) =
      w := by
    intro n
    have hfactors : Nat.pow 10 n = Nat.pow 5 n * Nat.pow 2 n := Nat.mul_pow 5 2 n
    have hpos : 0 < Nat.pow 10 n := Nat.pow_pos (by decide)
    calc roundRank (Binary64.units w * Nat.pow 5 n * Nat.pow 2 n) (Nat.pow 10 n)
        = roundRank (Binary64.units w * Nat.pow 10 n) (1 * Nat.pow 10 n) := by
          rw [Nat.one_mul, Nat.mul_assoc, ← hfactors]
      _ = w := by
          rw [Binary64.roundRank_mul_right _ _ hpos, Binary64.roundRank_units]
  obtain ⟨k, hunits, hk⟩ := Binary64.exists_unitsPerOne_eq
  have hden : (-(-1074 : Int)).toNat = k := by omega
  have hnum : Nat.pow 10 (-1074 : Int).toNat = 1 := rfl
  simp only [ofUnits, rank, numerator, denominator, hden, hnum, hunits, Nat.mul_one]
  rw [← hk]
  exact hround k

end Decimal

end DataShape
