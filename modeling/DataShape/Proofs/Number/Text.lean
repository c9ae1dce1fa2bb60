import DataShape.Proofs.Number.Literal

/-!
# Written numbers read back

The text of a finite double is either that of an integer of 64 bits (`WrittenAs`) or read back
as the double (`writtenAs_or_literal?`). Up to `2 ^ 53` the integer is the double itself. Past
that the digits are the fewest that read back as the double, and zeros up to the point : as long
as they fit 64 bits they are read as an integer, which is rounded to the double but need not be
equal to it (`SpellsAnother`).

Integers are read back as integers, and the special names as what they name. No text has a blank
in it, so nothing is trimmed (`parse_display_of_literal?`). Every number is therefore read back,
and as an equal one with this one exception (`display_then_parse`).
-/

namespace DataShape

namespace Number

open Text (digits intDigits)
open Json (Spelling Spells)

variable {cs : List Char} {minus : Bool} {n : Nat} {i : Int}

/-! ## What is written -/

/-- A double past the largest safe integer whose text spells another integer of 64 bits. -/
def SpellsAnother (a : Number) : Prop :=
  ∃ x m i, a = .float x ∧ x.toInt? = some m ∧ largestSafe < m.natAbs ∧
    a.displayChars = intDigits i ∧ Fits i ∧ i ≠ m

theorem displayChars_of_safe {rank : Fin finiteRanks}
    (hx : (Binary64.finite minus rank).toInt? = some i) (hi : i.natAbs ≤ largestSafe) :
    (Number.float (.finite minus rank)).displayChars = intDigits i := by
  rw [displayChars, hx]
  exact if_pos hi

theorem displayChars_of_not_safe {rank : Fin finiteRanks}
    (h : ∀ i, (Binary64.finite minus rank).toInt? = some i → ¬ i.natAbs ≤ largestSafe) :
    (Number.float (.finite minus rank)).displayChars = Text.signed minus (plain.write rank) := by
  rw [displayChars]
  cases hx : (Binary64.finite minus rank).toInt? with
  | none => rfl
  | some i => exact if_neg (h i hx)

theorem intDigits_signed (hn : minus = true → n ≠ 0) :
    intDigits (if minus then -(n : Int) else n) = Text.signed minus (digits n) := by
  have habs : (if minus then -(n : Int) else n).natAbs = n := by split <;> omega
  have hsign : decide ((if minus then -(n : Int) else n) < 0) = minus := by
    cases minus with
    | true => simpa [Nat.pos_iff_ne_zero] using hn rfl
    | false => simp
  rw [intDigits, habs, hsign]

/-- A decimal that is written as an integer is read as that integer if it has 64 bits, and as a
double otherwise. -/
theorem literal?_integral {rank : Fin finiteRanks} (hn : n ≠ 0) (hrank : Decimal.rank ⟨n, 0⟩ = rank)
    (hfits : ¬ Fits (if minus then -(n : Int) else n)) :
    literal? (Text.signed minus (digits n)) = some (.float (.finite minus rank)) := by
  have hvalid : Spelling.Valid ⟨digits n, none, none⟩ := ⟨Json.whole_digits n, nofun⟩
  have hchars : Spelling.chars ⟨digits n, none, none⟩ = digits n := List.append_nil _
  have hdecimal : Spelling.decimal ⟨digits n, none, none⟩ = ⟨n, 0⟩ := by
    refine Json.ofDigits_eq ?_ rfl
    rw [Option.getD_none, List.append_nil, Text.ofDigits_digits]
  have hread : floatLiteral? (Text.signed minus _) = _ :=
    floatLiteral?_of_spelledAs hvalid (Spelling.spelledAs_chars _)
  rw [hchars, hdecimal, Decimal.toBinary64_eq_ofRank, hrank, Binary64.ofRank_finite] at hread
  rw [← intDigits_signed fun _ => hn] at hread ⊢
  rw [literal?_intDigits_of_not_fits hfits, hread]
  rfl

theorem plain_write (w : Nat) :
    plain.write w = Decimal.positionalDigits false
      (digits (Decimal.shortest .upward w).coefficient) (Decimal.shortest .upward w).exponent := by
  simp only [Decimal.Layout.write, plain, if_true]

/-- A decimal without a fraction is written as an integer. -/
theorem positionalDigits_ofNat {c : Nat} (hc : c ≠ 0) (e : Nat) :
    Decimal.positionalDigits false (digits c) (.ofNat e) = digits (c * Nat.pow 10 e) := by
  rw [Text.digits_mul_pow hc]
  exact List.append_nil _

/-- A decimal with a fraction is written with a point. -/
theorem spells_fraction {c : Nat} (hc : c ≠ 0) (e : Nat) :
    Spells (Decimal.positionalDigits false (digits c) (.negSucc e)) ⟨c, .negSucc e⟩ := by
  simp only [Decimal.positionalDigits]
  split
  · exact Json.spells_pointed hc ‹_›
  · exact Json.spells_padded (Nat.not_lt.1 ‹_›)

/-- Integers up to the largest safe one have 64 bits. -/
theorem fits_of_safe (h : i.natAbs ≤ largestSafe) : Fits i := by
  have hsafe : largestSafe = 2 ^ 53 := rfl
  rw [fits_iff]
  omega

/-- The text of a double is that of an integer of 64 bits. The integer is rounded to the double, and
is the double itself up to the largest safe one. -/
structure WrittenAs (x : Binary64) (i : Int) : Prop where
  fits : Fits i
  chars : (Number.float x).displayChars = intDigits i
  rounds : (Binary64.ofInt i).equal x = true
  integral : ∃ m, x.toInt? = some m ∧ (m = i ∨ largestSafe < m.natAbs)

theorem writtenAs_of_safe {rank : Fin finiteRanks}
    (hi : (Binary64.finite minus rank).toInt? = some i) (hle : i.natAbs ≤ largestSafe) :
    WrittenAs (.finite minus rank) i where
  fits := fits_of_safe hle
  chars := displayChars_of_safe hi hle
  rounds := by
    obtain ⟨k, hk, rfl⟩ := Binary64.exists_units_eq_of_toInt? hi
    exact ofInt_equal (hk ▸ Binary64.roundRank_units rank)
  integral := ⟨i, hi, Or.inl rfl⟩

/-- Digits without a point that are rounded to a double past the largest safe integer. -/
theorem writtenAs_or_literal?_of_large {rank : Fin finiteRanks} (hn : n ≠ 0)
    (hrank : Binary64.roundRank (n * Binary64.unitsPerOne) 1 = rank)
    (hlarge : ∀ i, (Binary64.finite minus rank).toInt? = some i → ¬ i.natAbs ≤ largestSafe)
    (htext : (Number.float (.finite minus rank)).displayChars = Text.signed minus (digits n)) :
    (∃ i, WrittenAs (.finite minus rank) i) ∨
      literal? (Number.float (.finite minus rank)).displayChars =
        some (.float (.finite minus rank)) := by
  have hdvd : Binary64.unitsPerOne ∣ Binary64.units rank := by
    obtain ⟨k, hunits, -⟩ := Binary64.exists_unitsPerOne_eq
    rw [← hrank, hunits]
    exact Binary64.dvd_units_roundRank n k
  obtain ⟨m, hm⟩ := exists_eq_mul_left_of_dvd hdvd
  have hx := Binary64.toInt?_finite (s := minus) hm
  by_cases hfits : Fits (if minus then -(n : Int) else n)
  · have hchars := htext.trans (intDigits_signed fun _ => hn).symm
    have hpast := Nat.not_le.1 (hlarge _ hx)
    exact Or.inl ⟨_, hfits, hchars, ofInt_equal hrank, _, hx, Or.inr hpast⟩
  · have hone : n * Nat.pow 10 0 = n := Nat.mul_one n
    have hdecimal : Decimal.rank ⟨n, 0⟩ = rank := by
      rw [← hrank, ← hone, ← Decimal.rank_ofNat, hone]
      rfl
    exact Or.inr (htext ▸ literal?_integral hn hdecimal hfits)

/-- The text of a finite double is that of an integer of 64 bits, or it is read as the double. -/
theorem writtenAs_or_literal? (minus : Bool) (rank : Fin finiteRanks) :
    (∃ i, WrittenAs (.finite minus rank) i) ∨
      literal? (Number.float (.finite minus rank)).displayChars =
        some (.float (.finite minus rank)) := by
  by_cases hsafe : ∃ i, (Binary64.finite minus rank).toInt? = some i ∧ i.natAbs ≤ largestSafe
  · obtain ⟨i, hi, hle⟩ := hsafe
    exact Or.inl ⟨i, writtenAs_of_safe hi hle⟩
  have hlarge : ∀ i, (Binary64.finite minus rank).toInt? = some i → ¬ i.natAbs ≤ largestSafe :=
    fun i hi hle => hsafe ⟨i, hi, hle⟩
  have hpos : rank.val ≠ 0 := fun hzero =>
    hlarge 0 (Binary64.toInt?_of_rank_eq_zero hzero) (Nat.zero_le _)
  have hcoefficient := Decimal.coefficient_shortest_ne_zero .upward rank.isLt hpos
  have hrank := Decimal.rank_shortest .upward rank.isLt
  have htext := displayChars_of_not_safe hlarge
  rw [plain_write] at htext
  generalize Decimal.shortest .upward rank = d at hcoefficient hrank htext
  obtain ⟨c, e⟩ := d
  cases e with
  | ofNat e =>
    have hn : c * Nat.pow 10 e ≠ 0 := Nat.mul_ne_zero hcoefficient (Nat.pow_pos (by decide)).ne'
    rw [positionalDigits_ofNat hcoefficient] at htext
    exact writtenAs_or_literal?_of_large hn (Decimal.rank_ofNat c e ▸ hrank) hlarge htext
  | negSucc e =>
    exact Or.inr (htext ▸ literal?_of_spells (spells_fraction hcoefficient e) hrank)

/-! ## Blanks are absent -/

theorem isBlankChar_of_mem_digits {c : Char} (h : c ∈ digits n) : Text.isBlankChar c = false :=
  Text.isBlankChar_of_isDigit (Text.isDigit_of_mem_digits h)

theorem isBlankChar_of_mem_signed {c : Char} (h : ∀ c ∈ cs, Text.isBlankChar c = false)
    (hc : c ∈ Text.signed minus cs) : Text.isBlankChar c = false := by
  cases minus with
  | true =>
    obtain rfl | hc := List.mem_cons.1 hc
    · decide
    · exact h c hc
  | false => exact h c hc

/-- A numeral has no blanks in it. -/
theorem isBlankChar_of_mem_positionalDigits {c : Char} {e : Int}
    (h : c ∈ Decimal.positionalDigits false (digits n) e) : Text.isBlankChar c = false := by
  have hzero : ∀ {k}, c ∈ List.replicate k '0' → Text.isBlankChar c = false := fun h =>
    Text.isBlankChar_of_isDigit (Json.isDigit_of_mem_zeros h)
  have hpoint : Text.isBlankChar '.' = false := by decide
  have hnought : Text.isBlankChar '0' = false := by decide
  cases e with
  | ofNat e =>
    rw [Decimal.positionalDigits, if_neg (by decide), List.append_nil] at h
    exact (List.mem_append.1 h).elim isBlankChar_of_mem_digits hzero
  | negSucc e =>
    simp only [Decimal.positionalDigits] at h
    split at h
    · obtain h | h := List.mem_append.1 h
      · exact isBlankChar_of_mem_digits (List.mem_of_mem_take h)
      · obtain rfl | h := List.mem_cons.1 h
        · exact hpoint
        · exact isBlankChar_of_mem_digits (List.mem_of_mem_drop h)
    · obtain rfl | h := List.mem_cons.1 h
      · exact hnought
      obtain rfl | h := List.mem_cons.1 h
      · exact hpoint
      · exact (List.mem_append.1 h).elim hzero isBlankChar_of_mem_digits

/-- No number is written with a blank. -/
theorem isBlankChar_of_mem_displayChars {a : Number} {c : Char} (h : c ∈ a.displayChars) :
    Text.isBlankChar c = false := by
  have hinteger : ∀ i, c ∈ intDigits i → Text.isBlankChar c = false := fun i =>
    isBlankChar_of_mem_signed fun _ => isBlankChar_of_mem_digits
  have hname : ∀ {ds : List Char}, ds.any Text.isBlankChar = false →
      ∀ d ∈ ds, Text.isBlankChar d = false := fun h d hd =>
    Bool.eq_false_iff.2 fun hblank => Bool.eq_false_iff.1 h (List.any_eq_true.2 ⟨d, hd, hblank⟩)
  cases a with
  | unsigned n => exact isBlankChar_of_mem_digits h
  | signed n => exact hinteger _ h
  | float x =>
    cases x with
    | nan => exact hname (by decide) c h
    | infinite minus => exact isBlankChar_of_mem_signed (hname (by decide)) h
    | finite minus rank =>
      have hplain : c ∈ Text.signed minus (plain.write rank) → Text.isBlankChar c = false := by
        rw [plain_write]
        exact isBlankChar_of_mem_signed fun _ => isBlankChar_of_mem_positionalDigits
      rw [displayChars] at h
      cases hx : (Binary64.finite minus rank).toInt? with
      | none =>
        rw [hx] at h
        exact hplain h
      | some i =>
        rw [hx, finiteChars] at h
        split at h
        · exact hinteger i h
        · exact hplain h

/-- What is written is read without trimming. -/
theorem parse_display_of_literal? {a b : Number} (h : literal? a.displayChars = some b) :
    parse a.display = .ok b := by
  rw [parse, display, String.toList_ofList,
    Text.trimChars_of_forall fun _ => isBlankChar_of_mem_displayChars, h]

/-! ## What is read back -/

theorem equal_float_iff {b : Number} {x : Binary64} {m : Int} (hb : b.exactInt? = some i)
    (hx : x.toInt? = some m) : b.equal (.float x) = true ↔ m = i := by
  have hvalue : (Number.float x).value? = some ((m : ℝ) : EReal) := Binary64.toInt?_eq_some_iff.1 hx
  rw [equal_iff_exists_value, (exactInt?_eq_some_iff.1 hb).1, hvalue]
  simp only [Option.some_inj, exists_eq_left', EReal.coe_eq_coe_iff, Int.cast_inj]

theorem isNaN_ofInteger (i : Int) : (ofInteger i).isNaN = false := by
  unfold ofInteger
  split <;> rfl

theorem not_spellsAnother_of_literal? {x : Binary64}
    (h : literal? (Number.float x).displayChars = some (.float x)) :
    ¬ (Number.float x).SpellsAnother := by
  rintro ⟨y, m, i, -, -, -, hchars, hfits, -⟩
  rw [hchars, literal?_intDigits hfits] at h
  exact ofInteger_ne_float i x (Option.some.inj h)

/-- What the text of a number is read as. -/
structure ReadsAs (a b : Number) : Prop where
  isNaN_eq : b.isNaN = a.isNaN
  /-- A double is the one nearest to what is read. -/
  rounds : ∀ x, a = .float x → x.isNaN = false → b.toBinary64.equal x = true
  equal_iff : b.equal a = true ↔ a.isNaN = false ∧ ¬ a.SpellsAnother

/-- An integer is read back as an integer. -/
theorem readsAs_ofInteger {a : Number} (ha : ∀ x, a ≠ .float x) (hi : a.exactInt? = some i)
    (hfits : Fits i) : a.ReadsAs (ofInteger i) := by
  have hNaN : a.isNaN = false := by
    cases a with
    | float x => exact absurd rfl (ha x)
    | _ => rfl
  refine ⟨(isNaN_ofInteger i).trans hNaN.symm, fun x hx => absurd hx (ha x),
    iff_of_true ?_ ⟨hNaN, ?_⟩⟩
  · rw [equal, exactInt?_ofInteger hfits, hi]
    exact beq_self_eq_true i
  · rintro ⟨x, -, -, hx, -⟩
    exact ha x hx

/-- A double that is read back as itself. -/
theorem readsAs_float {x : Binary64} (hx : x.isNaN = false)
    (h : literal? (Number.float x).displayChars = some (.float x)) :
    (Number.float x).ReadsAs (.float x) := by
  obtain ⟨v, hv⟩ : ∃ v, (Number.float x).value? = some v := exists_value?_iff.2 hx
  refine ⟨rfl, ?_, iff_of_true (equal_iff_exists_value.2 ⟨v, hv, hv⟩)
    ⟨hx, not_spellsAnother_of_literal? h⟩⟩
  rintro y ⟨⟩ -
  exact Binary64.equal_iff.2 ⟨v, hv, hv⟩

/-- Two integers of 64 bits have two texts. -/
theorem intDigits_inj {j : Int} (hi : Fits i) (hj : Fits j) (h : intDigits i = intDigits j) :
    i = j := by
  have hread : some (ofInteger i) = some (ofInteger j) := by
    rw [← literal?_intDigits hi, ← literal?_intDigits hj, h]
  have hexact := congrArg exactInt? (Option.some.inj hread)
  rw [exactInt?_ofInteger hi, exactInt?_ofInteger hj] at hexact
  exact Option.some.inj hexact

/-- A double that is read back as an integer. -/
theorem WrittenAs.readsAs {x : Binary64} (h : WrittenAs x i) :
    (Number.float x).ReadsAs (ofInteger i) := by
  obtain ⟨m, hm, hlarge⟩ := h.integral
  have hexact := exactInt?_ofInteger h.fits
  have hNaN : x.isNaN = false := by
    cases x with
    | nan => exact nomatch hm
    | _ => rfl
  refine ⟨(isNaN_ofInteger i).trans hNaN.symm, ?_, (equal_float_iff hexact hm).trans ⟨?_, ?_⟩⟩
  · rintro x ⟨⟩ -
    rw [toBinary64_of_exactInt? (ofInteger_ne_float i) hexact]
    exact h.rounds
  · rintro rfl
    refine ⟨hNaN, ?_⟩
    rintro ⟨x, k, j, ⟨⟩, hk, -, hchars, hj, hne⟩
    obtain rfl := Option.some.inj (hm.symm.trans hk)
    exact hne (intDigits_inj hj h.fits (hchars.symm.trans h.chars))
  · rintro ⟨-, hnot⟩
    by_contra hne
    exact hnot ⟨x, m, i, rfl, hm, hlarge.resolve_left hne, h.chars, h.fits, Ne.symm hne⟩

theorem exists_literal?_displayChars (a : Number) :
    ∃ b, literal? a.displayChars = some b ∧ a.ReadsAs b := by
  cases a with
  | unsigned n =>
    have htext : (Number.unsigned n).displayChars = intDigits n.toNat := by
      have hsign : ¬ (n.toNat : Int) < 0 := Int.not_lt.2 (Int.natCast_nonneg _)
      rw [intDigits, decide_eq_false hsign, Int.natAbs_natCast]
      rfl
    exact ⟨_, htext ▸ literal?_intDigits (fits_unsigned n),
      readsAs_ofInteger (by simp) rfl (fits_unsigned n)⟩
  | signed n =>
    exact ⟨_, literal?_intDigits (fits_signed n),
      readsAs_ofInteger (by simp) rfl (fits_signed n)⟩
  | float x =>
    cases x with
    | nan =>
      refine ⟨.float .nan, rfl, rfl, ?_, iff_of_false (by decide) fun h => absurd h.1 (by decide)⟩
      rintro x ⟨⟩ hx
      cases hx
    | infinite minus =>
      have hread : literal? (Number.float (.infinite minus)).displayChars =
          some (.float (.infinite minus)) := by
        cases minus <;> rfl
      exact ⟨_, hread, readsAs_float rfl hread⟩
    | finite minus rank =>
      obtain ⟨i, hi⟩ | hread := writtenAs_or_literal? minus rank
      · exact ⟨_, hi.chars ▸ literal?_intDigits hi.fits, hi.readsAs⟩
      · exact ⟨_, hread, readsAs_float rfl hread⟩

end Number

/-- The text of a number is always read : not-a-number as not-a-number, and any other as a number
that rounds to the one that was written. The two are equal unless that was a double past
`2 ^ 53` whose text, padded with zeros, spells another integer of 64 bits. -/
theorem display_then_parse (a : Number) : ∃ b, Number.parse a.display = .ok b ∧ a.ReadsAs b := by
  obtain ⟨b, hread, hb⟩ := Number.exists_literal?_displayChars a
  exact ⟨b, Number.parse_display_of_literal? hread, hb⟩

/-- The double `2 ^ 60` is written with sixteen digits and three zeros, which is the text of another
integer. -/
theorem padded_text_reads_as_another :
    ¬ ∀ a : Number, a.isNaN = false → ∃ b, Number.parse a.display = .ok b ∧ b.equal a = true := by
  intro h
  obtain ⟨b, hb, hequal⟩ := h (.float (.ofInt 1152921504606846976)) (by decide +kernel)
  have hread : Number.parse (Number.float (.ofInt 1152921504606846976)).display =
      .ok (.unsigned 1152921504606847000) := by decide +kernel
  obtain rfl := Except.ok.inj (hread.symm.trans hb)
  exact absurd hequal (by decide +kernel)

end DataShape
