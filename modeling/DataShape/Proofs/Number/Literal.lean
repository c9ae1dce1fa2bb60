import DataShape.Number.Text
import DataShape.Proofs.Json.Spelling
import DataShape.Proofs.Number.Value

/-!
# Literals of numbers

A text with a digit in front, after a sign if there is one, is none of the special names. If it
is all digits it is an integer literal : one of 64 bits is read as an integer, without a sign if
it has none (`literal?_intDigits`), and a larger one as a double (`literal?_of_not_fits`). A
numeral with a fraction or an exponent, however it is spelled, is no integer literal, so it is read
as the double nearest to its decimal (`literal?_of_spelledAs`).

An integer that is nearest to a double is rounded to it again (`ofInt_equal`).
-/

namespace DataShape.Number

open Text (digits intDigits)
open Json (Spelling Spells Digits)

variable {cs ds : List Char} {minus : Bool} {n : Nat} {i : Int}

/-! ## Runs of digits -/

theorem natLiteral?_of_digits (h : Digits ds) : natLiteral? ds = some (Text.ofDigits ds) :=
  if_pos ⟨h.1, List.all_eq_true.2 h.2⟩

theorem natLiteral?_eq_none {c : Char} (hc : c ∈ cs) (h : c.isDigit = false) :
    natLiteral? cs = none :=
  if_neg fun hall => Bool.eq_false_iff.1 h (List.all_eq_true.1 hall.2 c hc)

/-- A digit stands at the front of a text. -/
def DigitAhead (cs : List Char) : Prop :=
  ∃ c r, cs = c :: r ∧ c.isDigit = true

theorem unsignedLiteral?_signed (h : DigitAhead cs) :
    unsignedLiteral? (Text.signed minus cs) = if minus then none else
      (natLiteral? cs).bind fun n => if n < UInt64.size then some (UInt64.ofNat n) else none := by
  obtain ⟨c, r, rfl, hc⟩ := h
  cases minus with
  | true =>
    have hnone : natLiteral? ('-' :: c :: r) = none := natLiteral?_eq_none List.mem_cons_self rfl
    simp [unsignedLiteral?, Text.signed, hnone]
  | false =>
    have hplus : c ≠ '+' := by
      rintro rfl
      exact absurd hc (by decide)
    simp only [unsignedLiteral?, Text.signed, Bool.false_eq_true, if_false]
    split
    · rename_i heq
      exact absurd (List.cons.inj heq).1 hplus
    · rfl

theorem signedLiteral?_signed (h : DigitAhead cs) :
    signedLiteral? (Text.signed minus cs) = (natLiteral? cs).bind fun n =>
      let i : Int := if minus then -n else n
      if Int64.minValue.toInt ≤ i ∧ i ≤ Int64.maxValue.toInt then some (Int64.ofInt i)
      else none := by
  obtain ⟨c, r, rfl, hc⟩ := h
  cases minus with
  | true =>
    simp only [signedLiteral?, Text.signed, if_true]
    cases natLiteral? (c :: r) <;> rfl
  | false =>
    simp only [signedLiteral?, Text.signed, Bool.false_eq_true, if_false]
    split
    · rename_i heq
      exact absurd hc ((List.cons.inj heq).1 ▸ by decide)
    · rename_i heq
      exact absurd hc ((List.cons.inj heq).1 ▸ by decide)
    · cases natLiteral? (c :: r) <;> rfl

theorem floatLiteral?_signed (h : DigitAhead cs) :
    floatLiteral? (Text.signed minus cs) = magnitudeLiteral? minus cs := by
  obtain ⟨c, r, rfl, hc⟩ := h
  cases minus with
  | true => rfl
  | false =>
    simp only [Text.signed, Bool.false_eq_true, if_false]
    unfold floatLiteral?
    split
    · rename_i heq
      exact absurd hc ((List.cons.inj heq).1 ▸ by decide)
    · rename_i heq
      exact absurd hc ((List.cons.inj heq).1 ▸ by decide)
    · rfl

/-! ## Integers -/

/-- The integers of 64 bits, with or without a sign. -/
def Fits (i : Int) : Prop :=
  Int64.minValue.toInt ≤ i ∧ i < UInt64.size

theorem fits_iff : Fits i ↔ -2 ^ 63 ≤ i ∧ i < 2 ^ 64 :=
  Iff.rfl

theorem fits_unsigned (n : UInt64) : Fits n.toNat := by
  have hn := n.toNat_lt
  rw [fits_iff]
  omega

theorem fits_signed (n : Int64) : Fits n.toInt := by
  have hlow := n.le_toInt
  have hhigh := n.toInt_lt
  rw [fits_iff]
  omega

/-- An integer of 64 bits as a number, the unsigned kind first. -/
def ofInteger (i : Int) : Number :=
  if 0 ≤ i then .unsigned (UInt64.ofNat i.toNat) else .signed (Int64.ofInt i)

theorem ofInteger_ne_float (i : Int) (x : Binary64) : ofInteger i ≠ .float x := by
  unfold ofInteger
  split <;> exact nofun

theorem exactInt?_ofInteger (h : Fits i) : (ofInteger i).exactInt? = some i := by
  obtain ⟨hlow, hhigh⟩ := h
  rw [ofInteger]
  split
  · have hlt : i.toNat < UInt64.size := by omega
    rw [exactInt?, UInt64.toNat_ofNat_of_lt' hlt]
    exact congrArg some (by omega)
  · have hlt : i < 2 ^ 63 := by omega
    rw [exactInt?, Int64.toInt_ofInt_of_le hlow hlt]

/-- The double nearest to a number that is kept as an integer. -/
theorem toBinary64_of_exactInt? {a : Number} (ha : ∀ x, a ≠ .float x) (h : a.exactInt? = some i) :
    a.toBinary64 = .ofInt i := by
  cases a with
  | unsigned n => exact congrArg Binary64.ofInt (Option.some.inj h)
  | signed n => exact congrArg Binary64.ofInt (Option.some.inj h)
  | float x => exact absurd rfl (ha x)

theorem digitAhead_of_digits (h : Digits ds) : DigitAhead ds := by
  obtain ⟨c, r, rfl⟩ := List.exists_cons_of_ne_nil h.1
  exact ⟨c, r, rfl, h.2 c List.mem_cons_self⟩

/-- Digits of an integer of 64 bits are read as one, of the signed kind if they have a sign. -/
theorem literal?_of_fits (hds : Digits ds)
    (h : Fits (if minus then -(Text.ofDigits ds : Int) else Text.ofDigits ds)) :
    literal? (Text.signed minus ds) = some (if minus
      then .signed (Int64.ofInt (-(Text.ofDigits ds : Int)))
      else .unsigned (UInt64.ofNat (Text.ofDigits ds))) := by
  have hahead := digitAhead_of_digits hds
  rw [literal?, unsignedLiteral?_signed hahead, signedLiteral?_signed hahead,
    natLiteral?_of_digits hds]
  cases minus with
  | true =>
    have hmax : -(Text.ofDigits ds : Int) ≤ Int64.maxValue.toInt :=
      (Int.neg_nonpos_of_nonneg (Int.natCast_nonneg _)).trans (by decide)
    have hrange : Int64.minValue.toInt ≤ -(Text.ofDigits ds : Int) ∧ _ := ⟨h.1, hmax⟩
    simp only [if_true, Option.bind_some, if_pos hrange]
  | false =>
    have hlt : Text.ofDigits ds < UInt64.size := Int.ofNat_lt.1 h.2
    simp only [Bool.false_eq_true, if_false, Option.bind_some, if_pos hlt]

/-- Digits past 64 bits are read as a double. -/
theorem literal?_of_not_fits (hds : Digits ds)
    (h : ¬ Fits (if minus then -(Text.ofDigits ds : Int) else Text.ofDigits ds)) :
    literal? (Text.signed minus ds) = (floatLiteral? (Text.signed minus ds)).map float := by
  have hahead := digitAhead_of_digits hds
  rw [fits_iff] at h
  rw [literal?, unsignedLiteral?_signed hahead, signedLiteral?_signed hahead,
    natLiteral?_of_digits hds]
  have hbounds : Int64.minValue.toInt = -2 ^ 63 ∧ Int64.maxValue.toInt = 2 ^ 63 - 1 := by decide
  cases minus with
  | true =>
    have hrange : ¬ (Int64.minValue.toInt ≤ -(Text.ofDigits ds : Int) ∧
        -(Text.ofDigits ds : Int) ≤ Int64.maxValue.toInt) := by
      simp only [if_true] at h
      omega
    simp only [if_true, Option.bind_some, if_neg hrange]
  | false =>
    simp only [Bool.false_eq_true, if_false] at h
    have hsize : ¬ Text.ofDigits ds < UInt64.size := by
      rw [UInt64.size]
      omega
    have hrange : ¬ (Int64.minValue.toInt ≤ (Text.ofDigits ds : Int) ∧
        (Text.ofDigits ds : Int) ≤ Int64.maxValue.toInt) := by omega
    simp only [Bool.false_eq_true, if_false, Option.bind_some, if_neg hsize, if_neg hrange]

/-- The digits of an integer and its sign stand for it. -/
theorem value_digits_natAbs (i : Int) :
    (if decide (i < 0) then -(Text.ofDigits (digits i.natAbs) : Int)
      else Text.ofDigits (digits i.natAbs)) = i := by
  rw [Text.ofDigits_digits]
  by_cases hi : i < 0
  · rw [if_pos (decide_eq_true hi)]
    omega
  · rw [if_neg (by simpa using hi)]
    omega

/-- An integer of 64 bits is read as one. -/
theorem literal?_intDigits (h : Fits i) : literal? (intDigits i) = some (ofInteger i) := by
  have hvalue := value_digits_natAbs i
  rw [intDigits, literal?_of_fits (Json.digits_digits _) (hvalue.symm ▸ h), ofInteger]
  by_cases hi : i < 0
  · have hneg : -(i.natAbs : Int) = i := by omega
    rw [if_pos (decide_eq_true hi), if_neg (Int.not_le.2 hi), Text.ofDigits_digits, hneg]
  · have habs : i.natAbs = i.toNat := by omega
    rw [if_neg (by simpa using hi), if_pos (Int.not_lt.1 hi), Text.ofDigits_digits, habs]

/-- An integer past 64 bits is read as a double. -/
theorem literal?_intDigits_of_not_fits (h : ¬ Fits i) :
    literal? (intDigits i) = (floatLiteral? (intDigits i)).map float :=
  literal?_of_not_fits (Json.digits_digits _) ((value_digits_natAbs i).symm ▸ h)

/-! ## Doubles -/

theorem exponentLiteral?_of_text {exponent : Option Int} (h : Json.ExponentText exponent cs) :
    exponentLiteral? cs = some (exponent.getD 0) := by
  cases h with
  | absent => rfl
  | @bare mark ds hmark hds =>
    have hsign : ∀ {c : Char} {r}, c.isDigit = false → ds ≠ c :: r := fun hc heq =>
      Bool.eq_false_iff.1 hc (hds.2 _ (heq ▸ List.mem_cons_self))
    simp only [exponentLiteral?, if_pos hmark]
    split
    · exact absurd rfl (hsign rfl)
    · exact absurd rfl (hsign rfl)
    · rw [natLiteral?_of_digits hds]
      rfl
  | minus hmark hds =>
    simp only [exponentLiteral?, if_pos hmark, natLiteral?_of_digits hds]
    rfl
  | plus hmark hds =>
    simp only [exponentLiteral?, if_pos hmark, natLiteral?_of_digits hds]
    rfl

/-- A numeral is read part by part. -/
theorem decimalLiteral?_of_spelledAs {s : Spelling} (hs : s.Valid) (h : s.SpelledAs cs) :
    decimalLiteral? cs = some s.decimal := by
  obtain ⟨tail, htail, rfl⟩ := h
  obtain ⟨hdigit, hpoint⟩ := htail.ahead
  have hne : s.whole ≠ [] := hs.whole.1.1
  have hread := exponentLiteral?_of_text htail
  rw [Spelling.decimal]
  cases hfraction : s.fraction with
  | none =>
    have hsplit := Text.splitDigits_of_digits hs.whole.1.2 hdigit
    simp only [Json.fractionChars, List.nil_append, decimalLiteral?, hsplit]
    -- The point would stand where the exponent starts, if there is one.
    split
    · exact absurd rfl hpoint
    · simp only [hne, false_and, if_false, hread]
      rfl
  | some ds =>
    have hahead : Text.NoDigitAhead ('.' :: (ds ++ tail)) := Json.noDigitAhead_cons rfl
    have hsplit := Text.splitDigits_of_digits hs.whole.1.2 hahead
    have hrest := Text.splitDigits_of_digits (hs.fraction ds hfraction).2 hdigit
    simp only [Json.fractionChars, List.cons_append, decimalLiteral?, hsplit, hrest, hne,
      false_and, if_false, hread]
    rfl

/-- A text with a digit in front is none of the special names. -/
theorem magnitudeLiteral?_of_digitAhead (h : DigitAhead cs) :
    magnitudeLiteral? minus cs = (decimalLiteral? cs).map fun d => d.toBinary64 minus := by
  obtain ⟨c, r, rfl, hc⟩ := h
  have hlower : c.toLower = c := by
    have hnine : c.val ≤ '9'.val := of_decide_eq_true (Bool.and_eq_true_iff.1 hc).2
    exact dif_neg fun h => absurd (UInt32.le_trans h.1 hnine) (by decide)
  have hname : ∀ d ds, d.isDigit = false →
      String.ofList ((c :: r).map Char.toLower) ≠ String.ofList (d :: ds) := by
    intro d ds hd heq
    rw [List.map_cons, hlower] at heq
    obtain rfl := (List.cons.inj (String.ofList_injective heq)).1
    exact absurd hc (by simp [hd])
  simp only [magnitudeLiteral?]
  rw [if_neg (hname 'n' ['a', 'n'] rfl), if_neg]
  rintro (h | h)
  · exact hname 'i' ['n', 'f'] rfl h
  · exact hname 'i' ['n', 'f', 'i', 'n', 'i', 't', 'y'] rfl h

theorem digitAhead_of_spelledAs {s : Spelling} (hs : s.Valid) (h : s.SpelledAs cs) :
    DigitAhead cs := by
  obtain ⟨tail, -, rfl⟩ := h
  obtain ⟨c, r, hcr⟩ := List.exists_cons_of_ne_nil hs.whole.1.1
  exact ⟨c, _, by rw [hcr, List.cons_append], hs.whole.1.2 c (hcr ▸ List.mem_cons_self)⟩

/-- A numeral and its sign are read as the double nearest to the decimal. -/
theorem floatLiteral?_of_spelledAs {s : Spelling} (hs : s.Valid) (h : s.SpelledAs cs) :
    floatLiteral? (Text.signed minus cs) = some (s.decimal.toBinary64 minus) := by
  have hahead := digitAhead_of_spelledAs hs h
  rw [floatLiteral?_signed hahead, magnitudeLiteral?_of_digitAhead hahead,
    decimalLiteral?_of_spelledAs hs h]
  rfl

/-- A numeral with a fraction or an exponent is no integer, so it is read as a double. -/
theorem literal?_of_spelledAs {s : Spelling} (hs : s.Valid) (h : s.SpelledAs cs)
    (hreal : s.fraction = none → s.exponent ≠ none) :
    literal? (Text.signed minus cs) = some (.float (s.decimal.toBinary64 minus)) := by
  have hahead := digitAhead_of_spelledAs hs h
  have hfloat : floatLiteral? (Text.signed minus cs) = _ := floatLiteral?_of_spelledAs hs h
  have hnone : natLiteral? cs = none := by
    obtain ⟨tail, htail, rfl⟩ := h
    cases hfraction : s.fraction with
    | some ds => exact natLiteral?_eq_none (c := '.') (by simp [Json.fractionChars]) rfl
    | none =>
      obtain ⟨e, he⟩ := Option.ne_none_iff_exists'.1 (hreal hfraction)
      have hne : tail ≠ [] := by
        rintro rfl
        rw [he] at htail
        cases htail
      obtain ⟨mark, r, hmark, rfl⟩ := htail.exists_mark hne
      refine natLiteral?_eq_none (c := mark) (by simp) ?_
      rcases hmark with rfl | rfl <;> rfl
  rw [literal?, unsignedLiteral?_signed hahead, signedLiteral?_signed hahead, hnone, hfloat]
  cases minus <;> rfl

theorem literal?_of_spells {d : Decimal} {rank : Fin finiteRanks} (h : Spells cs d)
    (hrank : d.rank = rank) :
    literal? (Text.signed minus cs) = some (.float (.finite minus rank)) := by
  obtain ⟨s, hs, rfl, hreal, hdecimal⟩ := h
  rw [literal?_of_spelledAs hs s.spelledAs_chars hreal, Decimal.toBinary64_eq_ofRank, hdecimal,
    hrank, Binary64.ofRank_finite]

/-- Where a rank is nearest to an integer, the double nearest to it with a sign is that rank with
the sign. -/
theorem ofInt_equal {rank : Fin finiteRanks} {k : Nat}
    (h : Binary64.roundRank (k * Binary64.unitsPerOne) 1 = rank) :
    (Binary64.ofInt (if minus then -(k : Int) else k)).equal (.finite minus rank) = true := by
  have habs : (if minus then -(k : Int) else k).natAbs = k := by split <;> omega
  have hsign : decide ((if minus then -(k : Int) else k) < 0) = minus ∨ rank.val = 0 := by
    by_cases hk : k = 0
    · subst hk
      rw [Nat.zero_mul, Binary64.roundRank_eq_zero Nat.one_pos] at h
      exact Or.inr h.symm
    · refine Or.inl ?_
      cases minus <;> simp [Nat.pos_of_ne_zero hk]
  rw [Binary64.ofInt, Binary64.ofRatio, habs, h, Binary64.ofRank_finite]
  simp only [Binary64.equal, beq_self_eq_true, Bool.true_and, Bool.or_eq_true, beq_iff_eq]
  exact hsign

end DataShape.Number
