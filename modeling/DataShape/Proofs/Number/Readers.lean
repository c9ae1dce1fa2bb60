import DataShape.Proofs.Number.Text
import DataShape.Proofs.Value.RoundTrip

/-!
# Two readers of numbers

JSON sorts numerals by how they are spelled : with a fraction or an exponent a numeral is a double,
and so is a minus sign in front of zero. Literals are tried as integers first. The parts of a
numeral decide what each reader makes of it, and the two numbers are equal
(`isLiteralOf_of_classify`). Their kinds differ in one case : the zero with a minus sign is an
integer as a literal.

A literal that is no integer is rounded to the nearest double. The readers can only agree if JSON
converts a numeral to the nearest double too (`Json.Conversion.Nearest`), which scaling by powers of
ten does not always do.

A text that JSON reads as a number is a numeral with blanks around it, none of which is left when
the literal is trimmed. So whatever JSON reads as a number is a literal of an equal one
(`number_readers_agree`).
-/

namespace DataShape

open Json (Numeral Spelling)

/-! ## Nearest doubles -/

namespace Binary64

theorem isNaN_ofRank (minus : Bool) (w : Nat) : (ofRank minus w).isNaN = false := by
  unfold ofRank
  split <;> rfl

end Binary64

namespace Json.Conversion

/-- A double that is given is the nearest one. -/
def Nearest (convert : Conversion) : Prop :=
  ∀ minus whole fraction exponent x, convert minus whole fraction exponent = some x →
    x = (Decimal.ofDigits whole fraction exponent).toBinary64 minus

theorem nearest_nearest : Nearest nearest := by
  intro minus whole fraction exponent x h
  simp only [nearest, Option.ite_none_right_eq_some, Option.some.injEq] at h
  exact h.2.symm

/-- Scaling `3e23` gives a double next to the nearest one. -/
example : ¬ Nearest scaled := by
  intro h
  have hscaled : scaled false ['3'] [] 23 =
      some (.finite false ⟨4958396687196483697, by decide⟩) := by decide +kernel
  exact absurd (h _ _ _ _ _ hscaled) (by decide +kernel)

end Json.Conversion

namespace Number

variable {convert : Json.Conversion} {minus : Bool} {n : Numeral} {cs : List Char}

/-- The text is a literal of a number that is equal to this one. -/
def IsLiteralOf (cs : List Char) (m : Number) : Prop :=
  ∃ a, literal? cs = some a ∧ a.equal m = true

/-- A double that was read is nearest to its decimal. -/
theorem realNumeral_eq_ok (hnear : convert.Nearest) {whole fraction : List Char} {exponent : Int}
    (h : Json.realNumeral convert minus whole fraction exponent = .ok n) :
    n = .real ((Decimal.ofDigits whole fraction exponent).toBinary64 minus) := by
  unfold Json.realNumeral at h
  split at h
  · rename_i x hx
    obtain rfl := Except.ok.inj h
    exact congrArg _ (hnear _ _ _ _ x hx)
  · cases h

theorem equal_toBinary64_self (minus : Bool) (d : Decimal) :
    (float (d.toBinary64 minus)).equal (float (d.toBinary64 minus)) = true := by
  refine equal_self_iff.2 ?_
  rw [isNaN, Decimal.toBinary64_eq_ofRank, Binary64.isNaN_ofRank]

theorem exactInt?_zero (negative : Bool) :
    exactInt? (.float (.zero negative)) = some 0 := by
  have hzero : Binary64.zero negative = .finite negative 0 := Binary64.ofRank_finite negative 0
  rw [exactInt?, hzero, Binary64.toInt?_of_rank_eq_zero rfl]
  rfl

/-- Digits alone are a literal of what they are classified as. -/
theorem isLiteralOf_of_digits (hnear : convert.Nearest) (hcs : Json.Digits cs)
    (hfloat : floatLiteral? (Text.signed minus cs) =
      some (Decimal.toBinary64 minus ⟨Text.ofDigits cs, 0⟩))
    (h : Json.classify convert minus cs none none = .ok n) :
    IsLiteralOf (Text.signed minus cs) (.ofNumeral n) := by
  have hdecimal : Decimal.ofDigits cs [] 0 = ⟨Text.ofDigits cs, 0⟩ :=
    Json.ofDigits_eq (congrArg _ (List.append_nil cs)) rfl
  have hdouble : ¬ Fits (if minus then -(Text.ofDigits cs : Int) else Text.ofDigits cs) →
      Json.realNumeral convert minus cs [] 0 = .ok n →
      IsLiteralOf (Text.signed minus cs) (.ofNumeral n) := by
    intro hfits h
    obtain rfl := realNumeral_eq_ok hnear h
    rw [hdecimal]
    exact ⟨_, (literal?_of_not_fits hcs hfits).trans (congrArg _ hfloat),
      equal_toBinary64_self minus _⟩
  have hnonneg : (0 : Int) ≤ Text.ofDigits cs := Int.natCast_nonneg _
  simp only [Json.classify] at h
  cases minus with
  | false =>
    by_cases hlt : Text.ofDigits cs < UInt64.size
    · simp only [Bool.false_eq_true, if_false, if_pos hlt] at h
      obtain rfl := Except.ok.inj h
      have hfits : Fits (Text.ofDigits cs) := ⟨hnonneg.trans' (by decide), Int.ofNat_lt.2 hlt⟩
      exact ⟨_, literal?_of_fits hcs hfits, equal_self rfl⟩
    · simp only [Bool.false_eq_true, if_false, if_neg hlt] at h
      exact hdouble (fun hfits => hlt (Int.ofNat_lt.1 hfits.2)) h
  | true =>
    have hsize : -(Text.ofDigits cs : Int) < UInt64.size :=
      (Int.neg_nonpos_of_nonneg hnonneg).trans_lt (by decide)
    by_cases hrange : 0 < Text.ofDigits cs ∧ Int64.minValue.toInt ≤ -(Text.ofDigits cs : Int)
    · simp only [if_true, if_pos hrange] at h
      obtain rfl := Except.ok.inj h
      exact ⟨_, literal?_of_fits hcs ⟨hrange.2, hsize⟩, equal_self rfl⟩
    · simp only [if_true, if_neg hrange] at h
      by_cases hzero : Text.ofDigits cs = 0
      · -- JSON keeps the sign of zero in a double, the literal is the integer.
        have hfits : Fits (-(Text.ofDigits cs : Int)) := ⟨by rw [hzero]; decide, hsize⟩
        refine ⟨_, literal?_of_fits hcs hfits, ?_⟩
        obtain rfl := realNumeral_eq_ok hnear h
        rw [hdecimal, hzero]
        exact equal_of_exactInt? (n := 0) rfl (exactInt?_zero true)
      · exact hdouble (fun hfits => hrange ⟨Nat.pos_of_ne_zero hzero, hfits.1⟩) h

/-- However its parts are spelled, a numeral is a literal of what they are classified as. -/
theorem isLiteralOf_of_classify (hnear : convert.Nearest) {s : Spelling} (hs : s.Valid)
    (hcs : s.SpelledAs cs) (h : Json.classify convert minus s.whole s.fraction s.exponent = .ok n) :
    IsLiteralOf (Text.signed minus cs) (.ofNumeral n) := by
  by_cases hreal : s.fraction = none → s.exponent ≠ none
  · rw [Json.classify_real hreal] at h
    obtain rfl := realNumeral_eq_ok hnear h
    exact ⟨_, literal?_of_spelledAs hs hcs hreal, equal_toBinary64_self minus _⟩
  · obtain ⟨hfraction, hexponent⟩ : s.fraction = none ∧ s.exponent = none := by
      simpa using hreal
    have hfloat : floatLiteral? (Text.signed minus cs) = _ := floatLiteral?_of_spelledAs hs hcs
    have hdecimal : s.decimal = ⟨Text.ofDigits s.whole, 0⟩ := by
      rw [Spelling.decimal, hfraction, hexponent]
      exact Json.ofDigits_eq (congrArg _ (List.append_nil _)) rfl
    obtain rfl : cs = s.whole := by
      obtain ⟨tail, htail, rfl⟩ := hcs
      rw [hexponent] at htail
      cases htail
      rw [hfraction, Json.fractionChars, List.append_nil, List.append_nil]
    rw [hfraction, hexponent] at h
    exact isLiteralOf_of_digits hnear hs.whole.1 (hdecimal ▸ hfloat) h

theorem isBlankChar_of_digits (h : Json.Digits cs) : ∀ c ∈ cs, Text.isBlankChar c = false :=
  fun c hc => Text.isBlankChar_of_isDigit (h.2 c hc)

theorem isBlankChar_of_mem_exponent {exponent : Option Int} (h : Json.ExponentText exponent cs) :
    ∀ c ∈ cs, Text.isBlankChar c = false := by
  have hletter : ∀ {c : Char}, c = 'e' ∨ c = 'E' → Text.isBlankChar c = false := by
    rintro c (rfl | rfl) <;> decide
  cases h with
  | absent => exact nofun
  | bare hmark hds => exact List.forall_mem_cons.2 ⟨hletter hmark, isBlankChar_of_digits hds⟩
  | plus hmark hds | minus hmark hds =>
    refine List.forall_mem_cons.2 ⟨hletter hmark, List.forall_mem_cons.2 ⟨by decide, ?_⟩⟩
    exact isBlankChar_of_digits hds

/-- No blank stands in a numeral. -/
theorem isBlankChar_of_mem_spelledAs {s : Spelling} (hs : s.Valid) (hcs : s.SpelledAs cs) :
    ∀ c ∈ cs, Text.isBlankChar c = false := by
  obtain ⟨tail, htail, rfl⟩ := hcs
  have hfraction : ∀ c ∈ Json.fractionChars s.fraction, Text.isBlankChar c = false := by
    cases hf : s.fraction with
    | none => exact nofun
    | some ds =>
      exact List.forall_mem_cons.2 ⟨by decide, isBlankChar_of_digits (hs.fraction ds hf)⟩
  refine List.forall_mem_append.2 ⟨isBlankChar_of_digits hs.whole.1, ?_⟩
  exact List.forall_mem_append.2 ⟨hfraction, isBlankChar_of_mem_exponent htail⟩

end Number

/-! ## Numbers as values -/

namespace Json

variable {convert : Conversion} {cs rest : List Char} {m : Number}

theorem map_ne_number {α : Type} {x : Except Fault α} {f : α → Value × List Char}
    (hf : ∀ a, (f a).1 ≠ .number m) : x.map f ≠ .ok (.number m, rest) := by
  intro h
  obtain ⟨a, -, heq⟩ := map_eq_ok.1 h
  exact hf a (congrArg Prod.fst heq)

/-- Of all constructs numerals alone become numbers. -/
theorem value_eq_number {rounds depth : Nat}
    (h : value convert Value.builder rounds depth cs = .ok (.number m, rest)) :
    ∃ n, numeral convert (skipBlanks cs) = .ok (n, rest) ∧ m = .ofNumeral n := by
  unfold value at h
  generalize hskip : skipBlanks cs = front at h ⊢
  split at h
  · exact nomatch h
  · exact absurd h (map_ne_number fun _ => nofun)
  · exact absurd h (map_ne_number fun _ => nofun)
  · exact absurd h (map_ne_number fun _ => nofun)
  · exact absurd h (map_ne_number fun _ => nofun)
  · cases depth with
    | zero => exact nomatch h
    | succ depth => exact absurd h (map_ne_number fun _ => nofun)
  · cases depth with
    | zero => exact nomatch h
    | succ depth => exact absurd h (map_ne_number fun _ => nofun)
  · split at h
    · obtain ⟨⟨n, r⟩, hread, heq⟩ := map_eq_ok.1 h
      obtain ⟨hm, rfl⟩ := Prod.mk.inj heq
      refine ⟨n, hread, ?_⟩
      cases n <;> exact (Value.number.inj hm).symm
    · exact nomatch h

theorem isBlank_of_expectEnd (h : expectEnd rest = .ok ()) : ∀ c ∈ rest, isBlank c = true := by
  unfold expectEnd at h
  split at h
  · rename_i hskip
    have hsplit : rest.takeWhile isBlank ++ skipBlanks rest = rest :=
      List.takeWhile_append_dropWhile
    rw [hskip, List.append_nil] at hsplit
    rw [← hsplit]
    exact List.all_eq_true.1 List.all_takeWhile
  · exact nomatch h

theorem isBlankChar_of_isBlank {c : Char} (h : isBlank c = true) : Text.isBlankChar c = true := by
  simp only [isBlank, Bool.or_eq_true, decide_eq_true_eq] at h
  rcases h with ((rfl | rfl) | rfl) | rfl <;> decide

end Json

/-- A text that is read as a number, with blanks around it or without, is a literal of an equal
number, if numerals are converted to the nearest doubles. -/
theorem number_readers_agree {convert : Json.Conversion} (hnear : convert.Nearest) {text : String}
    {m : Number} (h : Value.read convert text = .ok (.number m)) :
    ∃ n, Number.parse text = .ok n ∧ n.equal m = true := by
  obtain ⟨⟨v, rest⟩, hfront, h⟩ := Json.bind_eq_ok.1 h
  obtain ⟨⟨⟩, hend, h⟩ := Json.bind_eq_ok.1 h
  obtain rfl : v = .number m := Except.ok.inj h
  obtain ⟨n, hnumeral, rfl⟩ := Json.value_eq_number hfront
  obtain ⟨minus, s, cs, hs, hcs, hskip, hclass⟩ := Json.numeral_eq_ok hnumeral
  obtain ⟨a, hliteral, hequal⟩ := Number.isLiteralOf_of_classify hnear hs hcs hclass
  have htext : text.toList =
      text.toList.takeWhile Json.isBlank ++ (Text.signed minus cs ++ rest) := by
    rw [← hskip]
    exact List.takeWhile_append_dropWhile.symm
  have htrim : Text.trimChars text.toList = Text.signed minus cs := by
    rw [htext]
    refine Text.trimChars_append (fun c hc => ?_) (fun c hc => ?_) fun c hc => ?_
    · exact Json.isBlankChar_of_isBlank (List.all_eq_true.1 List.all_takeWhile c hc)
    · exact Number.isBlankChar_of_mem_signed (Number.isBlankChar_of_mem_spelledAs hs hcs) hc
    · exact Json.isBlankChar_of_isBlank (Json.isBlank_of_expectEnd hend c hc)
  refine ⟨a, ?_, hequal⟩
  rw [Number.parse, htrim, hliteral]

/-- Zero with a minus sign : one reader keeps the sign in a double, whichever way it converts, and
the other reads an integer. -/
theorem signed_zero_read_alike :
    let m := Number.float (.zero true)
    Json.Conversion.Nearest .nearest ∧ Value.read .nearest " -0\n" = .ok (.number m) ∧
      Json.Conversion.scaled true ['0'] [] 0 = Json.Conversion.nearest true ['0'] [] 0 ∧
      Number.parse " -0\n" = .ok (.signed 0) ∧
      ∃ n, Number.parse " -0\n" = .ok n ∧ n.equal m = true := by
  intro m
  have hnear := Json.Conversion.nearest_nearest
  have hread : Value.read .nearest " -0\n" = .ok (.number m) := rfl
  exact ⟨hnear, hread, by decide +kernel, by decide, number_readers_agree hnear hread⟩

end DataShape
