import DataShape.Json.Reader
import DataShape.Json.Writer
import DataShape.Proofs.Decimal.Shortest

/-!
# Numerals read back

A numeral without its sign has up to three parts (`Spelling`). Put together they are
read part by part, as long as what follows does not carry the numeral on
(`Spelling.read`). Both layouts of a double are spellings of its shortest decimal
(`spells_positional`, `spells_scientific`), and an integer is a spelling of its digits.

What a double is read as depends on the conversion of decimals. One that rounds to the
nearest double gives back every finite double (`Conversion.readsBack_nearest`), since the
shortest decimal of a double is rounded to it. With a conversion that gives a double back
a numeral is read as it was written wherever it stands (`numeral_chars`). This holds of
the numerals that documents are written with : what is no natural number is negative, and
what is no integer is a finite double that is given back (`Numeral.ReadBack`).
-/

namespace DataShape.Json

open Text (digits ofDigits NoDigitAhead)

/-- What follows a numeral does not carry it on. -/
def EndsNumeral (rest : List Char) : Prop :=
  ∀ c ∈ rest.head?, c.isDigit = false ∧ c ≠ '.' ∧ c ≠ 'e' ∧ c ≠ 'E'

theorem EndsNumeral.noDigitAhead {rest : List Char} (h : EndsNumeral rest) : NoDigitAhead rest :=
  fun c hc => (h c hc).1

theorem noDigitAhead_cons {c : Char} {cs : List Char} (h : c.isDigit = false) :
    NoDigitAhead (c :: cs) := by
  rintro d hd
  obtain rfl := Option.some.inj hd
  exact h

/-! ## Parts of a numeral -/

/-- Digits, at least one of them. -/
def Digits (ds : List Char) : Prop :=
  ds ≠ [] ∧ ∀ c ∈ ds, c.isDigit = true

/-- Digits that start with a zero only if it is alone. -/
def Whole (ds : List Char) : Prop :=
  Digits ds ∧ (ds.head? = some '0' → ds = ['0'])

variable {ds rest : List Char} {minus : Bool} {convert : Conversion}

theorem digits_digits (n : Nat) : Digits (digits n) :=
  ⟨Text.digits_ne_nil n, fun _ => Text.isDigit_of_mem_digits⟩

theorem whole_digits (n : Nat) : Whole (digits n) := by
  refine ⟨digits_digits n, fun hhead => ?_⟩
  by_cases hn : n = 0
  · rw [hn, Text.digits_zero]
  · obtain ⟨c, ds, hds, hc⟩ := Text.exists_digits_eq_cons hn
    rw [hds] at hhead
    exact absurd (Option.some.inj hhead) hc

theorem someDigits_of_digits (hds : Digits ds) (hrest : NoDigitAhead rest) :
    someDigits (ds ++ rest) = .ok (ds, rest) := by
  obtain ⟨hne, hdigits⟩ := hds
  rw [someDigits, Text.splitDigits_of_digits hdigits hrest]
  cases ds with
  | nil => exact absurd rfl hne
  | cons c cs => rfl

theorem wholePart_of_whole (hds : Whole ds) (hrest : NoDigitAhead rest) :
    wholePart (ds ++ rest) = .ok (ds, rest) := by
  obtain ⟨hdigits, hzero⟩ := hds
  cases ds with
  | nil => exact absurd rfl hdigits.1
  | cons c cs =>
    by_cases hc : c = '0'
    · subst hc
      obtain rfl := (List.cons.inj (hzero rfl)).2
      cases rest with
      | nil => rfl
      | cons d r =>
        have hd : d.isDigit = false := hrest d rfl
        simp [wholePart, hd]
    · rw [← someDigits_of_digits hdigits hrest, List.cons_append]
      unfold wholePart
      split
      · rename_i r heq
        exact absurd (List.cons.inj heq).1 hc
      · rfl

/-- A fraction as it is written. -/
def fractionChars : Option (List Char) → List Char
  | some ds => '.' :: ds
  | none => []

/-- An exponent as it is written. -/
def exponentChars : Option Int → List Char
  | some e => 'e' :: (if e < 0 then '-' else '+') :: digits e.natAbs
  | none => []

theorem fractionPart_chars {fraction : Option (List Char)} (h : ∀ ds ∈ fraction, Digits ds)
    (hrest : NoDigitAhead rest) (hpoint : rest.head? ≠ some '.') :
    fractionPart (fractionChars fraction ++ rest) = .ok (fraction, rest) := by
  cases fraction with
  | some ds =>
    rw [fractionChars, List.cons_append, fractionPart, someDigits_of_digits (h ds rfl) hrest]
    rfl
  | none =>
    rw [fractionChars, List.nil_append]
    unfold fractionPart
    split
    · exact absurd rfl hpoint
    · rfl

theorem exponentPart_minus {cs : List Char} (h : someDigits cs = .ok (ds, rest)) :
    exponentPart ('e' :: '-' :: cs) = .ok (some (-(ofDigits ds : Int)), rest) := by
  simp only [exponentPart, h]
  rfl

theorem exponentPart_plus {cs : List Char} (h : someDigits cs = .ok (ds, rest)) :
    exponentPart ('e' :: '+' :: cs) = .ok (some (ofDigits ds : Int), rest) := by
  simp only [exponentPart, h]
  rfl

theorem exponentPart_chars (exponent : Option Int) (hrest : EndsNumeral rest) :
    exponentPart (exponentChars exponent ++ rest) = .ok (exponent, rest) := by
  cases exponent with
  | some e =>
    have hdigits := someDigits_of_digits (digits_digits e.natAbs) hrest.noDigitAhead
    by_cases he : e < 0
    · have hvalue : -(e.natAbs : Int) = e := by omega
      rw [exponentChars, if_pos he, List.cons_append, List.cons_append, exponentPart_minus hdigits,
        Text.ofDigits_digits, hvalue]
    · have hvalue : (e.natAbs : Int) = e := by omega
      rw [exponentChars, if_neg he, List.cons_append, List.cons_append, exponentPart_plus hdigits,
        Text.ofDigits_digits, hvalue]
  | none =>
    cases rest with
    | nil => rfl
    | cons c cs =>
      obtain ⟨-, -, hlower, hupper⟩ := hrest c rfl
      simp [exponentPart, exponentChars, hlower, hupper]

/-- An exponent and what follows carry on neither the whole part nor the fraction. -/
theorem exponentChars_ahead (exponent : Option Int) (hrest : EndsNumeral rest) :
    NoDigitAhead (exponentChars exponent ++ rest) ∧
      (exponentChars exponent ++ rest).head? ≠ some '.' := by
  cases exponent with
  | some e =>
    refine ⟨noDigitAhead_cons rfl, fun h => ?_⟩
    exact absurd (Option.some.inj h) (by decide)
  | none => exact ⟨hrest.noDigitAhead, fun h => (hrest _ h).2.1 rfl⟩

/-! ## Numerals in parts -/

/-- The parts of a numeral without its sign. -/
structure Spelling where
  whole : List Char
  fraction : Option (List Char)
  exponent : Option Int

namespace Spelling

def chars (s : Spelling) : List Char :=
  s.whole ++ (fractionChars s.fraction ++ exponentChars s.exponent)

structure Valid (s : Spelling) : Prop where
  whole : Whole s.whole
  fraction : ∀ ds ∈ s.fraction, Digits ds

/-- The decimal that the parts stand for. -/
def decimal (s : Spelling) : Decimal :=
  .ofDigits s.whole (s.fraction.getD []) (s.exponent.getD 0)

/-- A numeral is read part by part. -/
theorem read {s : Spelling} (hs : s.Valid) (hrest : EndsNumeral rest) (minus : Bool) :
    unsignedNumeral convert minus (s.chars ++ rest) =
      (classify convert minus s.whole s.fraction s.exponent).map fun n => (n, rest) := by
  obtain ⟨hexponent, hpoint⟩ := exponentChars_ahead s.exponent hrest
  have hfraction :
      NoDigitAhead (fractionChars s.fraction ++ (exponentChars s.exponent ++ rest)) := by
    cases s.fraction with
    | some ds => exact noDigitAhead_cons rfl
    | none => exact hexponent
  rw [chars, List.append_assoc, List.append_assoc, unsignedNumeral,
    wholePart_of_whole hs.whole hfraction]
  simp only [bind, Except.bind, fractionPart_chars hs.fraction hexponent hpoint,
    exponentPart_chars s.exponent hrest]
  cases classify convert minus s.whole s.fraction s.exponent <;> rfl

/-- A numeral starts with a digit. -/
theorem exists_chars_eq_cons {s : Spelling} (hs : s.Valid) :
    ∃ c cs, s.chars = c :: cs ∧ c.isDigit = true := by
  obtain ⟨⟨hne, hdigits⟩, -⟩ := hs.whole
  obtain ⟨c, cs, hcs⟩ := List.exists_cons_of_ne_nil hne
  rw [hcs] at hdigits
  refine ⟨c, cs ++ (fractionChars s.fraction ++ exponentChars s.exponent), ?_,
    hdigits c List.mem_cons_self⟩
  rw [chars, hcs, List.cons_append]

end Spelling

/-! ## Doubles -/

/-- A text with a fraction or an exponent that is rounded as a decimal is. -/
def Spells (cs : List Char) (d : Decimal) : Prop :=
  ∃ s : Spelling, s.Valid ∧ s.chars = cs ∧ (s.fraction = none → s.exponent ≠ none) ∧
    s.decimal.rank = d.rank

theorem digits_append {cs ds : List Char} (hcs : Digits cs) (hds : ∀ c ∈ ds, c.isDigit = true) :
    Digits (cs ++ ds) :=
  ⟨fun h => hcs.1 (List.append_eq_nil_iff.1 h).1,
    fun c hc => (List.mem_append.1 hc).elim (hcs.2 c) (hds c)⟩

theorem isDigit_of_mem_zeros {n : Nat} {c : Char} (h : c ∈ List.replicate n '0') :
    c.isDigit = true :=
  (List.mem_replicate.1 h).2 ▸ rfl

/-- Digits of a positive number that are cut short or carried on still start with no zero. -/
theorem whole_of_head {n : Nat} (hn : n ≠ 0) (hds : Digits ds)
    (hhead : ds.head? = (digits n).head?) : Whole ds := by
  refine ⟨hds, fun hzero => ?_⟩
  obtain ⟨c, cs, hcs, hc⟩ := Text.exists_digits_eq_cons hn
  rw [hhead, hcs] at hzero
  exact absurd (Option.some.inj hzero) hc

theorem ofDigits_eq {whole fraction : List Char} {c : Nat} {exponent e : Int}
    (hvalue : ofDigits (whole ++ fraction) = c) (hexponent : exponent - fraction.length = e) :
    Decimal.ofDigits whole fraction exponent = ⟨c, e⟩ := by
  rw [Decimal.ofDigits, hvalue, hexponent]

/-- Zeros behind the digits, and a fraction that is zero. -/
theorem spells_integral {c e : Nat} (hzero : c = 0 → e = 0) :
    Spells (Decimal.positionalDigits true (digits c) (.ofNat e)) ⟨c, .ofNat e⟩ := by
  have hdigits : Digits (digits c ++ List.replicate e '0') :=
    digits_append (digits_digits c) fun _ => isDigit_of_mem_zeros
  refine ⟨⟨digits c ++ List.replicate e '0', some ['0'], none⟩, ⟨?_, ?_⟩, ?_, nofun, ?_⟩
  · by_cases hc : c = 0
    · rw [hzero hc, List.replicate_zero, List.append_nil]
      exact whole_digits c
    · refine whole_of_head hc hdigits ?_
      obtain ⟨d, ds, hds, -⟩ := Text.exists_digits_eq_cons hc
      rw [hds]
      rfl
  · rintro ds ⟨⟩
    exact ⟨by simp, by simp⟩
  · simp [Spelling.chars, Decimal.positionalDigits, fractionChars, exponentChars]
  · have hvalue :
        ofDigits (digits c ++ List.replicate e '0' ++ ['0']) = c * Nat.pow 10 (e + 1) := by
      rw [List.append_assoc, ← List.replicate_succ', Text.ofDigits_append, Text.ofDigits_zeros,
        Text.ofDigits_digits, List.length_replicate, Nat.add_zero, Nat.mul_comm]
    have hexponent : (-1 : Int) + ((e + 1 : Nat) : Int) = .ofNat e := by
      rw [Int.ofNat_eq_natCast]
      omega
    rw [← hexponent, ← Decimal.rank_shift]
    exact congrArg Decimal.rank (ofDigits_eq hvalue rfl)

/-- A point among the digits. -/
theorem spells_pointed {c e : Nat} (hc : c ≠ 0) (hplaces : e + 1 < (digits c).length) :
    Spells ((digits c).take ((digits c).length - (e + 1)) ++
      '.' :: (digits c).drop ((digits c).length - (e + 1))) ⟨c, .negSucc e⟩ := by
  have hdigits := (digits_digits c).2
  generalize hk : (digits c).length - (e + 1) = k
  refine ⟨⟨(digits c).take k, some ((digits c).drop k), none⟩, ⟨?_, ?_⟩, ?_, nofun, ?_⟩
  · obtain ⟨m, rfl⟩ : ∃ m, k = m + 1 := ⟨k - 1, by omega⟩
    obtain ⟨d, ds, hds, -⟩ := Text.exists_digits_eq_cons hc
    have htake : (digits c).take (m + 1) = d :: ds.take m := by rw [hds, List.take_succ_cons]
    refine whole_of_head hc ⟨?_, fun x hx => hdigits x (List.mem_of_mem_take hx)⟩ ?_
    · simp [htake]
    · rw [htake, hds]
      rfl
  · rintro ds ⟨⟩
    refine ⟨fun hnil => ?_, fun d hd => hdigits d (List.mem_of_mem_drop hd)⟩
    have hlength := List.drop_eq_nil_iff.1 hnil
    omega
  · simp [Spelling.chars, fractionChars, exponentChars]
  · have hvalue : ofDigits ((digits c).take k ++ (digits c).drop k) = c := by
      rw [List.take_append_drop, Text.ofDigits_digits]
    refine congrArg Decimal.rank (ofDigits_eq hvalue ?_)
    rw [Option.getD_some, List.length_drop, Int.negSucc_eq, Option.getD_none]
    omega

/-- Zeros between the point and the digits. -/
theorem spells_padded {c e : Nat} (hplaces : (digits c).length ≤ e + 1) :
    Spells ('0' :: '.' :: (List.replicate (e + 1 - (digits c).length) '0' ++ digits c))
      ⟨c, .negSucc e⟩ := by
  obtain ⟨hne, hdigits⟩ := digits_digits c
  generalize hk : e + 1 - (digits c).length = k
  refine ⟨⟨['0'], some (List.replicate k '0' ++ digits c), none⟩, ⟨whole_digits 0, ?_⟩, ?_, nofun,
    ?_⟩
  · rintro ds ⟨⟩
    exact ⟨fun hnil => hne (List.append_eq_nil_iff.1 hnil).2,
      fun d hd => (List.mem_append.1 hd).elim isDigit_of_mem_zeros (hdigits d)⟩
  · simp [Spelling.chars, fractionChars, exponentChars]
  · have hvalue : ofDigits (['0'] ++ (List.replicate k '0' ++ digits c)) = c := by
      rw [← List.append_assoc, List.singleton_append, ← List.replicate_succ, Text.ofDigits_append,
        Text.ofDigits_zeros, Text.ofDigits_digits, Nat.mul_zero, Nat.zero_add]
    refine congrArg Decimal.rank (ofDigits_eq hvalue ?_)
    rw [Option.getD_some, List.length_append, List.length_replicate, Int.negSucc_eq,
      Option.getD_none]
    omega

/-- The positional layout of a decimal. -/
theorem spells_positional {d : Decimal} (hzero : d.coefficient = 0 → d.exponent = 0) :
    Spells (Decimal.positionalDigits true (digits d.coefficient) d.exponent) d := by
  obtain ⟨c, e⟩ := d
  cases e with
  | ofNat e => exact spells_integral fun hc => Int.ofNat.inj (hzero hc)
  | negSucc e =>
    have hc : c ≠ 0 := fun hc => nomatch hzero hc
    simp only [Decimal.positionalDigits]
    split
    · exact spells_pointed hc ‹_›
    · exact spells_padded (Nat.not_lt.1 ‹_›)

/-- The layout of a decimal with an exponent. -/
theorem spells_scientific (d : Decimal) :
    Spells (Decimal.scientificDigits (digits d.coefficient)
      (d.exponent + (digits d.coefficient).length - 1)) d := by
  obtain ⟨c, e⟩ := d
  dsimp only
  have hvalue := Text.ofDigits_digits c
  obtain ⟨hne, hdigits⟩ := digits_digits c
  rcases hds : digits c with _ | ⟨x, xs⟩
  · exact absurd hds hne
  rw [hds] at hvalue hdigits
  obtain ⟨hx, hxs⟩ := List.forall_mem_cons.1 hdigits
  have hwhole : Whole [x] :=
    ⟨⟨by simp, by simpa using hx⟩, fun hzero => congrArg (fun c => [c]) (Option.some.inj hzero)⟩
  generalize hleading : e + ((x :: xs).length : Int) - 1 = leading
  rw [List.length_cons] at hleading
  cases xs with
  | nil =>
    refine ⟨⟨[x], none, some leading⟩, ⟨hwhole, nofun⟩, rfl, fun _ => nofun, ?_⟩
    exact congrArg Decimal.rank (ofDigits_eq hvalue (by simpa using hleading.symm))
  | cons y ys =>
    refine ⟨⟨[x], some (y :: ys), some leading⟩, ⟨hwhole, ?_⟩, ?_, nofun, ?_⟩
    · rintro ds ⟨⟩
      exact ⟨List.cons_ne_nil _ _, hxs⟩
    · simp [Spelling.chars, Decimal.scientificDigits, fractionChars, exponentChars]
    · refine congrArg Decimal.rank (ofDigits_eq hvalue ?_)
      rw [Option.getD_some, Option.getD_some]
      omega

/-- The shortest decimal of a rank, as doubles are laid out. -/
theorem spells_write {w : Nat} (hw : w < finiteRanks) :
    Spells (doubles.write w) (Decimal.shortest .toEven w) := by
  rw [Decimal.Layout.write]
  split
  · refine spells_positional fun hzero => ?_
    by_cases hpos : w = 0
    · rw [hpos]
      rfl
    · exact absurd hzero (Decimal.coefficient_shortest_ne_zero .toEven hw hpos)
  · exact spells_scientific _

/-! ## Numerals -/

theorem classify_real {whole : List Char} {fraction : Option (List Char)} {exponent : Option Int}
    (h : fraction = none → exponent ≠ none) (minus : Bool) :
    classify convert minus whole fraction exponent =
      realNumeral convert minus whole (fraction.getD []) (exponent.getD 0) := by
  unfold classify
  split
  · exact absurd rfl (h rfl)
  · rfl

/-- A sign is taken off before the parts are read. -/
theorem numeral_signed {s : Spelling} (hs : s.Valid) (minus : Bool) :
    numeral convert (Text.signed minus s.chars ++ rest) =
      unsignedNumeral convert minus (s.chars ++ rest) := by
  cases minus with
  | true => rfl
  | false =>
    obtain ⟨c, cs, hcs, hc⟩ := Spelling.exists_chars_eq_cons hs
    rw [Text.signed, hcs]
    unfold numeral
    split
    · rename_i heq
      obtain rfl := (List.cons.inj heq).1
      exact absurd hc (by decide)
    · rfl

/-- A sign and valid parts are read as what the parts are classified as. -/
theorem numeral_spelled {s : Spelling} (hs : s.Valid) (hrest : EndsNumeral rest) (minus : Bool) :
    numeral convert (Text.signed minus s.chars ++ rest) =
      (classify convert minus s.whole s.fraction s.exponent).map fun n => (n, rest) :=
  (numeral_signed hs minus).trans (Spelling.read hs hrest minus)

theorem endsNumeral_nil : EndsNumeral [] :=
  nofun

/-- A finite double is written as a sign and parts that stand for its shortest decimal. -/
theorem exists_spelling_real (minus : Bool) (rank : Fin finiteRanks) :
    ∃ s, Spelling.Valid s ∧
      (Numeral.real (.finite minus rank)).chars = Text.signed minus s.chars ∧
      (s.fraction = none → s.exponent ≠ none) ∧ s.decimal.rank = rank := by
  obtain ⟨s, hvalid, hchars, hreal, hrank⟩ := spells_write rank.isLt
  rw [Decimal.rank_shortest _ rank.isLt] at hrank
  exact ⟨s, hvalid, congrArg (Text.signed minus) hchars.symm, hreal, hrank⟩

namespace Conversion

/-- The conversion gives a double back from the text that it is written as. -/
def ReadsBack (convert : Conversion) (x : Binary64) : Prop :=
  numeral convert (Numeral.real x).chars = .ok (.real x, [])

instance (convert : Conversion) (x : Binary64) : Decidable (convert.ReadsBack x) :=
  match h : numeral convert (Numeral.real x).chars with
  | .error _ => isFalse fun hread => nomatch h.symm.trans hread
  | .ok p => decidable_of_iff (p = (.real x, []))
      ⟨fun hp => h.trans (congrArg _ hp), fun hread => Except.ok.inj (h.symm.trans hread)⟩

theorem nearest_of_rank {d : Decimal} {rank : Fin finiteRanks} (h : d.rank = rank)
    {whole fraction : List Char} {exponent : Int}
    (hd : Decimal.ofDigits whole fraction exponent = d) (minus : Bool) :
    nearest minus whole fraction exponent = some (.finite minus rank) := by
  simp [nearest, hd, Decimal.toBinary64_eq_ofRank, h, Binary64.ofRank_finite, Binary64.isFinite]

/-- Rounding to the nearest double gives every finite double back. -/
theorem readsBack_nearest {x : Binary64} (hx : x.isFinite = true) : nearest.ReadsBack x := by
  cases x with
  | nan => exact nomatch hx
  | infinite minus => exact nomatch hx
  | finite minus rank =>
    obtain ⟨s, hvalid, hchars, hreal, hrank⟩ := exists_spelling_real minus rank
    have hread : numeral nearest (Text.signed minus s.chars ++ []) = _ :=
      numeral_spelled hvalid endsNumeral_nil minus
    rw [List.append_nil, ← hchars, classify_real hreal, realNumeral,
      nearest_of_rank hrank rfl minus] at hread
    exact hread

/-- The double that is written `3e+23` is not given back by scaling. -/
example : ¬ scaled.ReadsBack (.finite false ⟨4958396687196483698, by decide⟩) := by
  decide +kernel

end Conversion

/-- Numerals as they are written : an integer has a minus sign only if it is negative, and a double
is finite and is given back. -/
def Numeral.ReadBack (convert : Conversion) : Numeral → Prop
  | natural _ => True
  | negative n => n.toInt < 0
  | real x => x.isFinite = true ∧ convert.ReadsBack x

/-- A numeral is written as a sign and parts that are classified as the numeral. -/
theorem Numeral.exists_spelling {n : Numeral} (hn : n.ReadBack convert) :
    ∃ minus s, Spelling.Valid s ∧ n.chars = Text.signed minus s.chars ∧
      classify convert minus s.whole s.fraction s.exponent = .ok n := by
  have hinteger : ∀ k, Spelling.Valid ⟨digits k, none, none⟩ ∧
      Spelling.chars ⟨digits k, none, none⟩ = digits k := fun k =>
    ⟨⟨whole_digits k, nofun⟩, List.append_nil _⟩
  cases n with
  | natural n =>
    obtain ⟨hvalid, hchars⟩ := hinteger n.toNat
    refine ⟨false, _, hvalid, hchars.symm, ?_⟩
    simp [classify, Text.ofDigits_digits, n.toNat_lt_size]
  | negative n =>
    have hneg : n.toInt < 0 := hn
    have hpos : 0 < n.toInt.natAbs := by omega
    have hvalue : -(n.toInt.natAbs : Int) = n.toInt := by omega
    obtain ⟨hvalid, hchars⟩ := hinteger n.toInt.natAbs
    refine ⟨true, _, hvalid, ?_, ?_⟩
    · rw [hchars, Numeral.chars, Text.intDigits, decide_eq_true hneg]
    · simp only [classify, if_true, Text.ofDigits_digits, hvalue, Int64.ofInt_toInt]
      rw [if_pos ⟨hpos, n.minValue_le_toInt⟩]
  | real x =>
    obtain ⟨hfinite, hread⟩ := hn
    cases x with
    | nan => exact nomatch hfinite
    | infinite minus => exact nomatch hfinite
    | finite minus rank =>
      obtain ⟨s, hvalid, hchars, -, -⟩ := exists_spelling_real minus rank
      refine ⟨minus, s, hvalid, hchars, ?_⟩
      rw [Conversion.ReadsBack, hchars, ← List.append_nil (Text.signed minus s.chars),
        numeral_spelled hvalid endsNumeral_nil] at hread
      cases hclass : classify convert minus s.whole s.fraction s.exponent with
      | error e => exact nomatch hclass ▸ hread
      | ok n =>
        rw [hclass] at hread
        exact congrArg _ (Prod.mk.inj (Except.ok.inj hread)).1

/-- A numeral is read as it was written. -/
theorem numeral_chars {n : Numeral} (hn : n.ReadBack convert) (hrest : EndsNumeral rest) :
    numeral convert (n.chars ++ rest) = .ok (n, rest) := by
  obtain ⟨minus, s, hvalid, hchars, hclass⟩ := n.exists_spelling hn
  rw [hchars, numeral_spelled hvalid hrest, hclass]
  rfl

/-- A numeral starts with a minus sign or a digit. -/
theorem Numeral.exists_chars_eq_cons {n : Numeral} (hn : n.ReadBack convert) :
    ∃ c cs, n.chars = c :: cs ∧ (c = '-' ∨ c.isDigit = true) := by
  obtain ⟨minus, s, hvalid, hchars, -⟩ := n.exists_spelling hn
  rw [hchars]
  cases minus with
  | true => exact ⟨'-', s.chars, rfl, Or.inl rfl⟩
  | false =>
    obtain ⟨c, cs, hcs, hc⟩ := Spelling.exists_chars_eq_cons hvalid
    exact ⟨c, cs, hcs, Or.inr hc⟩

end DataShape.Json
