import DataShape.Proofs.Json.Numeral

/-!
# Numerals as they may be spelled

A numeral can be spelled in more ways than it is written in : the exponent may be marked by either
letter, go without a sign and start with zeros (`ExponentText`). Whatever the reader takes for a
numeral is a sign and a text of some parts, and it is the numeral that these parts are classified as
(`numeral_eq_ok`). The lemmas before say so of each part : what was read and what is left make up
the text.
-/

namespace DataShape.Json

open Text (ofDigits NoDigitAhead)

variable {convert : Conversion} {cs ds rest : List Char} {exponent : Option Int} {minus : Bool}
  {n : Numeral}

/-! ## Spellings of the parts -/

/-- A text of an exponent : a letter, perhaps a sign, and digits. -/
inductive ExponentText : Option Int → List Char → Prop where
  | absent : ExponentText none []
  | bare {mark ds} (hmark : mark = 'e' ∨ mark = 'E') (hds : Digits ds) :
      ExponentText (some (ofDigits ds)) (mark :: ds)
  | plus {mark ds} (hmark : mark = 'e' ∨ mark = 'E') (hds : Digits ds) :
      ExponentText (some (ofDigits ds)) (mark :: '+' :: ds)
  | minus {mark ds} (hmark : mark = 'e' ∨ mark = 'E') (hds : Digits ds) :
      ExponentText (some (-(ofDigits ds : Int))) (mark :: '-' :: ds)

theorem exponentText_chars (exponent : Option Int) :
    ExponentText exponent (exponentChars exponent) := by
  cases exponent with
  | none => exact .absent
  | some e =>
    have hdigits := digits_digits e.natAbs
    by_cases he : e < 0
    · have htext := ExponentText.minus (Or.inl rfl) hdigits
      have hvalue : -(e.natAbs : Int) = e := by omega
      rw [exponentChars, if_pos he]
      rwa [Text.ofDigits_digits, hvalue] at htext
    · have htext := ExponentText.plus (Or.inl rfl) hdigits
      have hvalue : (e.natAbs : Int) = e := by omega
      rw [exponentChars, if_neg he]
      rwa [Text.ofDigits_digits, hvalue] at htext

/-- A text of an exponent is empty or starts with a letter. -/
theorem ExponentText.exists_mark (h : ExponentText exponent cs) (hcs : cs ≠ []) :
    ∃ mark r, (mark = 'e' ∨ mark = 'E') ∧ cs = mark :: r := by
  cases h with
  | absent => exact absurd rfl hcs
  | bare hmark | plus hmark | minus hmark => exact ⟨_, _, hmark, rfl⟩

/-- A text of an exponent carries on neither the whole part nor the fraction. -/
theorem ExponentText.ahead (h : ExponentText exponent cs) :
    NoDigitAhead cs ∧ cs.head? ≠ some '.' := by
  by_cases hcs : cs = []
  · subst hcs
    exact ⟨nofun, nofun⟩
  · obtain ⟨mark, r, hmark, rfl⟩ := h.exists_mark hcs
    rcases hmark with rfl | rfl <;>
      exact ⟨noDigitAhead_cons rfl, fun h => absurd (Option.some.inj h) (by decide)⟩

/-- A text of these parts. -/
def Spelling.SpelledAs (s : Spelling) (cs : List Char) : Prop :=
  ∃ tail, ExponentText s.exponent tail ∧ cs = s.whole ++ (fractionChars s.fraction ++ tail)

theorem Spelling.spelledAs_chars (s : Spelling) : s.SpelledAs s.chars :=
  ⟨_, exponentText_chars s.exponent, rfl⟩

/-! ## What was read and what is left -/

section Except

variable {α β : Type} {x : Except Fault α} {b : β}

theorem map_eq_ok {f : α → β} : x.map f = .ok b ↔ ∃ a, x = .ok a ∧ f a = b := by
  cases x <;> simp [Except.map]

theorem bind_eq_ok {f : α → Except Fault β} : x >>= f = .ok b ↔ ∃ a, x = .ok a ∧ f a = .ok b := by
  cases x <;> simp [bind, Except.bind]

end Except

theorem someDigits_eq_ok (h : someDigits cs = .ok (ds, rest)) : Digits ds ∧ cs = ds ++ rest := by
  have hsplit := Text.splitDigits_append cs
  have hdigits : ∀ c ∈ (Text.splitDigits cs).1, c.isDigit = true :=
    List.all_eq_true.1 List.all_takeWhile
  unfold someDigits at h
  split at h
  · exact nomatch h
  · exact nomatch h
  · rename_i heq
    rw [heq] at hsplit hdigits
    obtain ⟨rfl, rfl⟩ := Prod.mk.inj (Except.ok.inj h)
    exact ⟨⟨List.cons_ne_nil _ _, hdigits⟩, hsplit.symm⟩

theorem wholePart_eq_ok (h : wholePart cs = .ok (ds, rest)) : Whole ds ∧ cs = ds ++ rest := by
  have hzero : Whole ['0'] := whole_digits 0
  unfold wholePart at h
  split at h
  · split at h
    · split at h
      · exact nomatch h
      · obtain ⟨rfl, rfl⟩ := Prod.mk.inj (Except.ok.inj h)
        exact ⟨hzero, rfl⟩
    · obtain ⟨rfl, rfl⟩ := Prod.mk.inj (Except.ok.inj h)
      exact ⟨hzero, rfl⟩
  · rename_i hne
    obtain ⟨hds, rfl⟩ := someDigits_eq_ok h
    refine ⟨⟨hds, fun hhead => ?_⟩, rfl⟩
    cases ds with
    | nil => exact nomatch hhead
    | cons c r =>
      obtain rfl := Option.some.inj hhead
      exact absurd rfl (hne _)

theorem fractionPart_eq_ok {fraction : Option (List Char)}
    (h : fractionPart cs = .ok (fraction, rest)) :
    (∀ ds ∈ fraction, Digits ds) ∧ cs = fractionChars fraction ++ rest := by
  unfold fractionPart at h
  split at h
  · obtain ⟨⟨ds, rest⟩, hread, ⟨⟩⟩ := map_eq_ok.1 h
    obtain ⟨hds, rfl⟩ := someDigits_eq_ok hread
    exact ⟨fun _ heq => Option.some.inj heq ▸ hds, rfl⟩
  · obtain ⟨rfl, rfl⟩ := Prod.mk.inj (Except.ok.inj h)
    exact ⟨nofun, rfl⟩

theorem exponentPart_eq_ok (h : exponentPart cs = .ok (exponent, rest)) :
    ∃ tail, ExponentText exponent tail ∧ cs = tail ++ rest := by
  unfold exponentPart at h
  split at h
  · obtain ⟨rfl, rfl⟩ := Prod.mk.inj (Except.ok.inj h)
    exact ⟨[], .absent, rfl⟩
  · split at h
    · rename_i c r hletter
      have hmark : c = 'e' ∨ c = 'E' := by simpa using hletter
      split at h
      · obtain ⟨⟨ds, rest⟩, hread, ⟨⟩⟩ := map_eq_ok.1 h
        obtain ⟨hds, rfl⟩ := someDigits_eq_ok hread
        exact ⟨_, .minus hmark hds, rfl⟩
      · obtain ⟨⟨ds, rest⟩, hread, ⟨⟩⟩ := map_eq_ok.1 h
        obtain ⟨hds, rfl⟩ := someDigits_eq_ok hread
        exact ⟨_, .plus hmark hds, rfl⟩
      · obtain ⟨⟨ds, rest⟩, hread, ⟨⟩⟩ := map_eq_ok.1 h
        obtain ⟨hds, rfl⟩ := someDigits_eq_ok hread
        exact ⟨_, .bare hmark hds, rfl⟩
    · obtain ⟨rfl, rfl⟩ := Prod.mk.inj (Except.ok.inj h)
      exact ⟨[], .absent, rfl⟩

theorem unsignedNumeral_eq_ok (h : unsignedNumeral convert minus cs = .ok (n, rest)) :
    ∃ s ds, Spelling.Valid s ∧ s.SpelledAs ds ∧ cs = ds ++ rest ∧
      classify convert minus s.whole s.fraction s.exponent = .ok n := by
  obtain ⟨⟨whole, r⟩, hwhole, h⟩ := bind_eq_ok.1 h
  obtain ⟨⟨fraction, r'⟩, hfraction, h⟩ := bind_eq_ok.1 h
  obtain ⟨⟨exponent, r''⟩, hexponent, h⟩ := bind_eq_ok.1 h
  obtain ⟨m, hclass, h⟩ := bind_eq_ok.1 h
  obtain ⟨rfl, rfl⟩ := Prod.mk.inj (Except.ok.inj h)
  obtain ⟨hdigits, rfl⟩ := wholePart_eq_ok hwhole
  obtain ⟨hdecimals, rfl⟩ := fractionPart_eq_ok hfraction
  obtain ⟨tail, htail, rfl⟩ := exponentPart_eq_ok hexponent
  refine ⟨⟨whole, fraction, exponent⟩, whole ++ (fractionChars fraction ++ tail),
    ⟨hdigits, hdecimals⟩, ⟨tail, htail, rfl⟩, ?_, hclass⟩
  rw [List.append_assoc, List.append_assoc]

/-- Whatever is read as a numeral is a sign and a text of parts that are classified as the
numeral. -/
theorem numeral_eq_ok (h : numeral convert cs = .ok (n, rest)) :
    ∃ minus s ds, Spelling.Valid s ∧ s.SpelledAs ds ∧ cs = Text.signed minus ds ++ rest ∧
      classify convert minus s.whole s.fraction s.exponent = .ok n := by
  unfold numeral at h
  split at h
  · obtain ⟨s, ds, hs, hds, rfl, hclass⟩ := unsignedNumeral_eq_ok h
    exact ⟨true, s, ds, hs, hds, rfl, hclass⟩
  · obtain ⟨s, ds, hs, hds, rfl, hclass⟩ := unsignedNumeral_eq_ok h
    exact ⟨false, s, ds, hs, hds, rfl, hclass⟩

end DataShape.Json
