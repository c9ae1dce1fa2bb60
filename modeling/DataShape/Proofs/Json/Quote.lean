import DataShape.Json.Reader
import DataShape.Json.Writer

/-!
# Strings read back

There are three ways to write a character of a string : as it is, behind a backslash
and by its number. Each is read as one character (`stringBody_plain`,
`stringBody_escaped`, `stringBody_numbered`), so `escapeChar` is undone for every
character (`stringBody_escapeChar`) and a string reads back as it was written
(`string_quoted`).
-/

namespace DataShape.Json

variable {c : Char}

theorem stringBody_plain (hquote : c ≠ '"') (hslash : c ≠ '\\') (hcontrol : 32 ≤ c.toNat)
    (rest : List Char) :
    stringBody (c :: rest) = (stringBody rest).map fun p => (c :: p.1, p.2) := by
  rw [stringBody, if_neg (Nat.not_lt.2 hcontrol)]
  · exact hquote
  all_goals intros; exact hslash ‹_›

theorem stringBody_escaped {e : Char} (he : unescape? e = some c) (rest : List Char) :
    stringBody ('\\' :: e :: rest) = (stringBody rest).map fun p => (c :: p.1, p.2) := by
  have hu : e ≠ 'u' := by
    rintro rfl
    exact nomatch he
  rw [stringBody, he]
  all_goals intros; exact hu ‹_›

theorem hexQuad?_hexDigit : ∀ n < 32,
    hexQuad? '0' '0' (hexDigit (n / 16)) (hexDigit (n % 16)) = some n := by
  decide

theorem stringBody_numbered {n : Nat} (hn : n < 32) (rest : List Char) :
    stringBody ('\\' :: 'u' :: '0' :: '0' :: hexDigit (n / 16) :: hexDigit (n % 16) :: rest) =
      (stringBody rest).map fun p => (Char.ofNat n :: p.1, p.2) := by
  have hlow : isLowSurrogate n = false := by simp [isLowSurrogate]; omega
  have hhigh : isHighSurrogate n = false := by simp [isHighSurrogate]; omega
  rw [stringBody, hexQuad?_hexDigit n hn]
  simp only [hlow, hhigh, Bool.false_eq_true, if_false]

/-- A character is read from what it is written as. -/
theorem stringBody_escapeChar (c : Char) (rest : List Char) :
    stringBody (escapeChar c ++ rest) = (stringBody rest).map fun p => (c :: p.1, p.2) := by
  have hofNat : ∀ n, c.toNat = n → Char.ofNat n = c := fun n h => h ▸ Char.ofNat_toNat c
  unfold escapeChar
  split
  · subst c
    exact stringBody_escaped rfl rest
  split
  · subst c
    exact stringBody_escaped rfl rest
  split
  · subst c
    exact stringBody_escaped rfl rest
  split
  · subst c
    exact stringBody_escaped rfl rest
  split
  · subst c
    exact stringBody_escaped rfl rest
  split
  · rename_i h
    obtain rfl := hofNat 8 h
    exact stringBody_escaped rfl rest
  split
  · rename_i h
    obtain rfl := hofNat 12 h
    exact stringBody_escaped rfl rest
  split
  · rename_i h
    exact (stringBody_numbered h rest).trans (by rw [Char.ofNat_toNat])
  · rename_i hquote hslash _ _ _ _ _ hcontrol
    exact stringBody_plain hquote hslash (Nat.not_lt.1 hcontrol) rest

/-- A string is read as it was written. -/
theorem string_quoted (s : String) (rest : List Char) :
    string (s.toList.flatMap escapeChar ++ '"' :: rest) = .ok (s, rest) := by
  have hbody : ∀ cs : List Char,
      stringBody (cs.flatMap escapeChar ++ '"' :: rest) = .ok (cs, rest) := by
    intro cs
    induction cs with
    | nil => rfl
    | cons c cs ih =>
      rw [List.flatMap_cons, List.append_assoc, stringBody_escapeChar, ih]
      rfl
  rw [string, hbody, Except.map, String.ofList_toList]

end DataShape.Json
