/-!
# Decimal digits

Natural numbers as runs of ASCII digits. `digits` writes one, `ofDigits` reads a
run back (`ofDigits_digits`), and `splitDigits` cuts the run off the front of a text
(`splitDigits_of_digits`). A number that is written starts with a zero only if it is
zero (`exists_digits_eq_cons`), and factors of ten are zeros at its end
(`digits_mul_pow`).
-/

namespace DataShape.Text

def digitValue (c : Char) : Nat :=
  c.toNat - 48

/-- The number a run of digits stands for, most significant digit first. -/
def ofDigits (cs : List Char) : Nat :=
  cs.foldl (fun n c => 10 * n + digitValue c) 0

/-- The digits of `n` in base ten, without leading zeros. -/
def digits (n : Nat) : List Char :=
  Nat.toDigits 10 n

/-- The digits at the front of a text, and what follows them. -/
def splitDigits (cs : List Char) : List Char × List Char :=
  (cs.takeWhile Char.isDigit, cs.dropWhile Char.isDigit)

/-- A minus sign where one is due. -/
def signed (negative : Bool) (cs : List Char) : List Char :=
  if negative then '-' :: cs else cs

/-- An integer in base ten. -/
def intDigits (n : Int) : List Char :=
  signed (n < 0) (digits n.natAbs)

theorem splitDigits_append (cs : List Char) : (splitDigits cs).1 ++ (splitDigits cs).2 = cs :=
  List.takeWhile_append_dropWhile

/-! ## Writing and reading -/

/-- No digit stands at the front of a text. -/
def NoDigitAhead (cs : List Char) : Prop :=
  ∀ c ∈ cs.head?, c.isDigit = false

theorem splitDigits_of_digits {ds rest : List Char} (hds : ∀ c ∈ ds, c.isDigit = true)
    (hrest : NoDigitAhead rest) : splitDigits (ds ++ rest) = (ds, rest) := by
  have hrun : rest.takeWhile Char.isDigit = [] ∧ rest.dropWhile Char.isDigit = rest := by
    cases rest with
    | nil => exact ⟨rfl, rfl⟩
    | cons c cs => simp [hrest c rfl]
  rw [splitDigits, List.takeWhile_append_of_pos hds, List.dropWhile_append_of_pos hds, hrun.1,
    hrun.2, List.append_nil]

theorem ofDigits_append (cs ds : List Char) :
    ofDigits (cs ++ ds) = Nat.pow 10 ds.length * ofDigits cs + ofDigits ds :=
  (Nat.ofDigitChars_append 0).trans Nat.ofDigitChars_eq_ofDigitChars_zero

theorem ofDigits_zeros (n : Nat) : ofDigits (List.replicate n '0') = 0 :=
  Nat.ofDigitChars_replicate_zero.trans (Nat.mul_zero _)

theorem ofDigits_digits (n : Nat) : ofDigits (digits n) = n :=
  Nat.ofDigitChars_ten_toDigits

theorem isDigit_of_mem_digits {n : Nat} {c : Char} (h : c ∈ digits n) : c.isDigit = true :=
  Nat.isDigit_of_mem_toDigits (by decide) (by decide) h

theorem digits_ne_nil (n : Nat) : digits n ≠ [] :=
  Nat.toDigits_ne_nil

theorem digits_zero : digits 0 = ['0'] :=
  Nat.toDigits_zero 10

theorem exists_digits_eq_cons {n : Nat} (h : n ≠ 0) : ∃ c ds, digits n = c :: ds ∧ c ≠ '0' := by
  induction n using Nat.strongRecOn with
  | ind n ih =>
    rw [digits, Nat.toDigits_eq_if (by decide)]
    split
    · exact ⟨_, [], rfl, fun hzero => h (Nat.digitChar_eq_zero.1 hzero)⟩
    · obtain ⟨c, ds, hds, hc⟩ :=
        ih (n / 10) (Nat.div_lt_self (Nat.pos_of_ne_zero h) (by decide)) (by omega)
      exact ⟨c, ds ++ [(n % 10).digitChar], congrArg (· ++ [(n % 10).digitChar]) hds, hc⟩

/-- Factors of ten are written as zeros. -/
theorem digits_mul_pow {n : Nat} (hn : n ≠ 0) (k : Nat) :
    digits (n * Nat.pow 10 k) = digits n ++ List.replicate k '0' := by
  induction k with
  | zero => simp
  | succ k ih =>
    have hpos : 0 < n * Nat.pow 10 k :=
      Nat.mul_pos (Nat.pos_of_ne_zero hn) (Nat.pow_pos (by decide))
    have hstep : n * Nat.pow 10 (k + 1) = 10 * (n * Nat.pow 10 k) + 0 :=
      calc n * Nat.pow 10 (k + 1) = n * (10 * Nat.pow 10 k) := congrArg (n * ·) (Nat.mul_comm ..)
        _ = 10 * (n * Nat.pow 10 k) := Nat.mul_left_comm ..
    rw [hstep, digits, ← Nat.toDigits_append_toDigits (by decide) hpos (by decide), ← digits, ih,
      List.append_assoc, List.replicate_succ']
    rfl

end DataShape.Text
