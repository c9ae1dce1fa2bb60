/-!
# Blank text

The Unicode property White_Space as closed ranges of code points, and what the
library does with it : trimming a text at both ends, and asking whether nothing
is left. Shape names and number literals are trimmed by this rule, so a name
made only of blanks is as good as no name.
-/

namespace DataShape.Text

/-- The code points with the property White_Space, as closed ascending ranges. -/
def blankRanges : List (Nat × Nat) :=
  [(0x09, 0x0D), (0x20, 0x20), (0x85, 0x85), (0xA0, 0xA0), (0x1680, 0x1680), (0x2000, 0x200A),
   (0x2028, 0x2029), (0x202F, 0x202F), (0x205F, 0x205F), (0x3000, 0x3000)]

/-- Whether one of the closed ranges holds `n`. -/
def inRanges (ranges : List (Nat × Nat)) (n : Nat) : Bool :=
  ranges.any fun r => r.1 ≤ n && n ≤ r.2

def isBlankChar (c : Char) : Bool :=
  inRanges blankRanges c.toNat

/-- Blanks are dropped at both ends and kept inside. -/
def trimChars (cs : List Char) : List Char :=
  ((cs.dropWhile isBlankChar).reverse.dropWhile isBlankChar).reverse

/-- A text with nothing but blanks in it, the empty text included. -/
def isBlank (s : String) : Bool :=
  s.toList.all isBlankChar

theorem isBlankChar_of_isDigit {c : Char} (h : c.isDigit = true) : isBlankChar c = false := by
  have hrange : 48 ≤ c.toNat ∧ c.toNat ≤ 57 := by
    simpa [Char.isDigit, UInt32.le_iff_toNat_le] using h
  simp only [isBlankChar, inRanges, blankRanges, List.any_cons, List.any_nil, Bool.or_false,
    Bool.or_eq_false_iff, Bool.and_eq_false_iff, decide_eq_false_iff_not]
  omega

/-- Blanks around a text that has none are dropped. -/
theorem trimChars_append {ws cs ws' : List Char} (hws : ∀ c ∈ ws, isBlankChar c = true)
    (hcs : ∀ c ∈ cs, isBlankChar c = false) (hws' : ∀ c ∈ ws', isBlankChar c = true) :
    trimChars (ws ++ (cs ++ ws')) = cs := by
  have hkeep : ∀ {ds : List Char}, (∀ c ∈ ds, isBlankChar c = false) →
      ds.dropWhile isBlankChar = ds := by
    intro ds hds
    cases ds with
    | nil => rfl
    | cons d ds => exact List.dropWhile_cons_of_neg (by simp [hds])
  have hback : ∀ c ∈ ws'.reverse, isBlankChar c = true := fun c hc =>
    hws' c (List.mem_reverse.1 hc)
  have hreverse : ∀ c ∈ cs.reverse, isBlankChar c = false := fun c hc =>
    hcs c (List.mem_reverse.1 hc)
  rw [trimChars, List.dropWhile_append_of_pos hws, List.dropWhile_append, hkeep hcs]
  cases cs with
  | nil =>
    have hall : (ws' ++ []).dropWhile isBlankChar = [] := List.dropWhile_append_of_pos hws'
    rw [List.append_nil] at hall
    simp [hall]
  | cons c cs =>
    rw [List.isEmpty_cons, if_neg Bool.false_ne_true, List.reverse_append,
      List.dropWhile_append_of_pos hback, hkeep hreverse, List.reverse_reverse]

/-- A text without blanks is left as it is. -/
theorem trimChars_of_forall {cs : List Char} (h : ∀ c ∈ cs, isBlankChar c = false) :
    trimChars cs = cs := by
  have hnil : ∀ c ∈ ([] : List Char), isBlankChar c = true := nofun
  have htrim := trimChars_append hnil h hnil
  rwa [List.nil_append, List.append_nil] at htrim

end DataShape.Text
