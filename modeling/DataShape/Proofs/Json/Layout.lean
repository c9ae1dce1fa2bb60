import DataShape.Proofs.Json.Numeral

/-!
# Layouts with gaps

Both layouts of a document are one layout (`Document.spacedOnto`) with different gaps
(`Spacing`) : `Document.compactOnto_eq` and `Document.prettyOnto_eq`. Gaps are blanks, which
a reader skips, and blanks end a numeral. A document stands in front of its rest
(`Document.length_le_spacedOnto`), and its first character is no blank as long as its
numerals are read back as they are written (`Document.Fits`).
-/

namespace DataShape.Json

/-! ## Blanks -/

theorem skipBlanks_append {ws : List Char} (h : ∀ c ∈ ws, isBlank c = true) (cs : List Char) :
    skipBlanks (ws ++ cs) = skipBlanks cs :=
  List.dropWhile_append_of_pos h

theorem skipBlanks_cons {c : Char} (h : isBlank c = false) (cs : List Char) :
    skipBlanks (c :: cs) = c :: cs := by
  simp [skipBlanks, h]

theorem endsNumeral_cons {c : Char} {cs : List Char}
    (h : c.isDigit = false ∧ c ≠ '.' ∧ c ≠ 'e' ∧ c ≠ 'E') : EndsNumeral (c :: cs) := by
  rintro d hd
  obtain rfl := Option.some.inj hd
  exact h

theorem endsNumeral_append {ws cs : List Char} (hws : ∀ c ∈ ws, isBlank c = true)
    (hcs : EndsNumeral cs) : EndsNumeral (ws ++ cs) := by
  cases ws with
  | nil => exact hcs
  | cons c ws =>
    refine endsNumeral_cons ?_
    have hc := hws c List.mem_cons_self
    simp only [isBlank, Bool.or_eq_true, decide_eq_true_eq] at hc
    rcases hc with ((rfl | rfl) | rfl) | rfl <;> decide

theorem isBlank_of_numeral {c : Char} (h : c = '-' ∨ c.isDigit = true) : isBlank c = false := by
  refine Bool.eq_false_iff.2 fun hblank => ?_
  simp only [isBlank, Bool.or_eq_true, decide_eq_true_eq] at hblank
  rcases hblank with ((rfl | rfl) | rfl) | rfl <;> exact absurd h (by decide)

/-! ## Gaps -/

/-- Where blanks stand in a text : at a level of nesting in front of items, members and closing
brackets, and behind colons. -/
structure Spacing where
  gap : Nat → List Char
  colonGap : List Char
  blank_gap : ∀ level, ∀ c ∈ gap level, isBlank c = true
  blank_colonGap : ∀ c ∈ colonGap, isBlank c = true

/-- No blanks. -/
def Spacing.tight : Spacing where
  gap _ := []
  colonGap := []
  blank_gap _ _ h := nomatch h
  blank_colonGap _ h := nomatch h

theorem blank_newLine (level : Nat) : ∀ c ∈ Document.newLine level, isBlank c = true := by
  intro c hc
  rcases List.mem_cons.1 hc with rfl | hc
  · rfl
  · rw [(List.mem_replicate.1 hc).2]
    rfl

/-- A line for each item and member. -/
def Spacing.lines : Spacing where
  gap := Document.newLine
  colonGap := [' ']
  blank_gap := blank_newLine
  blank_colonGap c hc := by
    rw [List.mem_singleton.1 hc]
    rfl

namespace Document

mutual
/-- The text of a document that stands at a level of nesting, in front of a rest. -/
def spacedOnto (s : Spacing) (level : Nat) : Document → List Char → List Char
  | .null, rest => "null".toList ++ rest
  | .bool true, rest => "true".toList ++ rest
  | .bool false, rest => "false".toList ++ rest
  | .number n, rest => n.chars ++ rest
  | .string t, rest => quote t ++ rest
  | .array [], rest => '[' :: ']' :: rest
  | .array (d :: ds), rest =>
    '[' :: (s.gap (level + 1) ++ spacedOnto s (level + 1) d (spacedItems s level ds rest))
  | .object [], rest => '{' :: '}' :: rest
  | .object ((k, d) :: ms), rest =>
    '{' :: (s.gap (level + 1) ++ (quote k ++ ':' :: (s.colonGap ++
      spacedOnto s (level + 1) d (spacedMembers s level ms rest))))

/-- The items after the first and the closing bracket, of an array at a level of nesting. -/
def spacedItems (s : Spacing) (level : Nat) : List Document → List Char → List Char
  | [], rest => s.gap level ++ ']' :: rest
  | d :: ds, rest =>
    ',' :: (s.gap (level + 1) ++ spacedOnto s (level + 1) d (spacedItems s level ds rest))

/-- The members after the first and the closing brace, of an object at a level of nesting. -/
def spacedMembers (s : Spacing) (level : Nat) : List (String × Document) → List Char → List Char
  | [], rest => s.gap level ++ '}' :: rest
  | (k, d) :: ms, rest =>
    ',' :: (s.gap (level + 1) ++ (quote k ++ ':' :: (s.colonGap ++
      spacedOnto s (level + 1) d (spacedMembers s level ms rest))))
end

/-- The text of a key and of the document below it. -/
def spacedMember (s : Spacing) (level : Nat) (k : String) (d : Document) (rest : List Char) :
    List Char :=
  quote k ++ ':' :: (s.colonGap ++ spacedOnto s level d rest)

section Equations

variable (s : Spacing) (level : Nat) (k : String) (d : Document) (ds : List Document)
  (ms : List (String × Document)) (rest : List Char)

theorem spacedOnto_number (n : Numeral) : spacedOnto s level (.number n) rest = n.chars ++ rest :=
  rfl

theorem spacedOnto_string (t : String) : spacedOnto s level (.string t) rest = quote t ++ rest :=
  rfl

theorem spacedOnto_array : spacedOnto s level (.array (d :: ds)) rest =
    '[' :: (s.gap (level + 1) ++ spacedOnto s (level + 1) d (spacedItems s level ds rest)) :=
  rfl

theorem spacedOnto_object : spacedOnto s level (.object ((k, d) :: ms)) rest =
    '{' :: (s.gap (level + 1) ++ spacedMember s (level + 1) k d (spacedMembers s level ms rest)) :=
  rfl

theorem spacedItems_nil : spacedItems s level [] rest = s.gap level ++ ']' :: rest :=
  rfl

theorem spacedItems_cons : spacedItems s level (d :: ds) rest =
    ',' :: (s.gap (level + 1) ++ spacedOnto s (level + 1) d (spacedItems s level ds rest)) :=
  rfl

theorem spacedMembers_nil : spacedMembers s level [] rest = s.gap level ++ '}' :: rest :=
  rfl

theorem spacedMembers_cons : spacedMembers s level ((k, d) :: ms) rest =
    ',' :: (s.gap (level + 1) ++ spacedMember s (level + 1) k d (spacedMembers s level ms rest)) :=
  rfl

end Equations

mutual
theorem compactOnto_eq : ∀ (level : Nat) (d : Document) (rest : List Char),
    d.compactOnto rest = spacedOnto .tight level d rest
  | _, .null, _ => rfl
  | _, .bool true, _ => rfl
  | _, .bool false, _ => rfl
  | _, .number _, _ => rfl
  | _, .string _, _ => rfl
  | _, .array [], _ => rfl
  | level, .array (d :: ds), rest => by
    rw [spacedOnto_array, ← compactOnto_eq (level + 1), ← compactItems_eq level]
    rfl
  | _, .object [], _ => rfl
  | level, .object ((k, d) :: ms), rest => by
    rw [spacedOnto_object, spacedMember, ← compactOnto_eq (level + 1), ← compactMembers_eq level]
    rfl

theorem compactItems_eq : ∀ (level : Nat) (ds : List Document) (rest : List Char),
    compactItems ds rest = spacedItems .tight level ds rest
  | _, [], _ => rfl
  | level, d :: ds, rest => by
    rw [spacedItems_cons, ← compactOnto_eq (level + 1), ← compactItems_eq level]
    rfl

theorem compactMembers_eq : ∀ (level : Nat) (ms : List (String × Document)) (rest : List Char),
    compactMembers ms rest = spacedMembers .tight level ms rest
  | _, [], _ => rfl
  | level, (k, d) :: ms, rest => by
    rw [spacedMembers_cons, spacedMember, ← compactOnto_eq (level + 1), ← compactMembers_eq level]
    rfl
end

mutual
theorem prettyOnto_eq : ∀ (level : Nat) (d : Document) (rest : List Char),
    d.prettyOnto level rest = spacedOnto .lines level d rest
  | _, .null, _ => rfl
  | _, .bool true, _ => rfl
  | _, .bool false, _ => rfl
  | _, .number _, _ => rfl
  | _, .string _, _ => rfl
  | _, .array [], _ => rfl
  | level, .array (d :: ds), rest => by
    rw [spacedOnto_array, ← prettyOnto_eq, ← prettyItems_eq]
    rfl
  | _, .object [], _ => rfl
  | level, .object ((k, d) :: ms), rest => by
    rw [spacedOnto_object, spacedMember, ← prettyOnto_eq, ← prettyMembers_eq, ← List.append_assoc]
    rfl

theorem prettyItems_eq : ∀ (level : Nat) (ds : List Document) (rest : List Char),
    prettyItems level ds rest = spacedItems .lines level ds rest
  | _, [], _ => rfl
  | level, d :: ds, rest => by
    rw [spacedItems_cons, ← prettyOnto_eq, ← prettyItems_eq]
    rfl

theorem prettyMembers_eq : ∀ (level : Nat) (ms : List (String × Document)) (rest : List Char),
    prettyMembers level ms rest = spacedMembers .lines level ms rest
  | _, [], _ => rfl
  | level, (k, d) :: ms, rest => by
    rw [spacedMembers_cons, spacedMember, ← prettyOnto_eq, ← prettyMembers_eq, ← List.append_assoc]
    rfl
end

mutual
/-- A document is written in front of its rest. -/
theorem length_le_spacedOnto (s : Spacing) : ∀ (level : Nat) (d : Document) (rest : List Char),
    rest.length ≤ (spacedOnto s level d rest).length
  | _, .null, rest => (List.suffix_append _ rest).length_le
  | _, .bool true, rest => (List.suffix_append _ rest).length_le
  | _, .bool false, rest => (List.suffix_append _ rest).length_le
  | _, .number _, rest => (List.suffix_append _ rest).length_le
  | _, .string _, rest => (List.suffix_append _ rest).length_le
  | _, .array [], rest => (List.suffix_append ['[', ']'] rest).length_le
  | level, .array (d :: ds), rest => by
    have hitem := length_le_spacedOnto s (level + 1) d (spacedItems s level ds rest)
    have hitems := length_lt_spacedItems s level ds rest
    rw [spacedOnto_array, List.length_cons, List.length_append]
    omega
  | _, .object [], rest => (List.suffix_append ['{', '}'] rest).length_le
  | level, .object ((k, d) :: ms), rest => by
    have hmember := length_le_spacedOnto s (level + 1) d (spacedMembers s level ms rest)
    have hmembers := length_lt_spacedMembers s level ms rest
    simp only [spacedOnto_object, spacedMember, List.length_cons, List.length_append]
    omega

theorem length_lt_spacedItems (s : Spacing) : ∀ (level : Nat) (ds : List Document)
    (rest : List Char), rest.length < (spacedItems s level ds rest).length
  | _, [], rest => by
    rw [spacedItems_nil, List.length_append, List.length_cons]
    omega
  | level, d :: ds, rest => by
    have hitem := length_le_spacedOnto s (level + 1) d (spacedItems s level ds rest)
    have hitems := length_lt_spacedItems s level ds rest
    rw [spacedItems_cons, List.length_cons, List.length_append]
    omega

theorem length_lt_spacedMembers (s : Spacing) : ∀ (level : Nat) (ms : List (String × Document))
    (rest : List Char), rest.length < (spacedMembers s level ms rest).length
  | _, [], rest => by
    rw [spacedMembers_nil, List.length_append, List.length_cons]
    omega
  | level, (k, d) :: ms, rest => by
    have hmember := length_le_spacedOnto s (level + 1) d (spacedMembers s level ms rest)
    have hmembers := length_lt_spacedMembers s level ms rest
    simp only [spacedMembers_cons, spacedMember, List.length_cons, List.length_append]
    omega
end

theorem endsNumeral_spacedItems (s : Spacing) (level : Nat) (ds : List Document)
    (rest : List Char) : EndsNumeral (spacedItems s level ds rest) := by
  cases ds with
  | nil => exact endsNumeral_append (s.blank_gap level) (endsNumeral_cons (by decide))
  | cons d ds => exact endsNumeral_cons (by decide)

theorem endsNumeral_spacedMembers (s : Spacing) (level : Nat) (ms : List (String × Document))
    (rest : List Char) : EndsNumeral (spacedMembers s level ms rest) := by
  cases ms with
  | nil => exact endsNumeral_append (s.blank_gap level) (endsNumeral_cons (by decide))
  | cons d ds => exact endsNumeral_cons (by decide)

/-- The numerals are read back, and at most so many containers are nested. -/
inductive Fits (convert : Conversion) : Nat → Document → Prop where
  | null {n} : Fits convert n .null
  | bool {n b} : Fits convert n (.bool b)
  | number {n a} (h : a.ReadBack convert) : Fits convert n (.number a)
  | string {n s} : Fits convert n (.string s)
  | array {n ds} (h : ∀ d ∈ ds, Fits convert n d) : Fits convert (n + 1) (.array ds)
  | object {n ms} (h : ∀ m ∈ ms, Fits convert n m.2) : Fits convert (n + 1) (.object ms)

/-- A document starts with a character that is no blank and closes no array. -/
theorem Fits.exists_spacedOnto_eq_cons {convert : Conversion} {depth : Nat} {d : Document}
    (h : Fits convert depth d) (s : Spacing) (level : Nat) (rest : List Char) :
    ∃ c cs, spacedOnto s level d rest = c :: cs ∧ isBlank c = false ∧ c ≠ ']' := by
  cases h with
  | null => exact ⟨'n', _, rfl, rfl, by decide⟩
  | @bool _ b => cases b <;> exact ⟨_, _, rfl, rfl, by decide⟩
  | @number _ a ha =>
    obtain ⟨c, cs, hcs, hc⟩ := a.exists_chars_eq_cons ha
    refine ⟨c, cs ++ rest, congrArg (· ++ rest) hcs, isBlank_of_numeral hc, ?_⟩
    rintro rfl
    exact absurd hc (by decide)
  | string => exact ⟨'"', _, rfl, rfl, by decide⟩
  | @array _ ds => cases ds <;> exact ⟨'[', _, rfl, rfl, by decide⟩
  | @object _ ms => cases ms <;> exact ⟨'{', _, rfl, rfl, by decide⟩

/-- A member starts with the quote of its key. -/
theorem exists_spacedMember_eq_cons (s : Spacing) (level : Nat) (k : String) (d : Document)
    (rest : List Char) : ∃ cs, spacedMember s level k d rest = '"' :: cs :=
  ⟨_, List.cons_append⟩

end Document

end DataShape.Json
