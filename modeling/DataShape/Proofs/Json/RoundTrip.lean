import DataShape.Proofs.Json.Layout
import DataShape.Proofs.Json.Quote

/-!
# Documents read back

A document that is written with gaps is read construct by construct : scalars by their own
readers, containers by the loops over items and members (`items_spaced`,
`members_spaced`), and by induction on the nesting a whole document (`value_spaced`). The
length of the text is enough for the rounds of every loop, as each construct leaves a
shorter text behind.

So whatever a builder makes of a text is what it makes of the document the text was
written for (`read_compact`, `read_pretty`), as long as its numerals are read back and it
is not nested too deeply. A text without blanks is the text of one document only
(`compact_inj`), however deeply that is nested.
-/

namespace DataShape.Json

/-! ## Reading -/

section Read

open Document

variable (convert : Conversion) {α : Type} (b : Builder α) {rounds depth : Nat}
  {cs rest : List Char}

theorem value_skipBlanks (rounds depth : Nat) {ws : List Char} (h : ∀ c ∈ ws, isBlank c = true)
    (cs : List Char) :
    value convert b rounds depth (ws ++ cs) = value convert b rounds depth cs := by
  unfold value
  rw [skipBlanks_append h]

theorem value_numeral {c : Char} (h : c = '-' ∨ c.isDigit = true) :
    value convert b rounds depth (c :: cs) =
      (numeral convert (c :: cs)).map fun p => (b.number p.1, p.2) := by
  unfold value
  rw [skipBlanks_cons (isBlank_of_numeral h)]
  split
  -- No other construct starts with a minus sign or a digit.
  all_goals try
    rename_i heq
    obtain ⟨rfl, -⟩ := List.cons.inj heq
    exact absurd h (by decide)
  · rename_i heq
    exact nomatch heq
  · rename_i heq
    obtain ⟨rfl, rfl⟩ := List.cons.inj heq
    rw [if_pos (by simpa using h)]

theorem value_string : value convert b rounds depth ('"' :: cs) =
    (string cs).map fun p => (b.string p.1, p.2) := by
  rw [value]
  rfl

theorem value_array : value convert b rounds (depth + 1) ('[' :: cs) =
    (arrayBody (value convert b rounds depth) rounds cs).map fun p => (b.array p.1, p.2) := by
  rw [value]
  rfl

theorem value_object : value convert b rounds (depth + 1) ('{' :: cs) =
    (objectBody (value convert b rounds depth) rounds cs).map fun p => (b.object p.1, p.2) := by
  rw [value]
  rfl

theorem skipBlanks_gap (s : Spacing) (level : Nat) {text : List Char} {c : Char}
    (htext : text = c :: cs) (hblank : isBlank c = false) :
    skipBlanks (s.gap level ++ text) = c :: cs := by
  rw [skipBlanks_append (s.blank_gap level), htext, skipBlanks_cons hblank]

section Loops

variable {read : List Char → Except Fault (α × List Char)} {n : Nat} {x : α} {k : String}
  {r r' : List Char}

theorem arrayBody_items {c : Char} (hr : skipBlanks r = c :: r') (hc : c ≠ ']') :
    arrayBody read n r = items read n (c :: r') := by
  rw [arrayBody, hr]
  split
  · rename_i heq
    exact nomatch heq
  · rename_i heq
    exact absurd (List.cons.inj heq).1 hc
  · rfl

theorem items_last (hread : read cs = .ok (x, r)) (hr : skipBlanks r = ']' :: rest) :
    items read (n + 1) cs = .ok ([x], rest) := by
  simp only [items, hread, bind, Except.bind, hr]

theorem items_more {c : Char} (hread : read cs = .ok (x, ',' :: r))
    (hr : skipBlanks r = c :: r') (hc : c ≠ ']') :
    items read (n + 1) cs = (items read n (c :: r')).map fun p => (x :: p.1, p.2) := by
  have hcomma : skipBlanks (',' :: r) = ',' :: r := skipBlanks_cons rfl r
  simp only [items, hread, bind, Except.bind, hcomma, hr]
  split
  · rename_i heq
    exact absurd (List.cons.inj heq).1 hc
  · cases items read n (c :: r') <;> rfl

theorem objectBody_members {c : Char} (hr : skipBlanks r = c :: r') (hc : c ≠ '}') :
    objectBody read n r = members read n (c :: r') := by
  rw [objectBody, hr]
  split
  · rename_i heq
    exact absurd (List.cons.inj heq).1 hc
  · rfl

theorem members_last {m : String × α} (hmember : member read cs = .ok (m, r))
    (hr : skipBlanks r = '}' :: rest) : members read (n + 1) cs = .ok ([m], rest) := by
  simp only [members, hmember, bind, Except.bind, hr]

theorem members_more {m : String × α} (hmember : member read cs = .ok (m, ',' :: r)) :
    members read (n + 1) cs = (members read n (skipBlanks r)).map fun p => (m :: p.1, p.2) := by
  have hcomma : skipBlanks (',' :: r) = ',' :: r := skipBlanks_cons rfl r
  simp only [members, hmember, bind, Except.bind, hcomma]
  cases members read n (skipBlanks r) <;> rfl

theorem quote_append (k : String) (cs : List Char) :
    quote k ++ cs = '"' :: (k.toList.flatMap escapeChar ++ '"' :: cs) := by
  simp [quote]

theorem member_quoted (hread : read cs = .ok (x, r)) :
    member read (quote k ++ ':' :: cs) = .ok ((k, x), r) := by
  have hcolon : skipBlanks (':' :: cs) = ':' :: cs := skipBlanks_cons rfl cs
  rw [quote_append]
  simp only [member, string_quoted, bind, Except.bind, hcolon, hread]
  rfl

end Loops

/-- The document is read wherever it stands in a text. -/
def StandsFor (s : Spacing) (rounds depth : Nat) (d : Document) : Prop :=
  ∀ level rest, EndsNumeral rest → (spacedOnto s level d rest).length ≤ rounds →
    value convert b rounds depth (spacedOnto s level d rest) = .ok (d.fold b, rest)

variable {s : Spacing}

/-- The items of an array are read up to its closing bracket. -/
theorem items_spaced (level : Nat) (rest : List Char) :
    ∀ {n : Nat} {d : Document} {ds : List Document}, (∀ e ∈ d :: ds, e.Fits convert depth) →
      (∀ e ∈ d :: ds, StandsFor convert b s rounds depth e) →
      (spacedOnto s (level + 1) d (spacedItems s level ds rest)).length ≤ n → n ≤ rounds →
        items (value convert b rounds depth) n
            (spacedOnto s (level + 1) d (spacedItems s level ds rest)) =
          .ok (foldItems b (d :: ds), rest)
  | 0, d, ds, _, _, hn, _ => by
    have hitem := length_le_spacedOnto s (level + 1) d (spacedItems s level ds rest)
    have hitems := length_lt_spacedItems s level ds rest
    omega
  | n + 1, d, [], _, hread, hn, hrounds => by
    have hfirst := hread d List.mem_cons_self (level + 1) _
      (endsNumeral_spacedItems s level [] rest) (Nat.le_trans hn hrounds)
    refine items_last hfirst ?_
    rw [spacedItems_nil, skipBlanks_append (s.blank_gap level), skipBlanks_cons rfl]
  | n + 1, d, e :: ds, hfits, hread, hn, hrounds => by
    have hfirst := hread d List.mem_cons_self (level + 1) _
      (endsNumeral_spacedItems s level (e :: ds) rest) (Nat.le_trans hn hrounds)
    have hlength := length_le_spacedOnto s (level + 1) d (spacedItems s level (e :: ds) rest)
    rw [spacedItems_cons] at hn hfirst hlength ⊢
    rw [List.length_cons, List.length_append] at hlength
    obtain ⟨-, hfits⟩ := List.forall_mem_cons.1 hfits
    obtain ⟨-, hread⟩ := List.forall_mem_cons.1 hread
    obtain ⟨c, cs, hcs, hblank, hclose⟩ := (hfits e List.mem_cons_self).exists_spacedOnto_eq_cons s
      (level + 1) (spacedItems s level ds rest)
    have hnext := skipBlanks_gap s (level + 1) hcs hblank
    rw [items_more hfirst hnext hclose, ← hcs,
      items_spaced level rest hfits hread (by omega) (by omega)]
    rfl

/-- The members of an object are read up to its closing brace. -/
theorem members_spaced (level : Nat) (rest : List Char) :
    ∀ {n : Nat} {k : String} {d : Document} {ms : List (String × Document)},
      (∀ m ∈ (k, d) :: ms, StandsFor convert b s rounds depth m.2) →
      (spacedMember s (level + 1) k d (spacedMembers s level ms rest)).length ≤ n → n ≤ rounds →
        members (value convert b rounds depth) n
          (spacedMember s (level + 1) k d (spacedMembers s level ms rest)) =
          .ok (foldMembers b ((k, d) :: ms), rest)
  | 0, k, d, ms, _, hn, _ => by
    obtain ⟨cs, hcs⟩ := exists_spacedMember_eq_cons s (level + 1) k d
      (spacedMembers s level ms rest)
    rw [hcs, List.length_cons] at hn
    omega
  | n + 1, k, d, ms, hread, hn, hrounds => by
    obtain ⟨hfirst, hread⟩ := List.forall_mem_cons.1 hread
    have hlength := length_le_spacedOnto s (level + 1) d (spacedMembers s level ms rest)
    simp only [spacedMember, List.length_append, List.length_cons] at hn
    have hvalue := hfirst (level + 1) _ (endsNumeral_spacedMembers s level ms rest)
      (by dsimp only; omega)
    rw [← value_skipBlanks convert b rounds depth s.blank_colonGap] at hvalue
    have hmember := member_quoted (k := k) hvalue
    cases ms with
    | nil =>
      refine members_last hmember ?_
      rw [spacedMembers_nil, skipBlanks_append (s.blank_gap level), skipBlanks_cons rfl]
    | cons m ms =>
      obtain ⟨k', e⟩ := m
      obtain ⟨cs, hcs⟩ := exists_spacedMember_eq_cons s (level + 1) k' e
        (spacedMembers s level ms rest)
      have hnext := skipBlanks_gap s (level + 1) hcs rfl
      rw [spacedMembers_cons] at hmember hn hlength ⊢
      simp only [List.length_append, List.length_cons] at hlength
      rw [spacedMember, members_more hmember, hnext, ← hcs,
        members_spaced level rest hread (by omega) (by omega)]
      rfl

/-- A document that is written with gaps is read wherever it stands. -/
theorem value_spaced {d : Document} (h : d.Fits convert depth) :
    StandsFor convert b s rounds depth d := by
  induction h with
  | null =>
    intro level rest _ _
    rw [value]
    rfl
  | @bool _ x =>
    intro level rest _ _
    rw [value]
    cases x <;> rfl
  | @number n a ha =>
    intro level rest hrest _
    obtain ⟨c, cs, hcs, hc⟩ := a.exists_chars_eq_cons ha
    have hstart : a.chars ++ rest = c :: (cs ++ rest) := congrArg (· ++ rest) hcs
    rw [spacedOnto_number, hstart, value_numeral convert b hc, ← hstart, numeral_chars ha hrest]
    rfl
  | @string _ t =>
    intro level rest _ _
    rw [spacedOnto_string, quote_append, value_string, string_quoted]
    rfl
  | @array depth ds hfits ih =>
    intro level rest _ hlength
    cases ds with
    | nil =>
      rw [value]
      rfl
    | cons d ds =>
      rw [spacedOnto_array, List.length_cons, List.length_append] at hlength
      obtain ⟨c, cs, hcs, hblank, hclose⟩ := (hfits d List.mem_cons_self).exists_spacedOnto_eq_cons
        s (level + 1) (spacedItems s level ds rest)
      have hnext := skipBlanks_gap s (level + 1) hcs hblank
      rw [spacedOnto_array, value_array, arrayBody_items hnext hclose, ← hcs,
        items_spaced convert b level rest hfits ih (by omega) (Nat.le_refl _)]
      rfl
  | @object depth ms hfits ih =>
    intro level rest _ hlength
    cases ms with
    | nil =>
      rw [value]
      rfl
    | cons m ms =>
      obtain ⟨k, d⟩ := m
      rw [spacedOnto_object, List.length_cons, List.length_append] at hlength
      obtain ⟨cs, hcs⟩ := exists_spacedMember_eq_cons s (level + 1) k d
        (spacedMembers s level ms rest)
      have hnext := skipBlanks_gap s (level + 1) hcs rfl
      rw [spacedOnto_object, value_object, objectBody_members hnext (by decide), ← hcs,
        members_spaced convert b level rest ih (by omega) (Nat.le_refl _)]
      rfl

end Read

variable {convert : Conversion}

/-- A text is read as the document that it was written for. -/
theorem read_ofList {α : Type} (b : Builder α) {s : Spacing} {d : Document}
    (h : d.Fits convert depthLimit) :
    read convert b (String.ofList (d.spacedOnto s 0 [])) = .ok (d.fold b) := by
  have hvalue : value convert b (d.spacedOnto s 0 []).length depthLimit (d.spacedOnto s 0 []) =
      .ok (d.fold b, []) := value_spaced convert b h 0 [] (fun c hc => nomatch hc) (Nat.le_refl _)
  rw [read, readWithin, readFront, String.toList_ofList, hvalue]
  rfl

theorem read_compact {α : Type} (b : Builder α) {d : Document} (h : d.Fits convert depthLimit) :
    read convert b d.compact = .ok (d.fold b) := by
  rw [Document.compact, Document.compactOnto_eq 0, read_ofList b h]

theorem read_pretty {α : Type} (b : Builder α) {d : Document} (h : d.Fits convert depthLimit) :
    read convert b d.pretty = .ok (d.fold b) := by
  rw [Document.pretty, Document.prettyOnto_eq, read_ofList b h]

/-! ## One document for a text -/

namespace Document

/-- Documents themselves, with every member of an object as it stands. -/
def verbatim : Builder Document where
  null := .null
  bool := .bool
  number := .number
  string := .string
  array := .array
  object := .object

mutual
theorem fold_verbatim : ∀ d : Document, d.fold verbatim = d
  | .null => rfl
  | .bool _ => rfl
  | .number _ => rfl
  | .string _ => rfl
  | .array ds => congrArg array (foldItems_verbatim ds)
  | .object ms => congrArg object (foldMembers_verbatim ms)

theorem foldItems_verbatim : ∀ ds : List Document, foldItems verbatim ds = ds
  | [] => rfl
  | d :: ds => by rw [foldItems, fold_verbatim d, foldItems_verbatim ds]

theorem foldMembers_verbatim : ∀ ms : List (String × Document), foldMembers verbatim ms = ms
  | [] => rfl
  | (k, d) :: ms => by rw [foldMembers, fold_verbatim d, foldMembers_verbatim ms]
end

end Document

/-- No two documents have one text. -/
theorem compact_inj {d e : Document} {depth : Nat} (hd : d.Fits convert depth)
    (he : e.Fits convert depth) :
    d.compact = e.compact ↔ d = e := by
  have hread : ∀ {d : Document}, d.Fits convert depth →
      value convert Document.verbatim d.compact.toList.length depth d.compact.toList =
        .ok (d, []) := by
    intro d hd
    have htext : d.compact.toList = d.spacedOnto .tight 0 [] := by
      rw [Document.compact, String.toList_ofList, Document.compactOnto_eq 0]
    have hvalue := value_spaced (s := .tight) convert Document.verbatim hd 0 []
      (fun c hc => nomatch hc) (Nat.le_refl _)
    rwa [Document.fold_verbatim, ← htext] at hvalue
  refine ⟨fun h => ?_, congrArg Document.compact⟩
  have heq := (hread hd).symm.trans (h ▸ hread he)
  exact congrArg Prod.fst (Except.ok.inj heq)

end DataShape.Json
