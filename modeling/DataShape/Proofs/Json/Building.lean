import DataShape.Json.Reader

/-!
# Reading with two builders

The reader never looks at what a builder makes. So if one builder makes what another makes, seen
through a function (`Builder.Maps`), then so do the readers : on every text they come to the same
end or stop for the same fault, and what the second reads is what the first reads, seen through the
function (`read_map`). The lemmas before it say so of the parts of the reader, one by one.

In particular every builder for which the last of equal keys wins can be run on the document of a
text instead of the text (`read_eq_fold`). And a builder of documents that carries along what holds
of them shows that it holds of every document that is read (`Document.unique_of_read`).
-/

namespace DataShape.Json

variable {α β : Type}

/-- What the second builder makes is what the first one makes, seen through a function. -/
structure Builder.Maps (f : α → β) (b : Builder α) (b' : Builder β) : Prop where
  null : f b.null = b'.null
  bool : ∀ x, f (b.bool x) = b'.bool x
  number : ∀ n, f (b.number n) = b'.number n
  string : ∀ s, f (b.string s) = b'.string s
  array : ∀ xs, f (b.array xs) = b'.array (xs.map f)
  object : ∀ ms, f (b.object ms) = b'.object (ms.map fun m => (m.1, f m.2))

/-- What was read, seen through a function, and what is left of the text. -/
def mapRead (f : α → β) (x : Except Fault (α × List Char)) : Except Fault (β × List Char) :=
  x.map fun p => (f p.1, p.2)

theorem mapRead_map {γ : Type} {f : α → β} {g : γ → α × List Char} {x : Except Fault γ} :
    mapRead f (x.map g) = x.map fun p => (f (g p).1, (g p).2) := by
  cases x <;> rfl

/-! ## Containers -/

section Containers

variable {f : α → β} {read : List Char → Except Fault (α × List Char)}
  {read' : List Char → Except Fault (β × List Char)}

theorem items_map (h : ∀ cs, read' cs = mapRead f (read cs)) (n : Nat) (cs : List Char) :
    items read' n cs = mapRead (List.map f) (items read n cs) := by
  induction n generalizing cs with
  | zero => rfl
  | succ n ih =>
    rw [items, items, h]
    cases read cs with
    | error e => rfl
    | ok p =>
      simp only [mapRead, Except.map, bind, Except.bind]
      split
      · rfl
      · rfl
      · split
        · rfl
        · rw [ih]
          cases items read n _ <;> rfl
      · rfl

theorem member_map (h : ∀ cs, read' cs = mapRead f (read cs)) (cs : List Char) :
    member read' cs = mapRead (fun m => (m.1, f m.2)) (member read cs) := by
  unfold member
  split
  · rfl
  · cases string _ with
    | error e => rfl
    | ok p =>
      simp only [mapRead, Except.map, bind, Except.bind]
      split
      · rfl
      · rw [h]
        cases read _ <;> rfl
      · rfl
  · rfl

theorem members_map (h : ∀ cs, read' cs = mapRead f (read cs)) (n : Nat) (cs : List Char) :
    members read' n cs = mapRead (List.map fun m => (m.1, f m.2)) (members read n cs) := by
  induction n generalizing cs with
  | zero => rfl
  | succ n ih =>
    rw [members, members, member_map h]
    cases member read cs with
    | error e => rfl
    | ok p =>
      simp only [mapRead, Except.map, bind, Except.bind]
      split
      · rfl
      · rfl
      · rw [ih]
        cases members read n _ <;> rfl
      · rfl

theorem arrayBody_map (h : ∀ cs, read' cs = mapRead f (read cs)) (n : Nat) (cs : List Char) :
    arrayBody read' n cs = mapRead (List.map f) (arrayBody read n cs) := by
  unfold arrayBody
  split
  · rfl
  · rfl
  · exact items_map h n _

theorem objectBody_map (h : ∀ cs, read' cs = mapRead f (read cs)) (n : Nat) (cs : List Char) :
    objectBody read' n cs = mapRead (List.map fun m => (m.1, f m.2)) (objectBody read n cs) := by
  unfold objectBody
  split
  · rfl
  · exact members_map h n _

end Containers

/-! ## Values and texts -/

section Values

variable (convert : Conversion) {f : α → β} {b : Builder α} {b' : Builder β}

theorem value_map (h : b.Maps f b') (rounds : Nat) :
    ∀ (depth : Nat) (cs : List Char),
      value convert b' rounds depth cs = mapRead f (value convert b rounds depth cs)
  | depth, cs => by
    rw [value, value]
    split
    · rfl
    · simp only [mapRead_map, h.null]
    · simp only [mapRead_map, h.bool]
    · simp only [mapRead_map, h.bool]
    · simp only [mapRead_map, h.string]
    · cases depth with
      | zero => rfl
      | succ depth =>
        simp only [mapRead_map, h.array, arrayBody_map (value_map h rounds depth)]
        cases arrayBody _ _ _ <;> rfl
    · cases depth with
      | zero => rfl
      | succ depth =>
        simp only [mapRead_map, h.object, objectBody_map (value_map h rounds depth)]
        cases objectBody _ _ _ <;> rfl
    · split
      · simp only [mapRead_map, h.number]
      · rfl

/-- The second reader reads what the first one reads, seen through the function, and fails where the
first one fails. -/
theorem read_map (h : b.Maps f b') (text : String) :
    read convert b' text = (read convert b text).map f := by
  simp only [read, readWithin, readFront, value_map convert h]
  cases value convert b _ _ _ with
  | error e => rfl
  | ok p =>
    simp only [mapRead, Except.map, bind, Except.bind]
    cases expectEnd p.2 <;> rfl

end Values

/-! ## Folded documents -/

namespace Document

variable (b : Builder α)

theorem foldItems_eq_map (ds : List Document) : foldItems b ds = ds.map (fold b) := by
  induction ds with
  | nil => rfl
  | cons d ds ih => rw [foldItems, ih, List.map_cons]

theorem foldMembers_eq_map (ms : List (String × Document)) :
    foldMembers b ms = ms.map fun m => (m.1, m.2.fold b) := by
  induction ms with
  | nil => rfl
  | cons m ms ih => rw [foldMembers, ih, List.map_cons]

/-- Documents are built and then folded construct by construct, if it makes no difference to the
builder whether members with equal keys were written over each other before. -/
theorem maps_fold {b : Builder α} (h : ∀ ms, b.object (Keyed.ofList ms) = b.object ms) :
    builder.Maps (fold b) b where
  null := rfl
  bool _ := rfl
  number _ := rfl
  string _ := rfl
  array ds := congrArg b.array (foldItems_eq_map b ds)
  object ms := by
    have hfold : fold b (builder.object ms) = b.object (foldMembers b (Keyed.ofList ms)) := rfl
    rw [hfold, foldMembers_eq_map, Keyed.map_ofList, h]

/-- Documents that carry along that no object in them has a key twice. -/
def uniqueBuilder : Builder {d : Document // d.Unique} where
  null := ⟨.null, trivial⟩
  bool x := ⟨.bool x, trivial⟩
  number n := ⟨.number n, trivial⟩
  string s := ⟨.string s, trivial⟩
  array ds := ⟨.array (ds.map Subtype.val), by
    refine uniqueItems_iff.2 fun d hd => ?_
    obtain ⟨d, -, rfl⟩ := List.mem_map.1 hd
    exact d.2⟩
  object ms := ⟨.object ((Keyed.ofList ms).map fun m => (m.1, m.2.val)), by
    refine ⟨?_, uniqueMembers_iff.2 fun m hm => ?_⟩
    · rw [Keyed.keys, List.map_map]
      exact Keyed.nodup_keys_ofList ms
    · obtain ⟨m, -, rfl⟩ := List.mem_map.1 hm
      exact m.2.2⟩

theorem maps_val : uniqueBuilder.Maps Subtype.val builder where
  null := rfl
  bool _ := rfl
  number _ := rfl
  string _ := rfl
  array _ := rfl
  object ms := congrArg object (Keyed.map_ofList Subtype.val ms)

/-- In the document of a text no object has a key twice. -/
theorem unique_of_read {convert : Conversion} {text : String} {d : Document}
    (h : read convert builder text = .ok d) : d.Unique := by
  rw [read_map convert maps_val] at h
  cases hread : read convert uniqueBuilder text with
  | error e => exact nomatch (hread ▸ h)
  | ok e =>
    rw [hread] at h
    obtain rfl := Except.ok.inj h
    exact e.2

end Document

/-- Reading a text is folding its document. -/
theorem read_eq_fold (convert : Conversion) {b : Builder α}
    (h : ∀ ms, b.object (Keyed.ofList ms) = b.object ms) (text : String) :
    read convert b text = (read convert Document.builder text).map (Document.fold b) :=
  read_map convert (Document.maps_fold h) text

end DataShape.Json
