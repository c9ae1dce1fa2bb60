import DataShape.Descriptor.Text
import DataShape.Proofs.Json.Building
import Mathlib.Tactic.SplitIfs

/-!
# Descriptors and their documents

Reading and writing descriptors are two recursions that know nothing of each other.
They are exact inverses : a document reads to a descriptor if and only if the
descriptor is well formed and is written as this very document
(`read_iff_written`). One half goes over descriptors (`ofDocument_toDocument`), the
other over documents (`written_of_read`) ; a document in which some object has a key
twice is no document. No such document is ever read from a text, so the same holds of
texts without a condition (`read_eq_ok_iff`).
-/

namespace DataShape

open Json (Document)

namespace Primitive

theorem ofName?_name (p : Primitive) : ofName? p.name = some p := by
  cases p <;> rfl

theorem name_of_ofName? {s : String} {p : Primitive} (h : ofName? s = some p) : p.name = s := by
  grind [ofName?, name]

end Primitive

namespace Descriptor

theorem keys_toDocumentProperties : ∀ ps : List (String × Descriptor),
    Keyed.keys (toDocumentProperties ps) = Keyed.keys ps
  | [] => rfl
  | (k, _) :: ps => congrArg (k :: ·) (keys_toDocumentProperties ps)

/-! ## What reading gives -/

section Except

variable {α β : Type} {s : Step} {x : Except ReadError α} {a : α}

theorem under_eq_ok : under s x = .ok a ↔ x = .ok a := by
  cases x <;> simp [under, Except.mapError]

theorem map_eq_ok {f : α → β} {b : β} : x.map f = .ok b ↔ ∃ a, x = .ok a ∧ f a = b := by
  cases x <;> simp [Except.map]

end Except

theorem ofItems_cons_eq_ok {i : Nat} {d : Document} {ds : List Document} {xs : List Descriptor} :
    ofItems i (d :: ds) = .ok xs ↔
      ∃ y ys, ofDocument d = .ok y ∧ ofItems (i + 1) ds = .ok ys ∧ y :: ys = xs := by
  rw [ofItems]
  cases ofDocument d <;> cases ofItems (i + 1) ds <;>
    simp [under, Except.mapError, bind, Except.bind, pure, Except.pure]

theorem ofMembers_cons_eq_ok {k : String} {d : Document} {ms : List (String × Document)}
    {xs : List (String × Descriptor)} :
    ofMembers ((k, d) :: ms) = .ok xs ↔
      ∃ y ys, ofDocument d = .ok y ∧ ofMembers ms = .ok ys ∧ (k, y) :: ys = xs := by
  rw [ofMembers]
  cases ofDocument d <;> cases ofMembers ms <;>
    simp [under, Except.mapError, bind, Except.bind, pure, Except.pure]

/-- What an object with one member is read as, by its key. -/
inductive ReadMember : String → Document → Descriptor → Prop where
  | literal {s} : ReadMember "literal" (.string s) (literal s)
  | any {items ds} (h : ofItems 0 items = .ok ds) : ReadMember "any" (.array items) (any ds)
  | nullable {operand d} (h : ofDocument operand = .ok d) :
    ReadMember "nullable" operand (nullable d)
  | array {operand d} (h : ofDocument operand = .ok d) : ReadMember "array" operand (array d)
  | object {members ps} (h : ofMembers members = .ok ps) :
      ReadMember "object" (.object members) (object ps)
  | ref {name} (h : Text.isBlank name = false) : ReadMember "ref" (.string name) (ref name)

theorem readMember_of_ofDocument {key : String} {operand : Document} {d : Descriptor}
    (h : ofDocument (.object [(key, operand)]) = .ok d) : ReadMember key operand d := by
  unfold ofDocument at h
  rw [under_eq_ok] at h
  split_ifs at h with hliteral hany hnullable harray hobject href
  · subst hliteral
    cases operand with
    | string s =>
      cases h
      exact .literal
    | _ => exact nomatch h
  · subst hany
    cases operand with
    | array items =>
      obtain ⟨ds, hds, rfl⟩ := map_eq_ok.1 h
      exact .any hds
    | _ => exact nomatch h
  · subst hnullable
    obtain ⟨d, hd, rfl⟩ := map_eq_ok.1 h
    exact .nullable hd
  · subst harray
    obtain ⟨d, hd, rfl⟩ := map_eq_ok.1 h
    exact .array hd
  · subst hobject
    cases operand with
    | object members =>
      obtain ⟨ps, hps, rfl⟩ := map_eq_ok.1 h
      exact .object hps
    | _ => exact nomatch h
  · subst href
    cases operand with
    | string name =>
      dsimp only at h
      split_ifs at h with hblank
      · exact nomatch h
      · cases h
        exact .ref (eq_false_of_ne_true hblank)
    | _ => exact nomatch h
  · exact nomatch h

/-! ## Written descriptors are read -/

mutual
/-- What is written for a well-formed descriptor is read as the descriptor. -/
theorem ofDocument_toDocument : ∀ {d : Descriptor}, d.WellFormed → ofDocument d.toDocument = .ok d
  | kind p, _ => by simp [toDocument, ofDocument, p.ofName?_name]
  | literal s, _ => by simp [toDocument, ofDocument, under_eq_ok]
  | any ds, h => by
    have hds := ofItems_toDocumentItems h 0
    simp [toDocument, ofDocument, under_eq_ok, map_eq_ok, hds]
  | nullable d, h => by
    have hd := ofDocument_toDocument (d := d) h
    simp [toDocument, ofDocument, under_eq_ok, map_eq_ok, hd]
  | array d, h => by
    have hd := ofDocument_toDocument (d := d) h
    simp [toDocument, ofDocument, under_eq_ok, map_eq_ok, hd]
  | object ps, h => by
    have hps := ofMembers_toDocumentProperties h.2
    have hkeys : (Keyed.keys (toDocumentProperties ps)).Nodup := keys_toDocumentProperties ps ▸ h.1
    simp [toDocument, ofDocument, under_eq_ok, map_eq_ok, Keyed.ofList_of_nodup hkeys, hps]
  | ref name, h => by
    have hname : Text.isBlank name = false := h
    simp [toDocument, ofDocument, under_eq_ok, hname]

theorem ofItems_toDocumentItems : ∀ {ds : List Descriptor}, WellFormedItems ds →
    ∀ i, ofItems i (toDocumentItems ds) = .ok ds
  | [], _, _ => rfl
  | d :: ds, h, i => ofItems_cons_eq_ok.2
    ⟨d, ds, ofDocument_toDocument h.1, ofItems_toDocumentItems h.2 (i + 1), rfl⟩

theorem ofMembers_toDocumentProperties : ∀ {ps : List (String × Descriptor)},
    WellFormedProperties ps → ofMembers (toDocumentProperties ps) = .ok ps
  | [], _ => rfl
  | (_, d) :: ps, h => ofMembers_cons_eq_ok.2
    ⟨d, ps, ofDocument_toDocument h.1, ofMembers_toDocumentProperties h.2, rfl⟩
end

/-! ## Read documents are written again -/

mutual
/-- Whatever is read is well formed and is written as the document it was read from. -/
theorem written_of_read : ∀ {j : Document} {d : Descriptor}, j.Unique → ofDocument j = .ok d →
    d.WellFormed ∧ d.toDocument = j
  | .string s, d, _, h => by
    rw [ofDocument] at h
    cases hp : Primitive.ofName? s with
    | none => exact absurd h (by simp [hp, faulty])
    | some p =>
      rw [hp] at h
      cases h
      exact ⟨trivial, congrArg Document.string (Primitive.name_of_ofName? hp)⟩
  | .object [(key, operand)], d, hj, h => by
    obtain ⟨-, hoperand, -⟩ := hj
    cases readMember_of_ofDocument h with
    | literal => exact ⟨trivial, rfl⟩
    | any hread =>
      obtain ⟨hwell, hwritten⟩ := writtenItems_of_read hoperand hread
      exact ⟨hwell, by rw [toDocument, hwritten]⟩
    | nullable hread =>
      obtain ⟨hwell, hwritten⟩ := written_of_read hoperand hread
      exact ⟨hwell, by rw [toDocument, hwritten]⟩
    | array hread =>
      obtain ⟨hwell, hwritten⟩ := written_of_read hoperand hread
      exact ⟨hwell, by rw [toDocument, hwritten]⟩
    | object hread =>
      obtain ⟨hwell, hwritten⟩ := writtenMembers_of_read hoperand.2 hread
      have hkeys := hwritten ▸ hoperand.1
      refine ⟨⟨keys_toDocumentProperties _ ▸ hkeys, hwell⟩, ?_⟩
      rw [toDocument, Keyed.ofList_of_nodup hkeys, hwritten]
    | ref hname => exact ⟨hname, rfl⟩
  | .object [], _, _, h => nomatch h
  | .object (_ :: _ :: _), _, _, h => nomatch h
  | .null, _, _, h => nomatch h
  | .bool _, _, _, h => nomatch h
  | .number _, _, _, h => nomatch h
  | .array _, _, _, h => nomatch h

theorem writtenItems_of_read : ∀ {js : List Document} {ds : List Descriptor} {i : Nat},
    Document.UniqueItems js → ofItems i js = .ok ds → WellFormedItems ds ∧ toDocumentItems ds = js
  | [], _, _, _, h => by
    cases h
    exact ⟨trivial, rfl⟩
  | j :: js, _, _, hj, h => by
    obtain ⟨d, ds, hd, hds, rfl⟩ := ofItems_cons_eq_ok.1 h
    obtain ⟨hwell, hwritten⟩ := written_of_read hj.1 hd
    obtain ⟨hwells, hwrittens⟩ := writtenItems_of_read hj.2 hds
    exact ⟨⟨hwell, hwells⟩, by rw [toDocumentItems, hwritten, hwrittens]⟩

theorem writtenMembers_of_read : ∀ {ms : List (String × Document)}
    {ps : List (String × Descriptor)}, Document.UniqueMembers ms → ofMembers ms = .ok ps →
      WellFormedProperties ps ∧ toDocumentProperties ps = ms
  | [], _, _, h => by
    cases h
    exact ⟨trivial, rfl⟩
  | (k, j) :: ms, _, hj, h => by
    obtain ⟨d, ps, hd, hps, rfl⟩ := ofMembers_cons_eq_ok.1 h
    obtain ⟨hwell, hwritten⟩ := written_of_read hj.1 hd
    obtain ⟨hwells, hwrittens⟩ := writtenMembers_of_read hj.2 hps
    exact ⟨⟨hwell, hwells⟩, by rw [toDocumentProperties, hwritten, hwrittens]⟩
end

theorem mapError_eq_ok {ε ε' α : Type} {f : ε → ε'} {x : Except ε α} {a : α} :
    x.mapError f = .ok a ↔ x = .ok a := by
  cases x <;> simp [Except.mapError]

/-- A text is a descriptor exactly if it is the text of a document that a well-formed descriptor is
written as. -/
theorem read_eq_ok_iff {convert : Json.Conversion} {text : String} {d : Descriptor} :
    read convert text = .ok d ↔
      d.WellFormed ∧ Json.read convert Document.builder text = .ok d.toDocument := by
  unfold read
  split
  · rename_i hread
    simp [hread]
  · rename_i j hread
    rw [mapError_eq_ok, hread]
    constructor
    · intro h
      obtain ⟨hwell, hwritten⟩ := written_of_read (Document.unique_of_read hread) h
      exact ⟨hwell, congrArg _ hwritten.symm⟩
    · rintro ⟨hwell, heq⟩
      obtain rfl := Except.ok.inj heq
      exact ofDocument_toDocument hwell

/-- Reading gives a descriptor exactly if the descriptor is well formed and is written as the
document that was read, the order of members included. -/
theorem read_iff_written {j : Document} (hj : j.Unique) (d : Descriptor) :
    ofDocument j = .ok d ↔ d.WellFormed ∧ d.toDocument = j := by
  refine ⟨written_of_read hj, ?_⟩
  rintro ⟨hwell, rfl⟩
  exact ofDocument_toDocument hwell

/-- Two declared keys that differ in a mark only, the second a name that a combinator has too. -/
theorem node_read_iff_written :
    let j := Document.object [("object", .object [("any?", .object [("ref", .string "node")]),
      ("any", .object [("any", .array [.string "null", .object [("literal", .string "null")]])])])]
    let d := object [("any?", ref "node"), ("any", any [kind .null, literal "null"])]
    j.Unique ∧ (d.WellFormed ∧ d.toDocument = j) ∧ ofDocument j = .ok d := by
  intro j d
  have hj : j.Unique := by
    simp [j, Document.Unique, Document.UniqueMembers, Document.UniqueItems]
  have hd : d.WellFormed := by
    have hnode : Text.isBlank "node" = false := by decide
    simp [d, WellFormed, WellFormedProperties, WellFormedItems, hnode]
  exact ⟨hj, ⟨hd, rfl⟩, (read_iff_written hj d).2 ⟨hd, rfl⟩⟩

end Descriptor

end DataShape
