import DataShape.Proofs.Descriptor.RoundTrip

/-!
# The first fault of a document

A document that is no descriptor is refused for one place in it. What is due at a place is a
descriptor or the operand of a combinator (`Due`), and `FaultyAt` lists what can be wrong with a
document there. `Reaches` walks from the root to a place and leaves only readable items and
properties behind, on every level.

The error of a refused document names the end of such a walk, and what is wrong there. The other
way around, whoever finds a fault at the end of such a walk has found the error
(`ofDocument_eq_error`) ; so there is one such place and no other. `error_names_first_fault` adds
that the route of the error leads there by keys and indices alone, and what the route is as text.
-/

namespace DataShape

open Json (Document)

namespace Json.Document

/-- The part of a document one step down. -/
def child? : Step → Document → Option Document
  | .key k, .object members => Keyed.get? k members
  | .index i, .array items => items[i]?
  | _, _ => none

/-- The part of a document at the end of a path. -/
def follow? (j : Document) : Path → Option Document
  | [] => some j
  | s :: p => (j.child? s).bind fun x => x.follow? p

end Json.Document

/-- A step as it is appended to the text of a route. -/
def Step.text : Step → String
  | key k => "." ++ k
  | index i => "[" ++ toString i ++ "]"

theorem Path.text_eq (p : Path) : p.text = "$" ++ String.join (p.map Step.text) := by
  have hsteps : ∀ s : Step, s.text.toList = match s with
      | .key k => '.' :: k.toList
      | .index i => '[' :: (Text.digits i ++ [']']) := by
    rintro (k | i) <;> simp [Step.text, Text.digits]
  rw [← String.toList_inj, Path.text, String.toList_ofList, String.toList_append,
    String.toList_join, List.flatMap_map]
  simp only [hsteps]
  rfl

namespace Descriptor

/-! ## Faulty places -/

/-- What a document should hold at a place. -/
inductive Due where
  | descriptor
  /-- What the combinator of this key works on. -/
  | operand (key : String)

/-- The keys of the combinators. -/
def combinators : List String :=
  ["literal", "any", "nullable", "array", "object", "ref"]

/-- What is wrong with a document where this is due. -/
inductive FaultyAt : Due → Document → Fault → Prop where
  | unknownKind {s} (h : ∀ p : Primitive, p.name ≠ s) :
      FaultyAt .descriptor (.string s) (.unknownKind s)
  | notADescriptor {x} (hstring : ∀ s, x ≠ .string s) (hobject : ∀ members, x ≠ .object members) :
      FaultyAt .descriptor x (.notADescriptor x)
  | notOneMember {members} (h : members.length ≠ 1) :
      FaultyAt .descriptor (.object members) .notOneMember
  | unknownCombinator {key x} (h : key ∉ combinators) :
      FaultyAt (.operand key) x (.unknownCombinator key)
  | literal {x} (h : ∀ s, x ≠ .string s) : FaultyAt (.operand "literal") x .literalOperand
  | any {x} (h : ∀ items, x ≠ .array items) : FaultyAt (.operand "any") x .anyOperand
  | object {x} (h : ∀ members, x ≠ .object members) : FaultyAt (.operand "object") x .objectOperand
  | ref {x} (h : ∀ name, x = .string name → Text.isBlank name = true) :
      FaultyAt (.operand "ref") x .refOperand

/-- An unknown kind is a string where a descriptor is due, and nothing else is. -/
theorem FaultyAt.eq_unknownKind_iff {due : Due} {x : Document} {f : Fault} (h : FaultyAt due x f)
    {s : String} :
    f = .unknownKind s ↔ due = .descriptor ∧ x = .string s ∧ ∀ p : Primitive, p.name ≠ s := by
  cases h with
  | unknownKind hname =>
    constructor
    · rintro ⟨⟩
      exact ⟨rfl, rfl, hname⟩
    · rintro ⟨-, ⟨⟩, -⟩
      rfl
  | notADescriptor hstring hobject => simp [hstring]
  | _ => simp

/-- Whether something can be read. -/
def Readable (j : Document) : Prop :=
  ∃ d, ofDocument j = .ok d

/-- In a document where `due` is due, the route leads to a part where `due'` is due. All items of
unions and all properties that stand before the route are descriptors. -/
inductive Reaches : (due : Due) → Document → Path → (due' : Due) → Document → Prop where
  | here {due x} : Reaches due x [] due x
  | operand {key y p due x} (h : Reaches (.operand key) y p due x) :
      Reaches .descriptor (.object [(key, y)]) (.key key :: p) due x
  | inner {key y p due x} (hkey : key = "nullable" ∨ key = "array")
      (h : Reaches .descriptor y p due x) : Reaches (.operand key) y p due x
  | item {before y after p due x} (hbefore : ∀ z ∈ before, Readable z)
      (h : Reaches .descriptor y p due x) :
      Reaches (.operand "any") (.array (before ++ y :: after)) (.index before.length :: p) due x
  | property {before k y after p due x} (hbefore : ∀ e ∈ before, Readable e.2)
      (h : Reaches .descriptor y p due x) :
      Reaches (.operand "object") (.object (before ++ (k, y) :: after)) (.key k :: p) due x

/-- The route can be followed without looking at what is due. -/
theorem Reaches.follow?_eq {due due' : Due} {j x : Document} {p : Path}
    (h : Reaches due j p due' x) (hj : j.Unique) : j.follow? p = some x := by
  induction h with
  | here => rfl
  | operand _ ih => simpa [Document.follow?, Document.child?, Keyed.get?] using ih hj.2.1
  | inner _ _ ih => exact ih hj
  | item _ _ ih =>
    simpa [Document.follow?, Document.child?] using ih (Document.uniqueItems_iff.1 hj _ (by simp))
  | @property before k y after _ _ _ _ _ ih =>
    have hmem : (k, y) ∈ before ++ (k, y) :: after := by simp
    have hget : Keyed.get? k (before ++ (k, y) :: after) = some y :=
      (Keyed.get?_eq_some_iff hj.1).2 hmem
    simpa [Document.follow?, Document.child?, hget] using
      ih (Document.uniqueMembers_iff.1 hj.2 _ hmem)

/-! ## Errors seen from above -/

section Except

variable {α β : Type} {s : Step} {x : Except ReadError α}

theorem under_eq_error {e : ReadError} :
    under s x = .error e ↔ ∃ p, x = .error ⟨p, e.fault⟩ ∧ e.route = s :: p := by
  obtain ⟨route, fault⟩ := e
  cases x with
  | ok a => simp [under, Except.mapError]
  | error e =>
    obtain ⟨p, f⟩ := e
    simp only [under, Except.mapError, Except.error.injEq, ReadError.mk.injEq]
    constructor
    · rintro ⟨rfl, rfl⟩
      exact ⟨p, ⟨rfl, rfl⟩, rfl⟩
    · rintro ⟨_, ⟨rfl, rfl⟩, rfl⟩
      exact ⟨rfl, rfl⟩

theorem map_eq_error {f : α → β} {e : ReadError} : x.map f = .error e ↔ x = .error e := by
  cases x <;> simp [Except.map]

end Except

theorem ofItems_cons_eq_error {y : Document} {js : List Document} {i : Nat} {e : ReadError} :
    ofItems i (y :: js) = .error e ↔
      (∃ p, ofDocument y = .error ⟨p, e.fault⟩ ∧ e.route = .index i :: p) ∨
        Readable y ∧ ofItems (i + 1) js = .error e := by
  rw [ofItems, ← under_eq_error, Readable]
  cases ofDocument y <;> cases ofItems (i + 1) js <;>
    simp [under, Except.mapError, bind, Except.bind, pure, Except.pure]

theorem ofMembers_cons_eq_error {k : String} {y : Document} {ms : List (String × Document)}
    {e : ReadError} : ofMembers ((k, y) :: ms) = .error e ↔
      (∃ p, ofDocument y = .error ⟨p, e.fault⟩ ∧ e.route = .key k :: p) ∨
        Readable y ∧ ofMembers ms = .error e := by
  rw [ofMembers, ← under_eq_error, Readable]
  cases ofDocument y <;> cases ofMembers ms <;>
    simp [under, Except.mapError, bind, Except.bind, pure, Except.pure]

/-- Items are refused for the first one that is no descriptor. -/
theorem ofItems_eq_error {js : List Document} {i : Nat} {e : ReadError} :
    ofItems i js = .error e ↔ ∃ before y after p, js = before ++ y :: after ∧
      (∀ z ∈ before, Readable z) ∧ ofDocument y = .error ⟨p, e.fault⟩ ∧
      e.route = .index (i + before.length) :: p := by
  constructor
  · intro h
    induction js generalizing i with
    | nil => cases h
    | cons y js ih =>
      rcases ofItems_cons_eq_error.1 h with ⟨p, hy, hroute⟩ | ⟨hy, h⟩
      · exact ⟨[], y, js, p, rfl, by simp, hy, hroute⟩
      · obtain ⟨before, z, after, p, rfl, hbefore, hz, hroute⟩ := ih h
        refine ⟨y :: before, z, after, p, rfl, List.forall_mem_cons.2 ⟨hy, hbefore⟩, hz, ?_⟩
        rw [hroute, List.length_cons, Nat.add_right_comm, Nat.add_assoc]
  · rintro ⟨before, y, after, p, rfl, hbefore, hy, hroute⟩
    induction before generalizing i with
    | nil => exact ofItems_cons_eq_error.2 (Or.inl ⟨p, hy, hroute⟩)
    | cons z before ih =>
      obtain ⟨hz, hbefore⟩ := List.forall_mem_cons.1 hbefore
      refine ofItems_cons_eq_error.2 (Or.inr ⟨hz, ih hbefore ?_⟩)
      rw [hroute, List.length_cons, Nat.add_right_comm, Nat.add_assoc]

/-- Properties are refused for the first one that is no descriptor. -/
theorem ofMembers_eq_error {ms : List (String × Document)} {e : ReadError} :
    ofMembers ms = .error e ↔ ∃ before k y after p, ms = before ++ (k, y) :: after ∧
      (∀ m ∈ before, Readable m.2) ∧ ofDocument y = .error ⟨p, e.fault⟩ ∧
      e.route = .key k :: p := by
  constructor
  · intro h
    induction ms with
    | nil => cases h
    | cons m ms ih =>
      obtain ⟨k, y⟩ := m
      rcases ofMembers_cons_eq_error.1 h with ⟨p, hy, hroute⟩ | ⟨hy, h⟩
      · exact ⟨[], k, y, ms, p, rfl, by simp, hy, hroute⟩
      · obtain ⟨before, l, z, after, p, rfl, hbefore, hz, hroute⟩ := ih h
        exact ⟨(k, y) :: before, l, z, after, p, rfl, List.forall_mem_cons.2 ⟨hy, hbefore⟩, hz,
          hroute⟩
  · rintro ⟨before, k, y, after, p, rfl, hbefore, hy, hroute⟩
    induction before with
    | nil => exact ofMembers_cons_eq_error.2 (Or.inl ⟨p, hy, hroute⟩)
    | cons m before ih =>
      obtain ⟨hm, hbefore⟩ := List.forall_mem_cons.1 hbefore
      exact ofMembers_cons_eq_error.2 (Or.inr ⟨hm, ih hbefore⟩)

/-- What the operand of a key is refused for, seen from the operand. -/
inductive RefusedOperand : String → Document → ReadError → Prop where
  | operand {key x f} (h : FaultyAt (.operand key) x f) : RefusedOperand key x ⟨[], f⟩
  | inner {key y e} (hkey : key = "nullable" ∨ key = "array") (h : ofDocument y = .error e) :
      RefusedOperand key y e
  | any {items e} (h : ofItems 0 items = .error e) : RefusedOperand "any" (.array items) e
  | object {members e} (h : ofMembers members = .error e) :
      RefusedOperand "object" (.object members) e

theorem refusedOperand_of_ofDocument {key : String} {y : Document} {e : ReadError}
    (h : ofDocument (.object [(key, y)]) = .error e) :
    ∃ p, RefusedOperand key y ⟨p, e.fault⟩ ∧ e.route = .key key :: p := by
  obtain ⟨route, fault⟩ := e
  unfold ofDocument at h
  rw [under_eq_error] at h
  obtain ⟨p, h, hroute⟩ := h
  refine ⟨p, ?_, hroute⟩
  dsimp only at h ⊢
  split_ifs at h with hliteral hany hnullable harray hobject href
  · subst hliteral
    cases y with
    | string s => cases h
    | _ =>
      cases h
      exact .operand (.literal nofun)
  · subst hany
    cases y with
    | array items => exact .any (map_eq_error.1 h)
    | _ =>
      cases h
      exact .operand (.any nofun)
  · exact .inner (Or.inl hnullable) (map_eq_error.1 h)
  · exact .inner (Or.inr harray) (map_eq_error.1 h)
  · subst hobject
    cases y with
    | object members => exact .object (map_eq_error.1 h)
    | _ =>
      cases h
      exact .operand (.object nofun)
  · subst href
    cases y with
    | string name =>
      dsimp only at h
      split_ifs at h with hblank
      cases h
      refine .operand (.ref fun _ heq => ?_)
      cases heq
      exact hblank
    | _ =>
      cases h
      exact .operand (.ref nofun)
  · cases h
    exact .operand (.unknownCombinator (by simp [combinators, *]))

theorem RefusedOperand.ofDocument_eq {key : String} {y : Document} {e : ReadError}
    (h : RefusedOperand key y e) :
    ofDocument (.object [(key, y)]) = .error ⟨.key key :: e.route, e.fault⟩ := by
  unfold ofDocument
  rw [under_eq_error]
  refine ⟨e.route, ?_, rfl⟩
  cases h with
  | operand h =>
    cases h with
    | unknownCombinator hkey =>
      simp only [combinators, List.mem_cons, List.not_mem_nil, or_false, not_or] at hkey
      simp [hkey, faulty]
    | literal hx => cases y <;> first | exact absurd rfl (hx _) | rfl
    | any hx => cases y <;> first | exact absurd rfl (hx _) | rfl
    | object hx => cases y <;> first | exact absurd rfl (hx _) | rfl
    | ref hx =>
      cases y with
      | string name => simp [hx name rfl, faulty]
      | _ => rfl
  | inner hkey h =>
    rcases hkey with rfl | rfl
    · exact map_eq_error.2 h
    · exact map_eq_error.2 h
  | any h => exact map_eq_error.2 h
  | object h => exact map_eq_error.2 h

/-! ## Errors and places -/

/-- What reading gives is this error, where this is due. -/
def Refused : Due → Document → ReadError → Prop
  | .descriptor, x, e => ofDocument x = .error e
  | .operand key, x, e => RefusedOperand key x e

theorem FaultyAt.refused {due : Due} {x : Document} {f : Fault} (h : FaultyAt due x f) :
    Refused due x ⟨[], f⟩ := by
  cases due with
  | operand key => exact .operand h
  | descriptor =>
    cases h with
    | @unknownKind s h =>
      have hnone : Primitive.ofName? s = none :=
        Option.eq_none_iff_forall_ne_some.2 fun p hp => h p (Primitive.name_of_ofName? hp)
      simp [Refused, ofDocument, hnone, faulty]
    | notADescriptor hstring hobject =>
      cases x with
      | string s => exact absurd rfl (hstring s)
      | object members => exact absurd rfl (hobject members)
      | _ => rfl
    | @notOneMember members h =>
      match members, h with
      | [], _ => rfl
      | _ :: _ :: _, _ => rfl

/-- A fault where the route ends is an error where it starts. -/
theorem Reaches.refused {due due' : Due} {j x : Document} {p : Path} {f : Fault}
    (h : Reaches due j p due' x) (hx : FaultyAt due' x f) : Refused due j ⟨p, f⟩ := by
  induction h with
  | here => exact hx.refused
  | operand _ ih => exact RefusedOperand.ofDocument_eq (ih hx)
  | inner hkey _ ih => exact .inner hkey (ih hx)
  | item hbefore _ ih =>
    exact .any (ofItems_eq_error.2 ⟨_, _, _, _, rfl, hbefore, ih hx, by rw [Nat.zero_add]⟩)
  | property hbefore _ ih =>
    exact .object (ofMembers_eq_error.2 ⟨_, _, _, _, _, rfl, hbefore, ih hx, rfl⟩)

/-- An error leads to a place with a fault. -/
theorem exists_faultyAt : ∀ {j : Document} {e : ReadError}, ofDocument j = .error e →
    ∃ due x, Reaches .descriptor j e.route due x ∧ FaultyAt due x e.fault
  | .object [(key, y)], e, h => by
    obtain ⟨p, hrefused, hroute⟩ := refusedOperand_of_ofDocument h
    rw [hroute]
    cases hrefused with
    | operand hy => exact ⟨_, y, .operand .here, hy⟩
    | inner hkey hy =>
      obtain ⟨due, x, hreaches, hx⟩ := exists_faultyAt hy
      exact ⟨due, x, .operand (.inner hkey hreaches), hx⟩
    | any hitems =>
      obtain ⟨before, z, after, q, rfl, hbefore, hz, hp⟩ := ofItems_eq_error.1 hitems
      obtain rfl : p = .index before.length :: q := Nat.zero_add before.length ▸ hp
      obtain ⟨due, x, hreaches, hx⟩ := exists_faultyAt hz
      exact ⟨due, x, .operand (.item hbefore hreaches), hx⟩
    | object hmembers =>
      obtain ⟨before, k, z, after, q, rfl, hbefore, hz, hp⟩ := ofMembers_eq_error.1 hmembers
      obtain rfl : p = .key k :: q := hp
      obtain ⟨due, x, hreaches, hx⟩ := exists_faultyAt hz
      exact ⟨due, x, .operand (.property hbefore hreaches), hx⟩
  | .string s, _, h => by
    rw [ofDocument] at h
    cases hs : Primitive.ofName? s with
    | some p => exact absurd h (by simp [hs])
    | none =>
      rw [hs] at h
      cases h
      refine ⟨_, _, .here, .unknownKind fun p hp => ?_⟩
      exact Option.some_ne_none p (by rw [← Primitive.ofName?_name, hp, hs])
  | .object [], _, h => by
    cases h
    exact ⟨_, _, .here, .notOneMember nofun⟩
  | .object (_ :: _ :: _), _, h => by
    cases h
    exact ⟨_, _, .here, .notOneMember nofun⟩
  | .null, _, h => by
    cases h
    exact ⟨_, _, .here, .notADescriptor nofun nofun⟩
  | .bool _, _, h => by
    cases h
    exact ⟨_, _, .here, .notADescriptor nofun nofun⟩
  | .number _, _, h => by
    cases h
    exact ⟨_, _, .here, .notADescriptor nofun nofun⟩
  | .array _, _, h => by
    cases h
    exact ⟨_, _, .here, .notADescriptor nofun nofun⟩
termination_by _ e => e.route.length
decreasing_by all_goals
  simp only [hroute, List.length_cons]
  omega

/-- A document is refused for the fault at the end of a way that leaves no fault behind. -/
theorem ofDocument_eq_error {j : Document} {e : ReadError} : ofDocument j = .error e ↔
    ∃ due x, Reaches .descriptor j e.route due x ∧ FaultyAt due x e.fault :=
  ⟨exists_faultyAt, fun ⟨_, _, hreaches, hx⟩ => hreaches.refused hx⟩

/-- The error of a document that is no descriptor names a place that can be reached by keys and
indices from the root. Whatever stands before it, on every level, is a descriptor, and the fault is
one of what is found there ; it is an unknown kind exactly if that is a string where a descriptor is
due and no kind has this name. No other place with a fault can be reached in this way. The route is
written with a point before each key and brackets around each index. -/
theorem error_names_first_fault {j : Document} (hj : j.Unique) {e : ReadError}
    (h : ofDocument j = .error e) :
    e.route.text = "$" ++ String.join (e.route.map Step.text) ∧
      ∃ due x, j.follow? e.route = some x ∧ Reaches .descriptor j e.route due x ∧
        FaultyAt due x e.fault ∧
        (∀ s, e.fault = .unknownKind s ↔
          due = .descriptor ∧ x = .string s ∧ ∀ p : Primitive, p.name ≠ s) ∧
        ∀ e' due' x', Reaches .descriptor j e'.route due' x' → FaultyAt due' x' e'.fault →
          e' = e := by
  obtain ⟨due, x, hreaches, hx⟩ := ofDocument_eq_error.1 h
  refine ⟨e.route.text_eq, due, x, hreaches.follow?_eq hj, hreaches, hx,
    fun s => hx.eq_unknownKind_iff, fun e' due' x' hreaches' hx' => ?_⟩
  have h' : ofDocument j = .error e' := ofDocument_eq_error.2 ⟨due', x', hreaches', hx'⟩
  exact Except.error.inj (h'.symm.trans h)

/-- Several faults at different depths, the first of them in the second property and the deepest
there. -/
theorem nested_error_names_first_fault :
    let deep := Document.object [("array", .object [("any", .array
      [.string "number", .string "text", .object [("ref", .string " ")]])])]
    let j := Document.object [("object", .object
      [("label", .string "string"),
        ("parts", .object [("any", .array [.object [("nullable", .string "null")], deep])]),
        ("size?", .object [("literal", .bool true)]),
        ("", .array [])])]
    let e : ReadError :=
      ⟨[.key "object", .key "parts", .key "any", .index 1, .key "array", .key "any", .index 1],
        .unknownKind "text"⟩
    j.Unique ∧ ofDocument j = .error e ∧ e.route.text = "$.object.parts.any[1].array.any[1]" ∧
      ∃ due, Reaches .descriptor j e.route due (.string "text") := by
  intro deep j e
  have hj : j.Unique := by
    simp [j, deep, Document.Unique, Document.UniqueMembers, Document.UniqueItems]
  have h : ofDocument j = .error e := rfl
  obtain ⟨htext, due, x, -, hreaches, hx, hkind, -⟩ := error_names_first_fault hj h
  obtain ⟨-, rfl, -⟩ := (hkind "text").1 rfl
  exact ⟨hj, h, htext.trans rfl, due, hreaches⟩

end Descriptor

end DataShape
