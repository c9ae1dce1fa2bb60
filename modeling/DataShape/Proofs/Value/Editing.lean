import DataShape.Proofs.Value.Text
import DataShape.Value.Workspace

/-!
# Edits through paths

Reading and editing go down a value in different ways, but an edit goes on with a child exactly if
there is one to be read (`Value.childToEdit_eq_ok`). So it reaches the end of a path if every step
leads somewhere (`Value.reach?`), and otherwise fails at the first step that does not
(`Value.edit_eq_error_iff`). What an edit makes of a value is what was there, but for the place at
the end of the path (`Value.Rewritten`) : it is read along paths that go through that place, and
along paths that part from the way to it nothing changes. One step of the walk is
`Value.Rewritten.step`.

A change of a container shows in one of its children only (`Change.place`), which is where it leaves
what is put in (`Value.follow_operand`). In a workspace an action spares a place if it writes under
another name or beside it (`Workspace.Action.Spares`), and the place reads the same afterwards
(`Workspace.read?_act`).
-/

namespace DataShape

/-- The paths take different steps somewhere. -/
def Path.Part (p q : Path) : Prop :=
  ∃ pre s t post post', s ≠ t ∧ p = pre ++ s :: post ∧ q = pre ++ t :: post'

theorem Path.part_cons {s t : Step} {p q : Path} :
    Path.Part (s :: p) (t :: q) ↔ s ≠ t ∨ s = t ∧ Path.Part p q := by
  constructor
  · rintro ⟨_ | ⟨a, pre⟩, s', t', post, post', hne, hp, hq⟩
    · obtain ⟨rfl, rfl⟩ := List.cons.inj hp
      obtain ⟨rfl, rfl⟩ := List.cons.inj hq
      exact Or.inl hne
    · obtain ⟨rfl, rfl⟩ := List.cons.inj hp
      obtain ⟨rfl, rfl⟩ := List.cons.inj hq
      exact Or.inr ⟨rfl, pre, s', t', post, post', hne, rfl, rfl⟩
  · rintro (hne | ⟨rfl, pre, s', t', post, post', hne, rfl, rfl⟩)
    · exact ⟨[], s, t, p, q, hne, rfl, rfl⟩
    · exact ⟨s :: pre, s', t', post, post', hne, rfl, rfl⟩

theorem Path.nil_ne_split {pre post : Path} {s : Step} : [] ≠ pre ++ s :: post :=
  (List.append_ne_nil_of_right_ne_nil pre (List.cons_ne_nil s post)).symm

theorem Path.not_part_nil_left {q : Path} : ¬ Path.Part [] q :=
  fun ⟨_, _, _, _, _, _, heq, _⟩ => nil_ne_split heq

theorem Path.not_part_nil_right {p : Path} : ¬ Path.Part p [] :=
  fun ⟨_, _, _, _, _, _, _, heq⟩ => nil_ne_split heq

/-- A step of a path is the first one or a step of the rest. -/
theorem Path.exists_split_cons {P : Path → Step → Prop} {s : Step} {p : Path} :
    (∃ pre t post, s :: p = pre ++ t :: post ∧ P pre t) ↔
      P [] s ∨ ∃ pre t post, p = pre ++ t :: post ∧ P (s :: pre) t := by
  constructor
  · rintro ⟨pre, t, post, heq, h⟩
    rcases List.cons_eq_append_iff.1 heq with ⟨rfl, hfirst⟩ | ⟨pre, rfl, rfl⟩
    · obtain ⟨rfl, -⟩ := List.cons.inj hfirst
      exact Or.inl h
    · exact Or.inr ⟨pre, t, post, rfl, h⟩
  · rintro (h | ⟨pre, t, post, rfl, h⟩)
    · exact ⟨[], s, p, rfl, h⟩
    · exact ⟨s :: pre, t, post, rfl, h⟩

theorem Path.forall_split_cons {P : Path → Step → Prop} {s : Step} {p : Path} :
    (∀ pre t post, s :: p = pre ++ t :: post → P pre t) ↔
      P [] s ∧ ∀ pre t post, p = pre ++ t :: post → P (s :: pre) t := by
  rw [← not_iff_not]
  simpa only [not_forall, not_and_or, exists_prop] using
    exists_split_cons (P := fun pre t => ¬ P pre t)

namespace Value

variable {α : Type} {f : Edit α} {v v' u x : Value} {s : Step} {p : Path} {r : α} {e : EditError}

/-! ## The walk -/

/-- The value at the end of a path, if every step leads somewhere. -/
def reach? (v : Value) (p : Path) : Option Value :=
  p.foldlM (fun v s => v.child? s) v

theorem reach?_nil (v : Value) : v.reach? [] = some v :=
  rfl

theorem reach?_cons (v : Value) (s : Step) (p : Path) :
    v.reach? (s :: p) = (v.child? s).bind fun u => u.reach? p :=
  rfl

theorem follow_append (v : Value) (p q : Path) : v.follow (p ++ q) = (v.follow p).follow q :=
  List.foldl_append

/-- What is reached is what is read. -/
theorem follow_of_reach? (h : v.reach? p = some u) : v.follow p = u := by
  induction p generalizing v with
  | nil => exact Option.some.inj h
  | cons s p ih =>
    rw [reach?_cons] at h
    obtain ⟨w, hw, hu⟩ := Option.bind_eq_some_iff.1 h
    rw [follow_cons, child, hw]
    exact ih hu

/-- The end of a path is reached if all its steps lead to a child of what is read up to them. -/
theorem exists_reach?_iff : (∃ u, v.reach? p = some u) ↔
    ∀ pre s post, p = pre ++ s :: post → ∃ u, (v.follow pre).child? s = some u := by
  induction p generalizing v with
  | nil => exact iff_of_true ⟨v, rfl⟩ fun _ _ _ heq => absurd heq Path.nil_ne_split
  | cons s p ih =>
    rw [Path.forall_split_cons (P := fun pre t => ∃ u, (v.follow pre).child? t = some u)]
    simp only [reach?_cons, follow_nil, follow_cons, child]
    cases v.child? s with
    | none => simp
    | some w => simpa using ih

theorem childToEdit_eq_ok : childToEdit s v = .ok u ↔ v.child? s = some u := by
  cases s with
  | key k =>
    cases v with
    | object fields => cases h : Keyed.get? k fields <;> simp [childToEdit, child?, field?, h]
    | _ => simp [childToEdit, child?, field?]
  | index i =>
    cases v with
    | array items => cases h : items[i]? <;> simp [childToEdit, child?, h]
    | _ => simp [childToEdit, child?]

theorem eq_array_of_asArray {items : List Value} (h : v.asArray = .ok items) :
    v = array items := by
  cases v with
  | array items' => exact congrArg _ (Except.ok.inj h)
  | _ => exact nomatch h

theorem eq_object_of_asObject {fields : List (String × Value)} (h : v.asObject = .ok fields) :
    v = object fields := by
  cases v with
  | object fields' => exact congrArg _ (Except.ok.inj h)
  | _ => exact nomatch h

theorem childToEdit_index_of_error {i : Nat} {e : AccessError} (h : v.asArray = .error e) :
    childToEdit (.index i) v = .error (.access e) := by
  cases v with
  | array items => exact nomatch h
  | _ =>
    obtain rfl := Except.error.inj h
    rfl

theorem childToEdit_key_of_error {k : String} {e : AccessError} (h : v.asObject = .error e) :
    childToEdit (.key k) v = .error (.access e) := by
  cases v with
  | object fields => exact nomatch h
  | _ =>
    obtain rfl := Except.error.inj h
    rfl

/-- A child that is there is written where it was, and the others stay. -/
theorem child?_setChild (h : v.child? s = some u) (t : Step) :
    (setChild s x v).child? t = if s = t then some x else v.child? t := by
  cases s with
  | key k =>
    cases v with
    | object fields =>
      have hthere : (Keyed.get? k fields).isSome = true := Option.isSome_of_eq_some h
      rw [setChild, if_pos hthere]
      cases t with
      | key l => simp only [child?, field?, Keyed.get?_put, Step.key.injEq]
      | index j => rfl
    | _ => exact nomatch h
  | index i =>
    cases v with
    | array items =>
      obtain ⟨hi, -⟩ := List.getElem?_eq_some_iff.1 h
      cases t with
      | key l => rfl
      | index j =>
        simp only [setChild, child?, List.getElem?_set, Step.index.injEq, hi, if_true]
    | _ => exact nomatch h

/-- What is written last stands. -/
theorem setChild_setChild (h : v.child? s = some u) (w : Value) :
    setChild s w (setChild s x v) = setChild s w v := by
  cases s with
  | key k =>
    cases v with
    | object fields =>
      have hthere : (Keyed.get? k fields).isSome = true := Option.isSome_of_eq_some h
      have hwritten : Keyed.get? k (Keyed.put k x fields) = some x := by
        rw [Keyed.get?_put, if_pos rfl]
      simp only [setChild, hthere, hwritten, Option.isSome_some, if_true, Keyed.put_put]
    | _ => cases h
  | index i =>
    cases v with
    | array items => exact congrArg array (List.set_set ..)
    | _ => cases h

/-- To write the child that is there changes nothing. -/
theorem setChild_of_child? (h : v.child? s = some u) : setChild s u v = v := by
  cases s with
  | key k =>
    cases v with
    | object fields =>
      have hthere : (Keyed.get? k fields).isSome = true := Option.isSome_of_eq_some h
      obtain ⟨pre, post, rfl, hput⟩ := Keyed.exists_split_of_get? h
      rw [setChild, if_pos hthere, hput]
    | _ => exact nomatch h
  | index i =>
    cases v with
    | array items =>
      obtain ⟨hi, rfl⟩ := List.getElem?_eq_some_iff.1 h
      exact congrArg array (List.set_getElem_self hi)
    | _ => exact nomatch h

/-! ## What an edit leaves -/

/-- A value that was changed at the end of a path, where there is another one now. -/
structure Rewritten (v : Value) (p : Path) (x v' : Value) : Prop where
  /-- The place and all that is inside are those of the other value. -/
  within : ∀ q, v'.follow (p ++ q) = x.follow q
  /-- Any other place is as it was. -/
  beside : ∀ q, p.Part q → v'.follow q = v.follow q

theorem Rewritten.step {u' : Value} (h : v.child? s = some u) (hu : u.Rewritten p x u') :
    v.Rewritten (s :: p) x (setChild s u' v) := by
  have hchild : ∀ t, (setChild s u' v).child t = if s = t then u' else v.child t := fun t => by
    rw [child, child?_setChild h]
    split_ifs <;> rfl
  have hthere : v.child s = u := by rw [child, h, Option.getD_some]
  refine ⟨fun q => ?_, fun q hpart => ?_⟩
  · rw [List.cons_append, follow_cons, hchild, if_pos rfl, hu.within]
  · cases q with
    | nil => exact absurd hpart Path.not_part_nil_right
    | cons t q =>
      rw [follow_cons, follow_cons, hchild]
      rcases Path.part_cons.1 hpart with hne | ⟨rfl, hrest⟩
      · rw [if_neg hne]
      · rw [if_pos rfl, hthere, hu.beside q hrest]

/-- Where there is a child, it is edited and written back. -/
theorem edit_cons_of_child? (h : v.child? s = some u) :
    edit f (s :: p) v = (edit f p u).map fun done => (setChild s done.1 v, done.2) := by
  simp only [edit, childToEdit_eq_ok.2 h, bind, Except.bind]
  cases edit f p u <;> rfl

theorem edit_cons_of_error (h : childToEdit s v = .error e) : edit f (s :: p) v = .error e := by
  rw [edit, h]
  rfl

theorem edit_cons_eq_ok (h : edit f (s :: p) v = .ok (v', r)) :
    ∃ u u', v.child? s = some u ∧ edit f p u = .ok (u', r) ∧ v' = setChild s u' v := by
  cases hchild : childToEdit s v with
  | error e => exact nomatch (edit_cons_of_error hchild).symm.trans h
  | ok u =>
    have hu := childToEdit_eq_ok.1 hchild
    rw [edit_cons_of_child? hu] at h
    cases hedit : edit f p u with
    | error e =>
      rw [hedit] at h
      exact nomatch h
    | ok done =>
      rw [hedit] at h
      obtain ⟨rfl, rfl⟩ := Prod.mk.inj (Except.ok.inj h)
      exact ⟨u, done.1, hu, hedit, rfl⟩

/-- An edit that succeeds has changed the value at the end of the path, and that place only. -/
theorem rewritten_of_edit (h : edit f p v = .ok (v', r)) :
    ∃ u x, v.reach? p = some u ∧ f u = .ok (x, r) ∧ v.Rewritten p x v' := by
  induction p generalizing v v' with
  | nil => exact ⟨v, v', rfl, h, fun _ => rfl, fun _ hpart => absurd hpart Path.not_part_nil_left⟩
  | cons s p ih =>
    obtain ⟨w, w', hw, hedit, rfl⟩ := edit_cons_eq_ok h
    obtain ⟨u, x, hu, hf, hrewritten⟩ := ih hedit
    refine ⟨u, x, ?_, hf, hrewritten.step hw⟩
    rw [reach?_cons, hw]
    exact hu

theorem child?_eq_none_of_error (h : childToEdit s v = .error e) : v.child? s = none :=
  Option.eq_none_iff_forall_ne_some.2 fun _ hu => nomatch h.symm.trans (childToEdit_eq_ok.2 hu)

theorem edit_cons_eq_error_iff : edit f (s :: p) v = .error e ↔
    childToEdit s v = .error e ∨ ∃ u, v.child? s = some u ∧ edit f p u = .error e := by
  cases hchild : childToEdit s v with
  | error e' =>
    simp [edit_cons_of_error hchild, child?_eq_none_of_error hchild]
  | ok w =>
    rw [edit_cons_of_child? (childToEdit_eq_ok.1 hchild), childToEdit_eq_ok.1 hchild]
    cases hedit : edit f p w <;> simp [Except.map, hedit]

/-- An edit fails at the first step that leads nowhere, or at the end of the path. -/
theorem edit_eq_error_iff : edit f p v = .error e ↔
    (∃ pre s post u, p = pre ++ s :: post ∧ v.reach? pre = some u ∧ childToEdit s u = .error e) ∨
      ∃ u, v.reach? p = some u ∧ f u = .error e := by
  simp only [exists_and_left]
  induction p generalizing v with
  | nil => simp [edit, reach?_nil]
  | cons s p ih =>
    rw [edit_cons_eq_error_iff, Path.exists_split_cons
      (P := fun pre t => ∃ u, v.reach? pre = some u ∧ childToEdit t u = .error e)]
    cases hchild : v.child? s with
    | none => simp [reach?_nil, reach?_cons, hchild]
    | some w => simp [reach?_nil, reach?_cons, hchild, ih, or_assoc]

/-- A value is replaced wherever every step of the way leads somewhere. -/
theorem edit_replace_of_reach? (h : v.reach? p = some u) (x : Value) :
    ∃ v', edit (Edit.replace x) p v = .ok (v', some u) := by
  cases hedit : edit (Edit.replace x) p v with
  | ok done =>
    obtain ⟨v', r⟩ := done
    obtain ⟨w, y, hw, hf, -⟩ := rewritten_of_edit hedit
    obtain rfl := Option.some.inj (h.symm.trans hw)
    obtain ⟨⟩ := hf
    exact ⟨v', rfl⟩
  | error e =>
    rcases edit_eq_error_iff.1 hedit with ⟨pre, s, post, w, rfl, hw, he⟩ | ⟨w, -, hf⟩
    · have happend : v.reach? (pre ++ s :: post) = (v.reach? pre).bind fun w =>
          (w.child? s).bind fun w => w.reach? post := List.foldlM_append
      rw [happend, hw, Option.bind_some] at h
      obtain ⟨w', hw', -⟩ := Option.bind_eq_some_iff.1 h
      exact nomatch he.symm.trans (childToEdit_eq_ok.2 hw')
    · exact nomatch hf

theorem edit_replace_eq_ok_iff {r : Option Value} :
    (∃ v', edit (Edit.replace x) p v = .ok (v', r)) ↔ ∃ u, v.reach? p = some u ∧ r = some u := by
  constructor
  · rintro ⟨v', hedit⟩
    obtain ⟨u, y, hu, hf, -⟩ := rewritten_of_edit hedit
    obtain ⟨⟩ := hf
    exact ⟨u, hu, rfl⟩
  · rintro ⟨u, hu, rfl⟩
    exact edit_replace_of_reach? hu x

theorem edit_replace_eq_error_iff : edit (Edit.replace x) p v = .error e ↔
    ∃ pre s post u, p = pre ++ s :: post ∧ v.reach? pre = some u ∧ childToEdit s u = .error e :=
  edit_eq_error_iff.trans (or_iff_left fun ⟨_, _, hf⟩ => nomatch hf)

end Value

/-! ## Places of changes -/

theorem Path.part_append {p p' q : Path} (h : Path.Part (p ++ p') q) :
    p.Part q ∨ ∃ r, q = p ++ r ∧ p'.Part r := by
  induction p generalizing q with
  | nil => exact Or.inr ⟨q, rfl, h⟩
  | cons s p ih =>
    cases q with
    | nil => exact absurd h Path.not_part_nil_right
    | cons t q =>
      rcases Path.part_cons.1 h with hne | ⟨rfl, hrest⟩
      · exact Or.inl (Path.part_cons.2 (Or.inl hne))
      · rcases ih hrest with hpart | ⟨r, rfl, hpart⟩
        · exact Or.inl (Path.part_cons.2 (Or.inr ⟨rfl, hpart⟩))
        · exact Or.inr ⟨r, rfl, hpart⟩

/-- How many items an array has. -/
def Value.itemCount : Value → Nat
  | array items => items.length
  | _ => 0

/-- Where a change of a value shows, which is where it leaves what is put in. -/
def Change.place {α : Type} (u : Value) : Change α → Path
  | replace _ => []
  | push _ => [.index u.itemCount]
  | pop => [.index (u.itemCount - 1)]
  | insert k _ | remove k => [.key k]

namespace Value

variable {c : Change Value} {v v' u x w : Value} {s : Step} {p q : Path} {r : Option Value}

theorem onArray_eq_ok {α : Type} {f : List Value → List Value × α} {r : α}
    (h : Edit.onArray f u = .ok (x, r)) :
    ∃ items, u = array items ∧ x = array (f items).1 := by
  cases u with
  | array items => exact ⟨items, rfl, (congrArg Prod.fst (Except.ok.inj h)).symm⟩
  | _ => exact nomatch h

theorem onObject_eq_ok {α : Type} {f : List (String × Value) → List (String × Value) × α} {r : α}
    (h : Edit.onObject f u = .ok (x, r)) :
    ∃ fields, u = object fields ∧ x = object (f fields).1 := by
  cases u with
  | object fields => exact ⟨fields, rfl, (congrArg Prod.fst (Except.ok.inj h)).symm⟩
  | _ => exact nomatch h

/-- Beside its place a change changes no child. -/
theorem child_of_change (h : c.edit u = .ok (x, r)) (hs : c.place u = [s]) {t : Step}
    (hne : s ≠ t) : x.child t = u.child t := by
  cases c with
  | replace w => exact nomatch hs
  | push w =>
    obtain ⟨items, rfl, rfl⟩ := onArray_eq_ok (f := fun items => (items ++ [w], none)) h
    obtain rfl := List.singleton_inj.1 hs
    cases t with
    | key k => rfl
    | index i =>
      have hi : items.length ≠ i := fun heq => hne (congrArg Step.index heq)
      simp only [child, child?, List.getElem?_append, List.getElem?_singleton]
      split
      · rfl
      · rw [if_neg (by omega), List.getElem?_eq_none (by omega)]
  | pop =>
    obtain ⟨items, rfl, rfl⟩ := onArray_eq_ok (f := fun items => (items.dropLast, items.getLast?)) h
    obtain rfl := List.singleton_inj.1 hs
    cases t with
    | key k => rfl
    | index i =>
      have hi : items.length - 1 ≠ i := fun heq => hne (congrArg Step.index heq)
      simp only [child, child?, List.getElem?_dropLast]
      split
      · rfl
      · rw [List.getElem?_eq_none (by omega)]
  | insert k w =>
    obtain ⟨fields, rfl, rfl⟩ :=
      onObject_eq_ok (f := fun fields => (Fields.insert k w fields, Keyed.get? k fields)) h
    obtain rfl := List.singleton_inj.1 hs
    cases t with
    | key l =>
      have hl : k ≠ l := fun heq => hne (congrArg Step.key heq)
      simp only [child, child?, field?, Fields.get?_insert, if_neg hl]
    | index i => rfl
  | remove k =>
    obtain ⟨fields, rfl, rfl⟩ :=
      onObject_eq_ok (f := fun fields => (Keyed.erase k fields, Keyed.get? k fields)) h
    obtain rfl := List.singleton_inj.1 hs
    cases t with
    | key l =>
      have hl : k ≠ l := fun heq => hne (congrArg Step.key heq)
      simp only [child, child?, field?, Keyed.get?_erase, if_neg hl]
    | index i => rfl

theorem follow_of_change (h : c.edit u = .ok (x, r)) (hpart : (c.place u).Part q) :
    x.follow q = u.follow q := by
  have hplace : c.place u = [] ∨ ∃ s, c.place u = [s] := by
    cases c with
    | replace w => exact Or.inl rfl
    | _ => exact Or.inr ⟨_, rfl⟩
  rcases hplace with hnil | ⟨s, hs⟩
  · exact absurd (hnil ▸ hpart) Path.not_part_nil_left
  · rw [hs] at hpart
    cases q with
    | nil => exact absurd hpart Path.not_part_nil_right
    | cons t q =>
      rcases Path.part_cons.1 hpart with hne | ⟨-, hrest⟩
      · rw [follow_cons, follow_cons, child_of_change h hs hne]
      · exact absurd hrest Path.not_part_nil_left

/-- What is put in stands at the place of the change. -/
theorem follow_operand (h : c.edit u = .ok (x, r)) (hw : c.operands = [w]) (q : Path) :
    x.follow (c.place u ++ q) = w.follow q := by
  cases c with
  | replace w' =>
    obtain rfl := List.singleton_inj.1 hw
    obtain ⟨⟩ := h
    rfl
  | push w' =>
    obtain rfl := List.singleton_inj.1 hw
    obtain ⟨items, rfl, rfl⟩ := onArray_eq_ok (f := fun items => (items ++ [w'], none)) h
    rw [Change.place, List.singleton_append, follow_cons, child]
    simp [child?, itemCount]
  | insert k w' =>
    obtain rfl := List.singleton_inj.1 hw
    obtain ⟨fields, rfl, rfl⟩ :=
      onObject_eq_ok (f := fun fields => (Fields.insert k w' fields, Keyed.get? k fields)) h
    rw [Change.place, List.singleton_append, follow_cons, child]
    simp [child?, field?, Fields.get?_insert]
  | pop | remove k => exact nomatch hw

/-- A value that was changed at the end of a path reads as before beside the place of the change. -/
theorem follow_of_edit (h : Value.edit c.edit p v = .ok (v', r))
    (hpart : (p ++ c.place (v.follow p)).Part q) : v'.follow q = v.follow q := by
  obtain ⟨u, x, hu, hchange, hrewritten⟩ := rewritten_of_edit h
  rw [follow_of_reach? hu] at hpart
  rcases Path.part_append hpart with hbeside | ⟨q, rfl, hwithin⟩
  · exact hrewritten.beside q hbeside
  · rw [hrewritten.within, follow_append, follow_of_reach? hu, follow_of_change hchange hwithin]

end Value

/-! ## Actions on named values -/

namespace Workspace

open Value (EditError childToEdit)

variable {w w' : Workspace} {name target : String} {p q : Path} {c : Change Operand}
  {y : Change Value} {v v' u : Value} {x : Operand} {r : Option Value} {e : EditError}

/-- The action writes under another name, or its place parts from the path. -/
def Action.Spares (name : String) (q : Path) (read? : String → Path → Option Value) : Action → Prop
  | .set target _ => target ≠ name
  | .edit target p c => target = name → ∀ u, read? target p = some u → (p ++ c.place u).Part q

theorem get?_set (w : Workspace) (name other : String) (v : Value) :
    (w.set name v).get? other = if name = other then some v else w.get? other :=
  Fields.get?_insert name other v w.slots

theorem read?_set_self (w : Workspace) (name : String) (v : Value) (q : Path) :
    (w.set name v).read? name q = some (v.follow q) := by
  rw [read?, get?_set, if_pos rfl, Option.map_some]

theorem read?_set_of_ne (w : Workspace) (v : Value) (q : Path) (h : target ≠ name) :
    (w.set target v).read? name q = w.read? name q := by
  rw [read?, get?_set, if_neg h, read?]

/-- An edit that succeeds has found a value under the name and what is put in, and has left what the
edit makes of the value. -/
theorem act_edit_eq_ok (h : (w.act (.edit name p c)).1 = .ok r) :
    ∃ v y v', w.get? name = some v ∧ w.prepare c = .ok y ∧
      Value.edit y.edit p v = .ok (v', r) ∧ (w.act (.edit name p c)).2 = w.set name v' := by
  simp only [act, get] at h ⊢
  cases hv : w.get? name with
  | none =>
    rw [hv] at h
    exact nomatch h
  | some v =>
    cases hy : w.prepare c with
    | error e =>
      rw [hv, hy] at h
      exact nomatch h
    | ok y =>
      rw [hv, hy] at h
      cases hedit : Value.edit y.edit p v with
      | error e =>
        simp only [hedit] at h
        exact nomatch h
      | ok done =>
        obtain ⟨v', r'⟩ := done
        simp only [hedit] at h
        obtain rfl := Except.ok.inj h
        exact ⟨v, y, v', rfl, rfl, hedit, by simp only [hedit]⟩

/-- What fails leaves all values as they were. -/
theorem act_of_error {a : Action} (h : (w.act a).1 = .error e) : (w.act a).2 = w := by
  cases a with
  | set name x =>
    rw [act] at h ⊢
    cases hx : w.value x with
    | error e => rfl
    | ok v =>
      rw [hx] at h
      exact nomatch h
  | edit name p c =>
    rw [act] at h ⊢
    split at h
    · rfl
    · rfl
    · split at h
      · rfl
      · exact nomatch h

theorem place_of_prepare (h : w.prepare c = .ok y) (u : Value) : y.place u = c.place u := by
  cases c with
  | pop | remove k =>
    obtain rfl := Except.ok.inj h
    rfl
  | replace x | push x | insert k x =>
    rw [prepare] at h
    cases hx : w.value x <;> rw [hx] at h
    · exact nomatch h
    · obtain rfl := Except.ok.inj h
      rfl

theorem operands_of_prepare (h : w.prepare c = .ok y) (hx : c.operands = [x])
    (hv : w.value x = .ok v) : y.operands = [v] := by
  cases c with
  | pop | remove k => exact nomatch hx
  | replace x' | push x' | insert k x' =>
    obtain rfl := List.singleton_inj.1 hx
    rw [prepare, hv] at h
    obtain rfl := Except.ok.inj h
    rfl

/-- A place reads the same after an action that spares it. -/
theorem read?_act {a : Action} (h : a.Spares name q w.read?) :
    (w.act a).2.read? name q = w.read? name q := by
  cases a with
  | set target x =>
    rw [act]
    cases w.value x with
    | error e => rfl
    | ok v => exact read?_set_of_ne w v q h
  | edit target p c =>
    cases hresult : (w.act (.edit target p c)).1 with
    | error e => rw [act_of_error hresult]
    | ok r =>
      obtain ⟨v, y, v', hv, hy, hedit, hafter⟩ := act_edit_eq_ok hresult
      rw [hafter]
      by_cases hname : target = name
      · obtain rfl := hname
        have hread : ∀ p, w.read? target p = some (v.follow p) := fun p => by rw [read?, hv]; rfl
        have hpart := h rfl _ (hread p)
        rw [← place_of_prepare hy] at hpart
        rw [read?_set_self, Value.follow_of_edit hedit hpart, hread]
      · exact read?_set_of_ne w v' q hname

end Workspace

end DataShape
