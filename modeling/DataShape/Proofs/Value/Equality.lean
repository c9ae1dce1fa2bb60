import DataShape.Proofs.Number.Value
import DataShape.Proofs.Pointwise
import DataShape.Proofs.Shape.Declarations
import DataShape.Value.Workspace

/-!
# Equality of values

Two arrays are equal if their items are, one by one, and two objects if their fields are
(`Value.equalItems_iff`, `Value.equalFields_iff`). So equality of values inherits from equality of
numbers that it is symmetric and transitive, by induction on the first value. It inherits as well
that it is not reflexive : a value is equal to itself unless not-a-number occurs in it
(`Value.equal_self_iff`). Nothing else is asked of a copy, however it shares what it holds.

The fields of an object ascend in their keys, so the same keys stand in the same order
(`Fields.Sorted.keys_eq`) and fields that are compared one by one are compared key by key
(`Value.equal_object_iff`). The order in which they were written does not matter.

Main statement : `value_equality_partial_equivalence`.
-/

namespace DataShape

/-! ## Fields with the same keys -/

namespace Fields

variable {α β : Type} {fs : List (String × α)} {gs : List (String × β)}

/-- Sorted fields with the same keys have them in the same order. -/
theorem Sorted.keys_eq (hfs : Sorted fs) (hgs : Sorted gs)
    (h : ∀ k, k ∈ Keyed.keys fs ↔ k ∈ Keyed.keys gs) : Keyed.keys fs = Keyed.keys gs :=
  List.Perm.eq_of_pairwise (fun _ _ _ _ hlt hgt => absurd hgt (String.lt_asymm hlt)) hfs hgs
    ((List.perm_ext_iff_of_nodup hfs.nodup hgs.nodup).2 h)

/-- Fields with the same distinct keys are related one by one if they are related key by key. -/
theorem forall₂_iff_get? {R : α → β → Prop} (hnodup : (Keyed.keys fs).Nodup)
    (hkeys : Keyed.keys fs = Keyed.keys gs) :
    List.Forall₂ (fun f g => f.1 = g.1 ∧ R f.2 g.2) fs gs ↔
      ∀ k u v, Keyed.get? k fs = some u → Keyed.get? k gs = some v → R u v := by
  induction fs generalizing gs with
  | nil =>
    obtain rfl : gs = [] := List.map_eq_nil_iff.1 hkeys.symm
    exact iff_of_true .nil (by simp [Keyed.get?])
  | cons f fs ih =>
    obtain ⟨k, u⟩ := f
    cases gs with
    | nil => exact absurd hkeys (List.cons_ne_nil _ _)
    | cons g gs =>
      obtain ⟨l, v⟩ := g
      obtain ⟨rfl, hbehind⟩ : k = l ∧ Keyed.keys fs = Keyed.keys gs := List.cons.inj hkeys
      obtain ⟨hnew, hnodup⟩ := List.nodup_cons.1 hnodup
      rw [List.forall₂_cons, ih hnodup hbehind]
      constructor
      · rintro ⟨⟨-, huv⟩, hrest⟩ l x y hx hy
        simp only [Keyed.get?] at hx hy
        split_ifs at hx hy with hkl
        · obtain rfl := Option.some.inj hx
          obtain rfl := Option.some.inj hy
          exact huv
        · exact hrest l x y hx hy
      · intro h
        refine ⟨⟨rfl, h k u v (if_pos rfl) (if_pos rfl)⟩, fun l x y hx hy => ?_⟩
        have hne : k ≠ l := by
          rintro rfl
          rw [(Keyed.get?_eq_none_iff k fs).2 hnew] at hx
          contradiction
        exact h l x y ((if_neg hne).trans hx) ((if_neg hne).trans hy)

end Fields

namespace Value

/-! ## One by one -/

theorem equalItems_iff {us vs : List Value} :
    equalItems us vs = true ↔ List.Forall₂ (fun u v => u.equal v = true) us vs := by
  induction us generalizing vs with
  | nil => cases vs <;> simp [equalItems]
  | cons u us ih => cases vs <;> simp [equalItems, ih]

theorem equalFields_iff {fs gs : List (String × Value)} :
    equalFields fs gs = true ↔
      List.Forall₂ (fun f g => f.1 = g.1 ∧ f.2.equal g.2 = true) fs gs := by
  induction fs generalizing gs with
  | nil => cases gs <;> simp [equalFields]
  | cons f fs ih => cases gs <;> simp [equalFields, ih, and_assoc]

/-! ## Equality as a relation -/

theorem equal_symm {u v : Value} (h : u.equal v = true) : v.equal u = true := by
  induction u generalizing v with
  | null => cases v <;> exact h
  | undefined => cases v <;> exact h
  | bool b =>
    cases v with
    | bool c => exact beq_iff_eq.2 (beq_iff_eq.1 h).symm
    | _ => cases h
  | string s =>
    cases v with
    | string t => exact beq_iff_eq.2 (beq_iff_eq.1 h).symm
    | _ => cases h
  | number a =>
    cases v with
    | number b => exact Number.equal_symm h
    | _ => cases h
  | array us ih =>
    cases v with
    | array vs => exact equalItems_iff.2 (forall₂_symm (fun u hu _ => ih u hu) (equalItems_iff.1 h))
    | _ => cases h
  | object fs ih =>
    cases v with
    | object gs =>
      refine equalFields_iff.2 (forall₂_symm (fun f hf g => ?_) (equalFields_iff.1 h))
      exact fun hfg => ⟨hfg.1.symm, ih f hf hfg.2⟩
    | _ => cases h

theorem equal_trans {u v w : Value} (huv : u.equal v = true) (hvw : v.equal w = true) :
    u.equal w = true := by
  induction u generalizing v w with
  | null => cases v <;> first | exact hvw | cases huv
  | undefined => cases v <;> first | exact hvw | cases huv
  | bool b =>
    cases v with
    | bool c => rwa [beq_iff_eq.1 huv]
    | _ => cases huv
  | string s =>
    cases v with
    | string t => rwa [beq_iff_eq.1 huv]
    | _ => cases huv
  | number a =>
    cases v with
    | number b =>
      cases w with
      | number c => exact Number.equal_trans huv hvw
      | _ => cases hvw
    | _ => cases huv
  | array us ih =>
    cases v with
    | array vs =>
      cases w with
      | array ws =>
        have hitem : ∀ u ∈ us, ∀ v w : Value, u.equal v = true → v.equal w = true →
            u.equal w = true := fun u hu _ _ => ih u hu
        exact equalItems_iff.2 (forall₂_trans hitem (equalItems_iff.1 huv) (equalItems_iff.1 hvw))
      | _ => cases hvw
    | _ => cases huv
  | object fs ih =>
    cases v with
    | object gs =>
      cases w with
      | object hs =>
        refine equalFields_iff.2 (forall₂_trans (fun f hf g e => ?_) (equalFields_iff.1 huv)
          (equalFields_iff.1 hvw))
        exact fun hfg hge => ⟨hfg.1.trans hge.1, ih f hf hfg.2 hge.2⟩
      | _ => cases hvw
    | _ => cases huv

/-- Not-a-number occurs nowhere in a value. -/
def NaNFree (v : Value) : Prop :=
  ∀ a, v.Holds a → a.isNaN = false

theorem nanFree_array {items : List Value} : (array items).NaNFree ↔ ∀ v ∈ items, v.NaNFree := by
  simp only [NaNFree, holds_array]
  exact ⟨fun h v hv a ha => h a ⟨v, hv, ha⟩, fun h a ⟨v, hv, ha⟩ => h v hv a ha⟩

theorem nanFree_object {fields : List (String × Value)} :
    (object fields).NaNFree ↔ ∀ f ∈ fields, f.2.NaNFree := by
  simp only [NaNFree, holds_object]
  exact ⟨fun h f hf a ha => h a ⟨f, hf, ha⟩, fun h a ⟨f, hf, ha⟩ => h f hf a ha⟩

theorem equal_self_iff (v : Value) : v.equal v = true ↔ v.NaNFree := by
  induction v with
  | null => exact iff_of_true rfl fun _ h => nomatch h
  | undefined => exact iff_of_true rfl fun _ h => nomatch h
  | bool b => exact iff_of_true (beq_self_eq_true b) fun _ h => nomatch h
  | string s => exact iff_of_true (beq_self_eq_true s) fun _ h => nomatch h
  | number a =>
    refine Number.equal_self_iff.trans ⟨?_, fun h => h a .number⟩
    rintro ha b ⟨⟩
    exact ha
  | array items ih =>
    rw [nanFree_array, equal, equalItems_iff, List.forall₂_same]
    exact forall₂_congr ih
  | object fields ih =>
    rw [nanFree_object, equal, equalFields_iff, List.forall₂_same]
    exact forall₂_congr fun f hf => (and_iff_right rfl).trans (ih f hf)

/-! ## Objects -/

/-- Objects are equal if they have equal values under the same keys. -/
theorem equal_object_iff {fs gs : List (String × Value)} (hfs : Fields.Sorted fs)
    (hgs : Fields.Sorted gs) :
    (object fs).equal (object gs) = true ↔
      (∀ k, k ∈ Keyed.keys fs ↔ k ∈ Keyed.keys gs) ∧
      ∀ k u v, Keyed.get? k fs = some u → Keyed.get? k gs = some v → u.equal v = true := by
  rw [equal, equalFields_iff]
  constructor
  · intro h
    have hkeys : Keyed.keys fs = Keyed.keys gs := by
      rw [Keyed.keys, Keyed.keys, ← List.forall₂_eq_eq_eq, List.forall₂_map_left_iff,
        List.forall₂_map_right_iff]
      exact h.imp fun _ _ => And.left
    exact ⟨fun k => hkeys ▸ Iff.rfl, (Fields.forall₂_iff_get? hfs.nodup hkeys).1 h⟩
  · rintro ⟨hmem, hall⟩
    exact (Fields.forall₂_iff_get? hfs.nodup (hfs.keys_eq hgs hmem)).2 hall

theorem mem_keys_fieldsOfList {es : List (String × Value)} {k : String} :
    k ∈ Keyed.keys (Fields.ofList es) ↔ k ∈ Keyed.keys es := by
  rw [← not_iff_not, ← Keyed.get?_eq_none_iff, Fields.get?_ofList, Keyed.get?_eq_none_iff,
    Keyed.keys_ofList, List.mem_eraseDups]

/-- In whatever order fields were written, the last one of each key counts. -/
theorem equal_ofFields_iff {es gs : List (String × Value)} :
    (ofFields es).equal (ofFields gs) = true ↔
      (∀ k, k ∈ Keyed.keys es ↔ k ∈ Keyed.keys gs) ∧
      ∀ k u v, Keyed.LastIn es k u → Keyed.LastIn gs k v → u.equal v = true := by
  rw [ofFields, ofFields,
    equal_object_iff (Fields.sorted_ofList es) (Fields.sorted_ofList gs)]
  simp only [mem_keys_fieldsOfList, Fields.get?_ofList, Keyed.get?_ofList]

end Value

/-- The copy of a value under another name is compared like any other value. -/
theorem Workspace.same_copy {w : Workspace} {source : String} {v : Value}
    (h : w.get? source = some v) (target : String) :
    ∃ w', w.copy source [] target = .ok w' ∧ w'.same source target = v.equal v := by
  have hsource : w.get source = .ok v := by rw [get, h]
  refine ⟨w.set target v, by rw [copy, hsource]; rfl, ?_⟩
  have hget : ∀ name, (w.set target v).get? name = if target = name then some v else w.get? name :=
    fun name => Fields.get?_insert target name v w.slots
  simp only [same, hget, h, ite_self, if_true]

/-- Equality of values is symmetric and transitive, and a value is equal to itself, or to a copy of
itself, exactly if not-a-number occurs nowhere in it. Objects are equal exactly if they have the
same keys with equal values, in whatever order the fields were written. -/
theorem value_equality_partial_equivalence :
    (∀ u v : Value, u.equal v = true → v.equal u = true) ∧
    (∀ u v w : Value, u.equal v = true → v.equal w = true → u.equal w = true) ∧
    (∀ v : Value, v.equal v = true ↔ ∀ a, v.Holds a → a.isNaN = false) ∧
    (∀ (w : Workspace) (source target : String) (v : Value), w.get? source = some v →
      ∃ w', w.copy source [] target = .ok w' ∧
        (w'.same source target = true ↔ ∀ a, v.Holds a → a.isNaN = false)) ∧
    (∀ fs gs : List (String × Value), Fields.Sorted fs → Fields.Sorted gs →
      ((Value.object fs).equal (Value.object gs) = true ↔
        (∀ k, k ∈ Keyed.keys fs ↔ k ∈ Keyed.keys gs) ∧
        ∀ k u v, Keyed.get? k fs = some u → Keyed.get? k gs = some v → u.equal v = true)) ∧
    ∀ es gs : List (String × Value), (Value.ofFields es).equal (Value.ofFields gs) = true ↔
      (∀ k, k ∈ Keyed.keys es ↔ k ∈ Keyed.keys gs) ∧
      ∀ k u v, Keyed.LastIn es k u → Keyed.LastIn gs k v → u.equal v = true := by
  refine ⟨fun _ _ => Value.equal_symm, fun _ _ _ => Value.equal_trans, Value.equal_self_iff,
    fun w source target v hv => ?_, fun _ _ => Value.equal_object_iff,
    fun _ _ => Value.equal_ofFields_iff⟩
  obtain ⟨w', hcopy, hsame⟩ := Workspace.same_copy hv target
  exact ⟨w', hcopy, hsame ▸ Value.equal_self_iff v⟩

/-- One integer in three kinds, in objects whose fields were written in different orders, and
not-a-number in an array that differs from its copy. -/
theorem nested_kinds_equal :
    let held := fun a => Value.ofFields [("n", .array [.number a]), ("b", .null)]
    let turned := Value.ofFields [("b", .null), ("n", .array [.number (.float (.ofInt (2 ^ 60)))])]
    let slots := Workspace.empty.set "v" (.array [.number (.float .nan)])
    (held (.unsigned 1152921504606846976)).equal turned = true ∧
      turned.equal (held (.signed 1152921504606846976)) = true ∧
      (held (.unsigned 1152921504606846976)).equal (held (.signed 1152921504606846976)) = true ∧
      ∃ w', slots.copy "v" [] "copy" = .ok w' ∧ ¬ w'.same "v" "copy" = true := by
  intro held turned slots
  obtain ⟨hsymm, htrans, -, hcopy, -, -⟩ := value_equality_partial_equivalence
  have hunsigned : (held (.unsigned 1152921504606846976)).equal turned = true := by decide +kernel
  have hsigned : (held (.signed 1152921504606846976)).equal turned = true := by decide +kernel
  have hturned := hsymm _ _ hsigned
  obtain ⟨w', hw', hsame⟩ := hcopy slots "v" "copy" _ rfl
  refine ⟨hunsigned, hturned, htrans _ _ _ hunsigned hturned, w', hw', fun h => ?_⟩
  exact absurd (hsame.1 h _ (.item List.mem_cons_self .number)) (by decide)

end DataShape
