import DataShape.Proofs.Number.Value
import DataShape.Proofs.Value.RoundTrip
import DataShape.Value.Path

/-!
# Texts of equal values

Equal numbers may be of different kinds. An integer that fits a signed one is written without
a fraction whatever its kind, and doubles that are equal are one double or both zero. What is
left is an unsigned integer from `2 ^ 63` on and the double that is equal to it
(`Number.Apart`) : the integer is written in full, the double with an exponent. Any other two
equal numbers become one numeral (`Number.toDocument_eq_iff`).

Equal values have equal numbers at the end of the same paths, and nothing else in which they
differ. So their texts coincide unless such a pair is found along some path
(`equal_values_one_text`). That the texts differ if there is one rests on `Json.compact_inj`.
-/

namespace DataShape

/-! ## Numbers -/

namespace Number

variable {a b : Number}

/-- An unsigned integer past the signed ones, and a double. -/
def Apart (a b : Number) : Prop :=
  ∃ n x, Int64.maxValue.toInt < n.toNat ∧
    ((a = unsigned n ∧ b = float x) ∨ (a = float x ∧ b = unsigned n))

theorem exactInt?_eq_of_equal (h : a.equal b = true) : a.exactInt? = b.exactInt? := by
  obtain ⟨v, ha, hb⟩ := equal_iff_exists_value.1 h
  ext i
  rw [exactInt?_eq_some_iff, exactInt?_eq_some_iff, ha, hb]

theorem toInt64?_eq_of_equal (h : a.equal b = true) : a.toInt64? = b.toInt64? := by
  rw [toInt64?, toInt64?, exactInt?_eq_of_equal h]

theorem toInt64?_signed (n : Int64) : (signed n).toInt64? = some n :=
  toInt64?_eq_some_iff.2 rfl

theorem toInt64?_unsigned_eq_none_iff {n : UInt64} :
    (unsigned n).toInt64? = none ↔ Int64.maxValue.toInt < n.toNat := by
  have hmin : Int64.minValue.toInt ≤ n.toNat := by
    have hneg : Int64.minValue.toInt ≤ 0 := by decide
    omega
  simp only [toInt64?, exactInt?, hmin, true_and, ite_eq_right_iff, reduceCtorEq, imp_false,
    Int.not_le]

/-- A signed integer is written alike in all kinds. -/
theorem toDocument_of_toInt64? {k : Int64} (h : a.toInt64? = some k) :
    a.toDocument = .number (toDocument.ofSigned k) := by
  have hexact := toInt64?_eq_some_iff.1 h
  cases a with
  | unsigned n =>
    have hn : (n.toNat : Int) = k.toInt := Option.some.inj hexact
    rw [toDocument.ofSigned, ← hn, if_pos (Int.natCast_nonneg _), Int.toNat_natCast,
      UInt64.ofNat_toNat]
    rfl
  | signed n =>
    obtain rfl := Int64.toInt_inj.1 (Option.some.inj hexact)
    rfl
  | float x => simp only [toDocument, h]

/-- Any other double is not written as an integer. -/
theorem toDocument_float_ne {x : Binary64} (h : (float x).toInt64? = none) (n : UInt64) :
    (float x).toDocument ≠ .number (.natural n) := by
  simp only [toDocument, h]
  split <;> simp

/-- Equal doubles that are no signed integers are one double. -/
theorem float_inj_of_equal {x y : Binary64} (h : (float x).equal (float y) = true)
    (hx : (float x).toInt64? = none) : x = y := by
  refine Binary64.eq_of_equal (Binary64.equal_iff.2 (equal_iff_exists_value.1 h)) fun hzero => ?_
  have hexact : (float x).exactInt? = some 0 :=
    exactInt?_eq_some_iff.2 ⟨Binary64.toInt?_eq_some_iff.1 hzero, Nat.two_pow_pos 127⟩
  rw [toInt64?, hexact] at hx
  exact nomatch hx

/-- Equal numbers are written alike unless they are apart. -/
theorem toDocument_eq_iff (h : a.equal b = true) : a.toDocument = b.toDocument ↔ ¬ a.Apart b := by
  have hsigned := toInt64?_eq_of_equal h
  cases ha : a.toInt64? with
  | some k =>
    have hb := hsigned.symm.trans ha
    refine iff_of_true ((toDocument_of_toInt64? ha).trans (toDocument_of_toInt64? hb).symm) ?_
    rintro ⟨n, x, hn, ⟨rfl, rfl⟩ | ⟨rfl, rfl⟩⟩
    · exact nomatch ha.symm.trans (toInt64?_unsigned_eq_none_iff.2 hn)
    · exact nomatch hb.symm.trans (toInt64?_unsigned_eq_none_iff.2 hn)
  | none =>
    have hb := hsigned.symm.trans ha
    cases a with
    | signed m => exact nomatch ha.symm.trans (toInt64?_signed m)
    | unsigned m =>
      cases b with
      | signed n => exact nomatch hb.symm.trans (toInt64?_signed n)
      | unsigned n =>
        have hmn : (m.toNat : Int) = n.toNat := Option.some.inj (exactInt?_eq_of_equal h)
        obtain rfl := UInt64.toNat_inj.1 (Int.ofNat.inj hmn)
        exact iff_of_true rfl fun ⟨_, _, _, hab⟩ => by simp at hab
      | float y =>
        exact iff_of_false (toDocument_float_ne hb m).symm
          (not_not_intro ⟨m, y, toInt64?_unsigned_eq_none_iff.1 ha, Or.inl ⟨rfl, rfl⟩⟩)
    | float x =>
      cases b with
      | signed n => exact nomatch hb.symm.trans (toInt64?_signed n)
      | unsigned n =>
        exact iff_of_false (toDocument_float_ne ha n)
          (not_not_intro ⟨n, x, toInt64?_unsigned_eq_none_iff.1 hb, Or.inr ⟨rfl, rfl⟩⟩)
      | float y =>
        obtain rfl := float_inj_of_equal h ha
        exact iff_of_true rfl fun ⟨_, _, _, hab⟩ => by simp at hab

end Number

/-! ## Values -/

namespace Value

open Json (Document)

variable {v w : Value}

/-- No two numbers at the end of one path are apart. -/
def NoneApart (v w : Value) : Prop :=
  ∀ p a b, v.follow p = number a → w.follow p = number b → ¬ a.Apart b

theorem follow_undefined (p : Path) : undefined.follow p = undefined := by
  induction p with
  | nil => rfl
  | cons s p ih => cases s <;> exact ih

theorem follow_nil (v : Value) : v.follow [] = v :=
  rfl

theorem follow_cons (v : Value) (s : Step) (p : Path) : v.follow (s :: p) = (v.child s).follow p :=
  rfl

theorem noneApart_number {a b : Number} : (number a).NoneApart (number b) ↔ ¬ a.Apart b := by
  refine ⟨fun h => h [] a b rfl rfl, fun h p c d hc hd => ?_⟩
  cases p with
  | nil =>
    cases hc
    cases hd
    exact h
  | cons s p =>
    have hchild : (number a).child s = undefined := by cases s <;> rfl
    rw [follow_cons, hchild, follow_undefined] at hc
    exact nomatch hc

/-- Values that are no numbers themselves are compared child by child. -/
theorem noneApart_iff_child (hv : ∀ a, v ≠ number a) :
    v.NoneApart w ↔ ∀ s u x, v.child? s = some u → w.child? s = some x → u.NoneApart x := by
  constructor
  · intro h s u x hu hx p a b ha hb
    refine h (s :: p) a b ?_ ?_
    · rw [follow_cons, child, hu]
      exact ha
    · rw [follow_cons, child, hx]
      exact hb
  · intro h p a b ha hb
    cases p with
    | nil => exact absurd ha (hv a)
    | cons s p =>
      rw [follow_cons, child] at ha hb
      cases hu : v.child? s with
      | none =>
        rw [hu, Option.getD_none, follow_undefined] at ha
        exact nomatch ha
      | some u =>
        cases hx : w.child? s with
        | none =>
          rw [hx, Option.getD_none, follow_undefined] at hb
          exact nomatch hb
        | some x =>
          rw [hu] at ha
          rw [hx] at hb
          exact h s u x hu hx p a b ha hb

theorem noneApart_of_leaf (hv : ∀ a, v ≠ number a) (hchild : ∀ s, v.child? s = none) :
    v.NoneApart w :=
  (noneApart_iff_child hv).2 fun s _ _ hu _ => nomatch (hchild s).symm.trans hu

theorem noneApart_array {us vs : List Value} :
    (array us).NoneApart (array vs) ↔
      ∀ (i : Nat) (u v : Value), us[i]? = some u → vs[i]? = some v → u.NoneApart v := by
  have harray : ∀ a, array us ≠ number a := fun _ => nofun
  refine (noneApart_iff_child harray).trans ⟨fun h i => h (.index i), fun h s => ?_⟩
  cases s with
  | index i => exact h i
  | key k => exact fun _ _ hu => nomatch hu

theorem noneApart_object {fs gs : List (String × Value)} :
    (object fs).NoneApart (object gs) ↔
      ∀ k u v, Keyed.get? k fs = some u → Keyed.get? k gs = some v → u.NoneApart v := by
  have hobject : ∀ a, object fs ≠ number a := fun _ => nofun
  refine (noneApart_iff_child hobject).trans ⟨fun h k => h (.key k), fun h s => ?_⟩
  cases s with
  | key k => exact h k
  | index i => exact fun _ _ hu => nomatch hu

/-- Items are written alike if none are apart. -/
theorem toDocumentItems_eq_iff {us vs : List Value} (h : equalItems us vs = true)
    (hitem : ∀ u ∈ us, ∀ v, u.equal v = true → (u.toDocument = v.toDocument ↔ u.NoneApart v)) :
    toDocumentItems us = toDocumentItems vs ↔ (array us).NoneApart (array vs) := by
  rw [noneApart_array]
  induction us generalizing vs with
  | nil =>
    cases vs with
    | nil => exact iff_of_true rfl fun _ _ _ hu => nomatch hu
    | cons v vs => exact nomatch h
  | cons u us ih =>
    cases vs with
    | nil => exact nomatch h
    | cons v vs =>
      rw [equalItems, Bool.and_eq_true] at h
      obtain ⟨hfirst, hrest⟩ := List.forall_mem_cons.1 hitem
      rw [toDocumentItems, toDocumentItems, List.cons.injEq, hfirst v h.1, ih h.2 hrest]
      constructor
      · rintro ⟨huv, hall⟩ i
        cases i with
        | zero =>
          rintro _ _ ⟨⟩ ⟨⟩
          exact huv
        | succ i => exact hall i
      · exact fun hall => ⟨hall 0 u v rfl rfl, fun i => hall (i + 1)⟩

/-- Fields with distinct keys are written alike if none are apart. -/
theorem toDocumentFields_eq_iff {fs gs : List (String × Value)} (h : equalFields fs gs = true)
    (hkeys : (Keyed.keys fs).Nodup)
    (hfield : ∀ f ∈ fs, ∀ v, f.2.equal v = true →
      (f.2.toDocument = v.toDocument ↔ f.2.NoneApart v)) :
    toDocumentFields fs = toDocumentFields gs ↔ (object fs).NoneApart (object gs) := by
  rw [noneApart_object]
  induction fs generalizing gs with
  | nil =>
    cases gs with
    | nil =>
      refine iff_of_true rfl fun _ _ _ hu => ?_
      cases hu
    | cons g gs => cases h
  | cons f fs ih =>
    obtain ⟨k, u⟩ := f
    cases gs with
    | nil => cases h
    | cons g gs =>
      obtain ⟨l, v⟩ := g
      simp only [equalFields, Bool.and_eq_true, beq_iff_eq] at h
      obtain ⟨⟨rfl, huv⟩, hrest⟩ := h
      obtain ⟨hfirst, hfields⟩ := List.forall_mem_cons.1 hfield
      obtain ⟨hnew, hkeys⟩ := List.nodup_cons.1 hkeys
      rw [toDocumentFields, toDocumentFields, List.cons.injEq, Prod.mk.injEq, hfirst v huv,
        ih hrest hkeys hfields]
      constructor
      · rintro ⟨⟨-, hapart⟩, hall⟩ l x y hx hy
        rw [Keyed.get?] at hx hy
        split at hx
        · rw [if_pos ‹_›] at hy
          cases hx
          cases hy
          exact hapart
        · rw [if_neg ‹_›] at hy
          exact hall l x y hx hy
      · intro hall
        refine ⟨⟨rfl, hall k u v (if_pos rfl) (if_pos rfl)⟩, fun l x y hx hy => ?_⟩
        have hne : k ≠ l := by
          rintro rfl
          rw [(Keyed.get?_eq_none_iff k fs).2 hnew] at hx
          cases hx
        exact hall l x y ((if_neg hne).trans hx) ((if_neg hne).trans hy)

/-- Equal values become one document unless numbers in them are apart. -/
theorem toDocument_eq_iff (hv : v.Ordered) (h : v.equal w = true) :
    v.toDocument = w.toDocument ↔ v.NoneApart w := by
  induction v generalizing w with
  | null =>
    cases w with
    | null => exact iff_of_true rfl (noneApart_of_leaf (by simp) fun s => by cases s <;> rfl)
    | _ => cases h
  | bool b =>
    cases w with
    | bool c =>
      obtain rfl := eq_of_beq h
      exact iff_of_true rfl (noneApart_of_leaf (by simp) fun s => by cases s <;> rfl)
    | _ => cases h
  | string t =>
    cases w with
    | string u =>
      obtain rfl := eq_of_beq h
      exact iff_of_true rfl (noneApart_of_leaf (by simp) fun s => by cases s <;> rfl)
    | _ => cases h
  | undefined =>
    cases w with
    | undefined => exact iff_of_true rfl (noneApart_of_leaf (by simp) fun s => by cases s <;> rfl)
    | _ => cases h
  | number a =>
    cases w with
    | number b => exact (Number.toDocument_eq_iff h).trans noneApart_number.symm
    | _ => cases h
  | array us ih =>
    cases w with
    | array vs =>
      rw [toDocument, toDocument, Document.array.injEq]
      exact toDocumentItems_eq_iff h fun u hu x => ih u hu (ordered_of_mem hv u hu)
    | _ => cases h
  | object fs ih =>
    cases w with
    | object gs =>
      have hkeys : (Keyed.keys fs).Nodup := hv.1.imp fun hlt => String.ne_of_lt hlt
      rw [toDocument, toDocument, Document.object.injEq]
      exact toDocumentFields_eq_iff h hkeys fun f hf x => ih f hf (ordered_of_mem_fields hv.2 f hf)
    | _ => cases h

end Value

/-- Equal values have one text if no two equal numbers in them are apart, and two texts if some
are : an unsigned integer from `2 ^ 63` on, and the double that is equal to it. -/
theorem equal_values_one_text {v w : Value} (hv : v.Ordered) (h : v.equal w = true) :
    v.compact = w.compact ↔ v.NoneApart w := by
  have hread : ∀ {u : Value} x, u.Holds (.float x) → x.isFinite = true →
      Json.Conversion.nearest.ReadsBack x := fun _ _ => Json.Conversion.readsBack_nearest
  have hfits := v.fits_toDocument hread (max v.depth w.depth) (Nat.le_max_left ..)
  have hfits' := w.fits_toDocument hread (max v.depth w.depth) (Nat.le_max_right ..)
  exact (Json.compact_inj hfits hfits').trans (Value.toDocument_eq_iff hv h)

/-- Zero and negative zero have one text, and `2 ^ 63` has two texts in two kinds. -/
theorem zeros_one_text :
    let zero := Value.number (.unsigned 0)
    let negativeZero := Value.number (.float (.zero true))
    let bounds := fun a => Value.object [("bound", .number a), ("rest", .undefined)]
    zero.equal negativeZero = true ∧ zero.compact = negativeZero.compact ∧
      (bounds (.unsigned 9223372036854775808)).compact ≠
        (bounds (.float (.ofInt 9223372036854775808))).compact := by
  intro zero negativeZero bounds
  have hnumber : zero.Ordered := trivial
  have hzero : zero.equal negativeZero = true := by decide +kernel
  have hnone : zero.NoneApart negativeZero := by
    refine Value.noneApart_number.2 ?_
    rintro ⟨n, x, hn, ⟨hunsigned, -⟩ | ⟨hfloat, -⟩⟩
    · obtain rfl := Number.unsigned.inj hunsigned
      exact absurd hn (by decide)
    · exact nomatch hfloat
  have hordered : (bounds (.unsigned 9223372036854775808)).Ordered := by
    have hkeys : ["bound", "rest"].Pairwise (· < ·) := by decide
    exact ⟨hkeys, trivial, trivial, trivial⟩
  refine ⟨hzero, (equal_values_one_text hnumber hzero).2 hnone, fun heq => ?_⟩
  have hbound := (equal_values_one_text hordered (by decide +kernel)).1 heq
  exact hbound [.key "bound"] _ _ rfl rfl ⟨_, _, by decide, Or.inl ⟨rfl, rfl⟩⟩

/-- The double is not written as the integer is. -/
theorem equal_numbers_two_texts :
    ¬ ∀ a b : Number, a.isFinite = true → b.isFinite = true → a.equal b = true →
      (Value.number a).compact = (Value.number b).compact := by
  intro h
  have htexts := h (.unsigned 9223372036854775808) (.float (.ofInt 9223372036854775808)) rfl
    (by decide +kernel) (by decide +kernel)
  exact absurd htexts (by decide +kernel)

end DataShape
