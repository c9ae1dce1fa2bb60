import DataShape.Fields
import Mathlib.Data.List.Forall2

/-!
# Lists related one by one

Two lists may be related item by item. If items of related lists are related by their keys among
other things, then the same is found at a key in both, and they stay related when related values are
written at one key or a key is removed.
-/

namespace DataShape

section Items

variable {α β : Type} {R : α → β → Prop} {as : List α} {bs : List β}

/-- Each member of the one list has its partner in the other. -/
theorem exists_of_forall₂ (h : List.Forall₂ R as bs) : ∀ a ∈ as, ∃ b ∈ bs, R a b := by
  induction h with
  | nil => exact fun a ha => nomatch ha
  | cons hab _ ih =>
    refine List.forall_mem_cons.2 ⟨⟨_, List.mem_cons_self, hab⟩, fun a ha => ?_⟩
    obtain ⟨b, hb, hr⟩ := ih a ha
    exact ⟨b, List.mem_cons_of_mem _ hb, hr⟩

theorem forall₂_imp {S : α → β → Prop} (h : List.Forall₂ R as bs)
    (himp : ∀ a ∈ as, ∀ b ∈ bs, R a b → S a b) : List.Forall₂ S as bs := by
  induction h with
  | nil => exact .nil
  | cons hab _ ih =>
    refine .cons (himp _ List.mem_cons_self _ List.mem_cons_self hab) (ih fun a ha b hb => ?_)
    exact himp a (List.mem_cons_of_mem _ ha) b (List.mem_cons_of_mem _ hb)

theorem map_eq_of_forall₂ {f : β → α} (h : List.Forall₂ (fun a b => f b = a) as bs) :
    bs.map f = as := by
  induction h with
  | nil => rfl
  | cons hab _ ih => rw [List.map_cons, hab, ih]

theorem forall₂_getElem? (h : List.Forall₂ R as bs) (i : Nat) : Option.Rel R as[i]? bs[i]? := by
  induction h generalizing i with
  | nil => exact .none
  | cons hab _ ih =>
    cases i with
    | zero => exact .some hab
    | succ i => exact ih i

theorem forall₂_set {a : α} {b : β} (hab : R a b) (h : List.Forall₂ R as bs) (i : Nat) :
    List.Forall₂ R (as.set i a) (bs.set i b) := by
  induction h generalizing i with
  | nil => exact .nil
  | cons hcd hrest ih =>
    cases i with
    | zero => exact .cons hab hrest
    | succ i => exact .cons hcd (ih i)

theorem forall₂_dropLast (h : List.Forall₂ R as bs) : List.Forall₂ R as.dropLast bs.dropLast := by
  rw [List.dropLast_eq_take, List.dropLast_eq_take, h.length_eq]
  exact List.forall₂_take _ h

theorem forall₂_getLast? (h : List.Forall₂ R as bs) : Option.Rel R as.getLast? bs.getLast? := by
  rw [List.getLast?_eq_getElem?, List.getLast?_eq_getElem?, h.length_eq]
  exact forall₂_getElem? h _

/-- Both are there, or neither is. -/
theorem rel_cases {a : Option α} {b : Option β} (h : Option.Rel R a b) :
    (a = none ∧ b = none) ∨ ∃ x y, a = some x ∧ b = some y ∧ R x y := by
  cases h with
  | none => exact Or.inl ⟨rfl, rfl⟩
  | some hxy => exact Or.inr ⟨_, _, rfl, rfl, hxy⟩

/-- Lists that are compared by turns are compared from the first to the last. -/
theorem forall₂_trans {R : α → α → Prop} :
    ∀ {us vs ws : List α}, (∀ u ∈ us, ∀ v w, R u v → R v w → R u w) →
      List.Forall₂ R us vs → List.Forall₂ R vs ws → List.Forall₂ R us ws
  | _, _, _, _, .nil, .nil => .nil
  | _, _, _, h, .cons huv hus, .cons hvw hvs =>
    have hrest := fun u hu => h u (List.mem_cons_of_mem _ hu)
    .cons (h _ List.mem_cons_self _ _ huv hvw) (forall₂_trans hrest hus hvs)

theorem forall₂_symm {R : α → α → Prop} :
    ∀ {us vs : List α}, (∀ u ∈ us, ∀ v, R u v → R v u) →
      List.Forall₂ R us vs → List.Forall₂ R vs us
  | _, _, _, .nil => .nil
  | _, _, h, .cons huv hus =>
    have hrest := fun u hu => h u (List.mem_cons_of_mem _ hu)
    .cons (h _ List.mem_cons_self _ huv) (forall₂_symm hrest hus)

end Items

section Pairs

variable {κ α β : Type} {R : α → β → Prop} {k : κ} {v : α} {w : β}

/-- Two pairs have one key and related values. -/
def AtKey (R : α → β → Prop) (e : κ × α) (f : κ × β) : Prop :=
  e.1 = f.1 ∧ R e.2 f.2

theorem keys_eq_of_forall₂ {es : List (κ × α)} {fs : List (κ × β)}
    (h : List.Forall₂ (AtKey R) es fs) : Keyed.keys es = Keyed.keys fs := by
  induction h with
  | nil => rfl
  | cons hef _ ih => exact congrArg₂ _ hef.1 ih

variable [DecidableEq κ]

theorem Keyed.forall₂_get? (k : κ) {es : List (κ × α)} {fs : List (κ × β)}
    (h : List.Forall₂ (AtKey R) es fs) : Option.Rel R (get? k es) (get? k fs) := by
  induction h with
  | nil => exact .none
  | @cons e f es fs hef _ ih =>
    obtain ⟨a, b⟩ := e
    obtain ⟨a', b'⟩ := f
    obtain ⟨rfl : a = a', hb⟩ := hef
    by_cases hk : a = k
    · simpa only [get?, hk, if_true] using .some hb
    · simpa only [get?, hk, if_false] using ih

/-- Writing related values at one key keeps lists of pairs related. -/
theorem Keyed.forall₂_put {R : κ × α → κ × β → Prop} (hR : ∀ e f, R e f → e.1 = f.1)
    (hvw : R (k, v) (k, w)) {es : List (κ × α)} {fs : List (κ × β)} (h : List.Forall₂ R es fs) :
    List.Forall₂ R (put k v es) (put k w fs) := by
  induction h with
  | nil => exact .cons hvw .nil
  | @cons e f es fs hef hs ih =>
    obtain ⟨a, b⟩ := e
    obtain ⟨a', b'⟩ := f
    obtain rfl : a = a' := hR _ _ hef
    by_cases hk : a = k
    · subst hk
      rw [put, put, if_pos rfl, if_pos rfl]
      exact .cons hvw hs
    · rw [put, put, if_neg hk, if_neg hk]
      exact .cons hef ih

theorem Keyed.forall₂_erase (k : κ) {es : List (κ × α)} {fs : List (κ × β)}
    (h : List.Forall₂ (AtKey R) es fs) : List.Forall₂ (AtKey R) (erase k es) (erase k fs) := by
  induction h with
  | nil => exact .nil
  | @cons e f es fs hef _ ih =>
    obtain ⟨a, b⟩ := e
    obtain ⟨a', b'⟩ := f
    obtain rfl : a = a' := hef.1
    by_cases hk : a = k
    · simpa only [erase, hk, if_true] using ih
    · simpa only [erase, hk, if_false] using .cons hef ih

omit [DecidableEq κ] in
theorem Fields.forall₂_insert {k : String} (hvw : R v w) {es : List (String × α)}
    {fs : List (String × β)} (h : List.Forall₂ (AtKey R) es fs) :
    List.Forall₂ (AtKey R) (insert k v es) (insert k w fs) := by
  induction h with
  | nil => exact .cons ⟨rfl, hvw⟩ .nil
  | @cons e f es fs hef hs ih =>
    obtain ⟨a, b⟩ := e
    obtain ⟨a', b'⟩ := f
    obtain rfl : a = a' := hef.1
    by_cases hlt : k < a
    · simpa only [insert, hlt, if_true] using .cons ⟨rfl, hvw⟩ (.cons hef hs)
    · by_cases hk : a = k
      · subst hk
        rw [insert, insert, if_neg hlt, if_neg hlt, if_pos rfl, if_pos rfl]
        exact .cons ⟨rfl, hvw⟩ hs
      · simpa only [insert, hlt, hk, if_false] using .cons hef ih

end Pairs

end DataShape
