import DataShape.Proofs.Value.CopyOnWrite
import DataShape.Proofs.Value.Editing

/-!
# Edits in storage

An edit goes down a path from cell to cell. Where it opens a container it finds a cell of its own
(`Heap.Opened`), and there each step leads on or fails just as it does in the value
(`Heap.stepMut_cases`). The child is taken out of its container and edited outside, while the
container waits in a cell with a single owner, which nobody touches (`Heap.Opened.takeOut`) ; what
came of the child is put back (`Heap.Opened.putBack`). By induction on the path an edit in storage
does to a handle what the edit does to the value that the handle stands for, and it keeps all
handles outside (`Heap.edit_meets`).
-/

namespace DataShape.Heap

open Value (AccessError EditError childToEdit)

variable {H H' K : Heap} {own own' hs ops : List Handle} {a b n : Nat} {h x r : Handle}
  {c c' : Content} {v w u : Value} {s : Step}

/-! ## Opening a container -/

theorem denotes_array_cell {vs : List Value} (hc : H.content? a = some (.array hs)) :
    H.Denotes (.array vs) (.cell a) ↔ List.Forall₂ H.Denotes vs hs := by
  refine denotes_array.trans ⟨?_, fun hitems => ⟨a, hs, rfl, hc, hitems⟩⟩
  rintro ⟨b, rs, heq, hd, hitems⟩
  obtain rfl := Handle.cell.inj heq
  obtain ⟨⟩ := Option.some.inj (hc.symm.trans hd)
  exact hitems

theorem denotes_object_cell {gs : List (String × Value)} {fs : List (String × Handle)}
    (hc : H.content? a = some (.object fs)) :
    H.Denotes (.object gs) (.cell a) ↔ List.Forall₂ (AtKey H.Denotes) gs fs := by
  refine denotes_object.trans ⟨?_, fun hfields => ⟨a, fs, rfl, hc, hfields⟩⟩
  rintro ⟨b, rs, heq, hd, hfields⟩
  obtain rfl := Handle.cell.inj heq
  obtain ⟨⟩ := Option.some.inj (hc.symm.trans hd)
  exact hfields

/-- A container was opened : it stands for the same value in a cell of its own, and nothing outside
has changed. -/
structure Opened (H : Heap) (own : List Handle) (v : Value) (c : Content) (a : Nat) (H' : Heap) :
    Prop where
  alone : H'.Alone a c own
  keeps : Keeps H H' own
  denotes : H'.Denotes v (.cell a)

theorem Sound.opened (hs : H.Sound (.cell a :: own)) (hc : H.content? a = some c)
    (hv : H.Denotes v (.cell a)) :
    H.Opened own v c (H.unshare a c).1 (H.unshare a c).2 := by
  obtain ⟨halone, hkeeps, hdenotes⟩ := hs.unshare hc
  exact ⟨halone, hkeeps, hdenotes v hv⟩

theorem arrayMut_of_array {vs : List Value} (hs' : H.Sound (h :: own))
    (hv : H.Denotes (.array vs) h) :
    ∃ hs a H', H.arrayMut h = .ok (hs, a, H') ∧ H.Opened own (.array vs) (.array hs) a H' := by
  obtain ⟨a, hs, rfl, hc, -⟩ := denotes_array.1 hv
  refine ⟨hs, _, _, ?_, hs'.opened hc hv⟩
  simp only [arrayMut, hc]

theorem objectMut_of_object {gs : List (String × Value)} (hs' : H.Sound (h :: own))
    (hv : H.Denotes (.object gs) h) :
    ∃ fs a H', H.objectMut h = .ok (fs, a, H') ∧ H.Opened own (.object gs) (.object fs) a H' := by
  obtain ⟨a, fs, rfl, hc, -⟩ := denotes_object.1 hv
  refine ⟨fs, _, _, ?_, hs'.opened hc hv⟩
  simp only [objectMut, hc]

theorem arrayMut_of_error {e : AccessError} (hv : H.Denotes v h) (he : v.asArray = .error e) :
    H.arrayMut h = .error e := by
  cases v with
  | array vs => exact nomatch he
  | object gs =>
    obtain ⟨a, fs, rfl, hc, -⟩ := denotes_object.1 hv
    obtain rfl := Except.error.inj he
    simp only [arrayMut, hc]
  | _ =>
    obtain rfl : h = _ := hv
    obtain rfl := Except.error.inj he
    rfl

theorem objectMut_of_error {e : AccessError} (hv : H.Denotes v h) (he : v.asObject = .error e) :
    H.objectMut h = .error e := by
  cases v with
  | object gs => exact nomatch he
  | array vs =>
    obtain ⟨a, fs, rfl, hc, -⟩ := denotes_array.1 hv
    obtain rfl := Except.error.inj he
    simp only [objectMut, hc]
  | _ =>
    obtain rfl : h = _ := hv
    obtain rfl := Except.error.inj he
    rfl

/-- The same steps lead on from a cell as from its value. -/
theorem Denotes.child? (hv : H.Denotes v (.cell a)) (hc : H.content? a = some c) (s : Step) :
    Option.Rel H.Denotes (v.child? s) (c.child? s) := by
  cases v with
  | array vs =>
    obtain ⟨b, hs, heq, hd, hitems⟩ := denotes_array.1 hv
    obtain rfl := Handle.cell.inj heq
    obtain rfl := Option.some.inj (hc.symm.trans hd)
    cases s with
    | key k => exact .none
    | index i => exact forall₂_getElem? hitems i
  | object gs =>
    obtain ⟨b, fs, heq, hd, hfields⟩ := denotes_object.1 hv
    obtain rfl := Handle.cell.inj heq
    obtain rfl := Option.some.inj (hc.symm.trans hd)
    cases s with
    | key k => exact Keyed.forall₂_get? k hfields
    | index i => exact .none
  | _ => exact nomatch hv

theorem Opened.child_cases (ho : H.Opened own v c a H') (s : Step)
    (hkind : ∀ e, childToEdit s v ≠ .error (.access e)) :
    (c.child? s = none ∧ childToEdit s v = .error .missing) ∨
      ∃ r u, c.child? s = some r ∧ v.child? s = some u ∧ H'.Denotes u r := by
  rcases rel_cases (ho.denotes.child? ho.alone.content s) with ⟨hu, hr⟩ | ⟨u, r, hu, hr, hur⟩
  · refine Or.inl ⟨hr, ?_⟩
    cases hedit : childToEdit s v with
    | ok u => exact nomatch hu.symm.trans (Value.childToEdit_eq_ok.1 hedit)
    | error e =>
      cases e with
      | access e => exact absurd hedit (hkind e)
      | missing => rfl
  · exact Or.inr ⟨r, u, hr, hu, hur⟩

/-- A step that fails by kind fails so in storage. Any other step opens the container, and then
finds the handle of the child, if there is one. -/
theorem stepMut_cases (hs : H.Sound (h :: own)) (hv : H.Denotes v h) (s : Step) :
    (∃ e, H.stepMut h s = .error e ∧ childToEdit s v = .error (.access e)) ∨
      ∃ c a H', H.stepMut h s = .ok (c, a, H') ∧ H.Opened own v c a H' ∧
        ((c.child? s = none ∧ childToEdit s v = .error .missing) ∨
          ∃ r u, c.child? s = some r ∧ v.child? s = some u ∧ H'.Denotes u r) := by
  cases s with
  | key k =>
    cases hobject : v.asObject with
    | error e =>
      refine Or.inl ⟨e, ?_, Value.childToEdit_key_of_error hobject⟩
      rw [stepMut, objectMut_of_error hv hobject]
      rfl
    | ok gs =>
      obtain rfl := Value.eq_object_of_asObject hobject
      obtain ⟨fs, a, H', hmut, hopened⟩ := objectMut_of_object hs hv
      refine Or.inr ⟨.object fs, a, H', ?_, hopened, hopened.child_cases _ fun e he => ?_⟩
      · rw [stepMut, hmut]
        rfl
      · rw [childToEdit] at he
        split at he <;> cases he
  | index i =>
    cases harray : v.asArray with
    | error e =>
      refine Or.inl ⟨e, ?_, Value.childToEdit_index_of_error harray⟩
      rw [stepMut, arrayMut_of_error hv harray]
      rfl
    | ok vs =>
      obtain rfl := Value.eq_array_of_asArray harray
      obtain ⟨hs', a, H', hmut, hopened⟩ := arrayMut_of_array hs hv
      refine Or.inr ⟨.array hs', a, H', ?_, hopened, hopened.child_cases _ fun e he => ?_⟩
      · rw [stepMut, hmut]
        rfl
      · rw [childToEdit] at he
        split at he <;> cases he

/-! ## Children -/

theorem exists_split_child (hr : c.child? s = some r) :
    ∃ pre post, c.children = pre ++ r :: post ∧
      ∀ x, (c.setChild s x).children = pre ++ x :: post := by
  cases c with
  | array hs =>
    cases s with
    | key k => exact nomatch hr
    | index i =>
      obtain ⟨hi, hget⟩ := List.getElem?_eq_some_iff.1 hr
      refine ⟨hs.take i, hs.drop (i + 1), ?_, fun x => ?_⟩
      · rw [← hget, List.getElem_cons_drop, List.take_append_drop]
        rfl
      · exact List.set_eq_take_append_cons_drop.trans (if_pos hi)
  | object fs =>
    cases s with
    | index i => exact nomatch hr
    | key k =>
      obtain ⟨pre, post, rfl, hput⟩ := Keyed.exists_split_of_get? hr
      refine ⟨pre.map Prod.snd, post.map Prod.snd, List.map_append, fun x => ?_⟩
      simp only [Content.setChild, Content.children, hput, List.map_append, List.map_cons]

theorem mem_children (hr : c.child? s = some r) : r ∈ c.children := by
  obtain ⟨pre, post, hchildren, -⟩ := exists_split_child hr
  rw [hchildren]
  exact List.mem_append_right pre List.mem_cons_self

theorem sorted_setChild (hr : c.child? s = some r) (hc : c.Sorted) :
    (c.setChild s x).Sorted := by
  cases c with
  | array hs => cases s <;> trivial
  | object fs =>
    cases s with
    | index i => exact nomatch hr
    | key k =>
      have hkey : k ∈ Keyed.keys fs := by
        by_contra hnone
        exact nomatch ((Keyed.get?_eq_none_iff k fs).2 hnone).symm.trans hr
      show Fields.Sorted (Keyed.put k x fs)
      rw [Fields.Sorted, Keyed.keys_put, if_pos hkey]
      exact hc

theorem setChild_setChild : (c.setChild s x).setChild s h = c.setChild s h := by
  cases c with
  | array hs =>
    cases s with
    | key k => rfl
    | index i => exact congrArg Content.array (List.set_set ..)
  | object fs =>
    cases s with
    | index i => rfl
    | key k => exact congrArg Content.object (Keyed.put_put ..)

/-- Another child in the cell is another child of the value. -/
theorem Denotes.setChild (hv : H.Denotes v (.cell a)) (hc : H.content? a = some c)
    (hu : v.child? s = some u) (hc' : K.content? a = some (c.setChild s x)) (hx : K.Denotes w x)
    (hkeep : ∀ h ∈ c.children, ∀ v, H.Denotes v h → K.Denotes v h) :
    K.Denotes (Value.setChild s w v) (.cell a) := by
  cases s with
  | index i =>
    cases v with
    | array vs =>
      obtain ⟨b, hs, heq, hd, hitems⟩ := denotes_array.1 hv
      obtain rfl := Handle.cell.inj heq
      obtain rfl := Option.some.inj (hc.symm.trans hd)
      refine (denotes_array_cell hc').2 (forall₂_set hx ?_ i)
      exact forall₂_imp hitems fun v _ h hh => hkeep h hh v
    | _ => cases hu
  | key k =>
    cases v with
    | object gs =>
      obtain ⟨b, fs, heq, hd, hfields⟩ := denotes_object.1 hv
      obtain rfl := Handle.cell.inj heq
      obtain rfl := Option.some.inj (hc.symm.trans hd)
      have hthere : (Keyed.get? k gs).isSome = true := Option.isSome_of_eq_some hu
      rw [Value.setChild, if_pos hthere]
      refine (denotes_object_cell hc').2 (Keyed.forall₂_put (fun _ _ h => h.1) ⟨rfl, hx⟩ ?_)
      refine forall₂_imp hfields fun g _ f hf hgf => ⟨hgf.1, hkeep f.2 ?_ g.2 hgf.2⟩
      exact List.mem_map_of_mem hf
    | _ => cases hu

/-- A child is taken out. -/
theorem Alone.takeOut (ha : H.Alone a c own) (hr : c.child? s = some r) :
    (H.setContent a (c.setChild s .undefined)).Alone a (c.setChild s .undefined) (r :: own) := by
  obtain ⟨pre, post, hchildren, hset⟩ := exists_split_child hr
  refine ha.write (sorted_setChild hr (ha.sound.sorted a c ha.content)) fun b => ?_
  have hblank : [Handle.undefined].count (.cell b) = 0 := rfl
  rw [hchildren, hset]
  simp only [List.count_append, List.count_cons, List.count_nil] at hblank ⊢
  omega

/-- A child is put back. -/
theorem Alone.putBack (ha : H.Alone a (c.setChild s .undefined) (x :: own))
    (hr : c.child? s = some r) (hc : c.Sorted) :
    (H.setContent a (c.setChild s x)).Alone a (c.setChild s x) own := by
  obtain ⟨pre, post, -, hset⟩ := exists_split_child hr
  refine ha.write (sorted_setChild hr hc) fun b => ?_
  have hblank : [Handle.undefined].count (.cell b) = 0 := rfl
  rw [hset, hset]
  simp only [List.count_append, List.count_cons, List.count_nil] at hblank ⊢
  omega

/-! ## Edits -/

/-- Handles stand for what is put in. -/
def DenotesOperands (H : Heap) : Change Value → Change Handle → Prop
  | .replace w, .replace x => H.Denotes w x
  | .push w, .push x => H.Denotes w x
  | .pop, .pop => True
  | .insert k w, .insert l x => k = l ∧ H.Denotes w x
  | .remove k, .remove l => k = l
  | _, _ => False

theorem DenotesOperands.mono {y : Change Value} {z : Change Handle} (h : H.DenotesOperands y z)
    (hkeep : ∀ x ∈ z.operands, ∀ w, H.Denotes w x → K.Denotes w x) : K.DenotesOperands y z := by
  cases y <;> cases z <;> try exact h
  · exact hkeep _ List.mem_cons_self _ h
  · exact hkeep _ List.mem_cons_self _ h
  · exact ⟨h.1, hkeep _ List.mem_cons_self _ h.2⟩

/-- An edit in storage ends as one of values does. If it succeeds the operands are inside and what
was taken out is outside, and otherwise the value stands as it was. -/
def Edited.Meets (done : Edited) (ops own : List Handle) (v : Value) :
    Except EditError (Value × Option Value) → Prop
  | .ok (w, r) => ∃ old : Option Handle, done.result = .ok old ∧
      done.heap.Sound (done.handle :: (old.toList ++ own)) ∧ done.heap.Denotes w done.handle ∧
      Option.Rel done.heap.Denotes r old
  | .error e => done.result = .error e ∧ done.heap.Sound (done.handle :: (ops ++ own)) ∧
      done.heap.Denotes v done.handle

section Changes

variable {y : Change Value} {z : Change Handle}

/-- The operands stand for the same in an opened cell, whatever is written there. -/
theorem Opened.denotesOperands (ho : H.Opened (z.operands ++ own) v c a H')
    (hy : H.DenotesOperands y z) : (H'.setContent a c').DenotesOperands y z := by
  refine hy.mono fun x hx w hw => ?_
  have hmem := List.mem_append_left own hx
  exact ho.alone.denotes_write (ho.alone.ne_of_mem hmem) (ho.keeps.denotes x hmem w hw)

theorem Opened.keeps_write (ho : H.Opened (ops ++ own) v c a H') :
    Keeps H (H'.setContent a c') own :=
  (ho.keeps.trans ho.alone.keeps_write).subset fun _ => List.mem_append_right ops

theorem onArray_meets (hs' : H.Sound (h :: (z.operands ++ own))) (hv : H.Denotes v h)
    (hy : H.DenotesOperands y z) {f : List Handle → List Handle × Option Handle}
    {g : List Value → List Value × Option Value}
    (hcount : ∀ hs b, (f hs).1.count (.cell b) + (f hs).2.toList.count (.cell b) =
      hs.count (.cell b) + z.operands.count (.cell b))
    (hfg : ∀ K : Heap, K.DenotesOperands y z → ∀ vs hs, List.Forall₂ K.Denotes vs hs →
      List.Forall₂ K.Denotes (g vs).1 (f hs).1 ∧ Option.Rel K.Denotes (g vs).2 (f hs).2) :
    (H.onArray h f).Meets z.operands own v (Value.Edit.onArray g v) ∧
      Keeps H (H.onArray h f).heap own := by
  cases harray : v.asArray with
  | error e =>
    simp only [onArray, arrayMut_of_error hv harray, Value.Edit.onArray, harray]
    exact ⟨⟨rfl, hs', hv⟩, .refl H own⟩
  | ok vs =>
    obtain rfl := Value.eq_array_of_asArray harray
    obtain ⟨hs, a, H', hmut, hopened⟩ := arrayMut_of_array hs' hv
    simp only [onArray, hmut, Value.Edit.onArray, Value.asArray]
    have hwritten : (H'.setContent a (.array (f hs).1)).Alone a (.array (f hs).1)
        ((f hs).2.toList ++ own) := by
      refine hopened.alone.write trivial fun b => ?_
      have hb := hcount hs b
      simp only [Content.children, List.count_append]
      omega
    have hitems : List.Forall₂ (H'.setContent a (.array (f hs).1)).Denotes vs hs := by
      refine forall₂_imp ((denotes_array_cell hopened.alone.content).1 hopened.denotes) ?_
      exact fun u _ r hr hur => hopened.alone.denotes_write (hopened.alone.ne_of_child hr) hur
    obtain ⟨hafter, hold⟩ := hfg _ (hopened.denotesOperands hy) vs hs hitems
    exact ⟨⟨(f hs).2, rfl, hwritten.sound, (denotes_array_cell hwritten.content).2 hafter, hold⟩,
      hopened.keeps_write⟩

theorem onObject_meets (hs' : H.Sound (h :: (z.operands ++ own))) (hv : H.Denotes v h)
    (hy : H.DenotesOperands y z)
    {f : List (String × Handle) → List (String × Handle) × Option Handle}
    {g : List (String × Value) → List (String × Value) × Option Value}
    (hsorted : ∀ fs, Fields.Sorted fs → Fields.Sorted (f fs).1)
    (hcount : ∀ fs, Fields.Sorted fs → ∀ b, ((f fs).1.map Prod.snd).count (.cell b) +
      (f fs).2.toList.count (.cell b) =
        (fs.map Prod.snd).count (.cell b) + z.operands.count (.cell b))
    (hfg : ∀ K : Heap, K.DenotesOperands y z → ∀ gs fs, List.Forall₂ (AtKey K.Denotes) gs fs →
      List.Forall₂ (AtKey K.Denotes) (g gs).1 (f fs).1 ∧
        Option.Rel K.Denotes (g gs).2 (f fs).2) :
    (H.onObject h f).Meets z.operands own v (Value.Edit.onObject g v) ∧
      Keeps H (H.onObject h f).heap own := by
  cases hobject : v.asObject with
  | error e =>
    simp only [onObject, objectMut_of_error hv hobject, Value.Edit.onObject, hobject]
    exact ⟨⟨rfl, hs', hv⟩, .refl H own⟩
  | ok gs =>
    obtain rfl := Value.eq_object_of_asObject hobject
    obtain ⟨fs, a, H', hmut, hopened⟩ := objectMut_of_object hs' hv
    simp only [onObject, hmut, Value.Edit.onObject, Value.asObject]
    have hascending : Fields.Sorted fs := hopened.alone.sound.sorted a _ hopened.alone.content
    have hwritten : (H'.setContent a (.object (f fs).1)).Alone a (.object (f fs).1)
        ((f fs).2.toList ++ own) := by
      refine hopened.alone.write (hsorted fs hascending) fun b => ?_
      have hb := hcount fs hascending b
      simp only [Content.children, List.count_append]
      omega
    have hfields : List.Forall₂ (AtKey (H'.setContent a (.object (f fs).1)).Denotes) gs fs := by
      refine forall₂_imp ((denotes_object_cell hopened.alone.content).1 hopened.denotes) ?_
      refine fun u _ r hr hur => ⟨hur.1, hopened.alone.denotes_write ?_ hur.2⟩
      exact hopened.alone.ne_of_child (List.mem_map_of_mem hr)
    obtain ⟨hafter, hold⟩ := hfg _ (hopened.denotesOperands hy) gs fs hfields
    exact ⟨⟨(f fs).2, rfl, hwritten.sound, (denotes_object_cell hwritten.content).2 hafter, hold⟩,
      hopened.keeps_write⟩

theorem count_dropLast (hs : List Handle) (x : Handle) :
    hs.dropLast.count x + hs.getLast?.toList.count x = hs.count x := by
  rw [← List.count_append]
  congr 1
  rcases hs.eq_nil_or_concat with rfl | ⟨hs, r, rfl⟩
  · rfl
  · simp

theorem count_insert {fs : List (String × Handle)} (hfs : Fields.Sorted fs) (k : String)
    (x r : Handle) :
    ((Fields.insert k x fs).map Prod.snd).count r + (Keyed.get? k fs).toList.count r =
      (fs.map Prod.snd).count r + [x].count r := by
  cases hk : Keyed.get? k fs with
  | none =>
    obtain ⟨pre, post, rfl, hinsert⟩ :=
      Fields.exists_split_of_notMem ((Keyed.get?_eq_none_iff k fs).1 hk)
    simp only [hinsert, List.map_append, List.map_cons, List.count_append, List.count_cons,
      Option.toList, List.count_nil]
    omega
  | some old =>
    obtain ⟨pre, post, rfl, -, hinsert⟩ := Fields.exists_split_of_get? hfs hk
    simp only [hinsert, List.map_append, List.map_cons, List.count_append, List.count_cons,
      Option.toList, List.count_nil]
    omega

theorem count_erase {fs : List (String × Handle)} (hfs : Fields.Sorted fs) (k : String)
    (r : Handle) :
    ((Keyed.erase k fs).map Prod.snd).count r + (Keyed.get? k fs).toList.count r =
      (fs.map Prod.snd).count r := by
  cases hk : Keyed.get? k fs with
  | none =>
    rw [Keyed.erase_of_notMem ((Keyed.get?_eq_none_iff k fs).1 hk)]
    rfl
  | some old =>
    obtain ⟨pre, post, rfl, herase, -⟩ := Fields.exists_split_of_get? hfs hk
    simp only [herase, List.map_append, List.map_cons, List.count_append, List.count_cons,
      Option.toList, List.count_nil]
    omega

theorem change_meets (hs' : H.Sound (h :: (z.operands ++ own))) (hv : H.Denotes v h)
    (hy : H.DenotesOperands y z) :
    (H.change h z).Meets z.operands own v (y.edit v) ∧ Keeps H (H.change h z).heap own := by
  cases y <;> cases z <;> try exact hy.elim
  case replace.replace w x =>
    refine ⟨⟨some h, rfl, ?_, hy, .some hv⟩, .refl H own⟩
    exact hs'.congr fun b => (List.Perm.swap ..).count_eq _
  case push.push w x =>
    refine onArray_meets (f := fun hs => (hs ++ [x], none)) (g := fun vs => (vs ++ [w], none))
      hs' hv hy (fun hs b => ?_) fun K hK vs hs hitems => ⟨?_, .none⟩
    · simp [Change.operands]
    · exact List.rel_append hitems (.cons hK .nil)
  case pop.pop =>
    refine onArray_meets (f := fun hs => (hs.dropLast, hs.getLast?))
      (g := fun vs => (vs.dropLast, vs.getLast?)) hs' hv hy (fun hs b => count_dropLast hs _)
      fun K _ vs hs hitems => ?_
    exact ⟨forall₂_dropLast hitems, forall₂_getLast? hitems⟩
  case insert.insert k w l x =>
    obtain ⟨rfl, -⟩ := id hy
    refine onObject_meets (f := fun fs => (Fields.insert k x fs, Keyed.get? k fs))
      (g := fun gs => (Fields.insert k w gs, Keyed.get? k gs)) hs' hv hy
      (fun fs => Fields.sorted_insert k x) (fun fs hfs b => count_insert hfs k x _)
      fun K hK gs fs hfields => ?_
    exact ⟨Fields.forall₂_insert hK.2 hfields, Keyed.forall₂_get? k hfields⟩
  case remove.remove k l =>
    have hkl : k = l := hy
    subst hkl
    refine onObject_meets (f := fun fs => (Keyed.erase k fs, Keyed.get? k fs))
      (g := fun gs => (Keyed.erase k gs, Keyed.get? k gs)) hs' hv hy
      (fun fs => Fields.sorted_erase k) (fun fs hfs b => count_erase hfs k _)
      fun K _ gs fs hfields => ?_
    exact ⟨Keyed.forall₂_erase k hfields, Keyed.forall₂_get? k hfields⟩

/-- While a child is outside, its container waits in a cell of its own. -/
theorem Opened.takeOut (ho : H.Opened own v c a H') (hc : c.child? s = some r)
    (hu : v.child? s = some u) :
    (H'.setContent a (c.setChild s .undefined)).Alone a (c.setChild s .undefined) (r :: own) ∧
      (H'.setContent a (c.setChild s .undefined)).Denotes (Value.setChild s .undefined v)
        (.cell a) := by
  have halone := ho.alone.takeOut hc
  refine ⟨halone, ho.denotes.setChild ho.alone.content hu halone.content (w := .undefined) rfl ?_⟩
  exact fun h hh w hw => ho.alone.denotes_write (ho.alone.ne_of_child hh) hw

/-- What stands for the child afterwards is put back into its container. -/
theorem Opened.putBack (ho : H.Opened own' v c a H') (hc : c.child? s = some r)
    (hu : v.child? s = some u)
    (hkeeps : Keeps (H'.setContent a (c.setChild s .undefined)) K (.cell a :: own))
    (hsound : K.Sound (x :: (ops ++ .cell a :: own))) (hw : K.Denotes w x) :
    (K.setContent a (c.setChild s x)).Sound (.cell a :: (ops ++ own)) ∧
      (K.setContent a (c.setChild s x)).Denotes (Value.setChild s w v) (.cell a) ∧
      Keeps K (K.setContent a (c.setChild s x)) (ops ++ own) := by
  obtain ⟨hout, hdenotes⟩ := ho.takeOut hc hu
  have hcells := hkeeps.sole a List.mem_cons_self hout.single
  have halone : K.Alone a (c.setChild s .undefined) (x :: (ops ++ own)) := by
    refine ⟨hsound.congr fun b => ?_, (owners_congr hcells).trans hout.single,
      (content?_congr hcells).trans hout.content⟩
    simp only [List.count_cons, List.count_append]
    omega
  have hback := halone.putBack hc (ho.alone.sound.sorted a c ho.alone.content)
  refine ⟨hback.sound, ?_, halone.keeps_write.subset fun h => List.mem_cons_of_mem x⟩
  have hthere : Value.child? s (Value.setChild s .undefined v) = some .undefined := by
    rw [Value.child?_setChild hu, if_pos rfl]
  have hparent := hkeeps.denotes _ List.mem_cons_self _ hdenotes
  rw [← Value.setChild_setChild hu]
  refine hparent.setChild (x := x) halone.content hthere ?_ ?_ fun h hh u hu => ?_
  · rw [setChild_setChild]
    exact hback.content
  · exact halone.denotes_write (halone.ne_of_mem List.mem_cons_self) hw
  · exact halone.denotes_write (halone.ne_of_child hh) hu

/-- An edit in storage does to the handle what the edit does to its value, and nothing to what is
outside. -/
theorem edit_meets (p : Path) (hs' : H.Sound (h :: (z.operands ++ own))) (hv : H.Denotes v h)
    (hy : H.DenotesOperands y z) :
    (edit z p h H).Meets z.operands own v (Value.edit y.edit p v) ∧
      Keeps H (edit z p h H).heap own := by
  induction p generalizing H h v own with
  | nil => exact change_meets hs' hv hy
  | cons s p ih =>
    rcases stepMut_cases hs' hv s with ⟨e, hstep, hchild⟩ | ⟨c, a, H', hstep, hopened, hchild⟩
    · simp only [edit, hstep, Value.edit_cons_of_error hchild]
      exact ⟨⟨rfl, hs', hv⟩, .refl H own⟩
    rcases hchild with ⟨hc, hchild⟩ | ⟨r, u, hc, hu, hru⟩
    · simp only [edit, hstep, hc, Value.edit_cons_of_error hchild]
      exact ⟨⟨rfl, hopened.alone.sound, hopened.denotes⟩,
        hopened.keeps.subset fun _ => List.mem_append_right _⟩
    · simp only [edit, hstep, hc, Value.edit_cons_of_child? hu]
      obtain ⟨hout, -⟩ := hopened.takeOut hc hu
      have hsound : (H'.setContent a (c.setChild s .undefined)).Sound
          (r :: (z.operands ++ .cell a :: own)) := hout.sound.congr fun b => by
        simp only [List.count_cons, List.count_append]
        omega
      have hchild : (H'.setContent a (c.setChild s .undefined)).Denotes u r :=
        hopened.alone.denotes_write (hopened.alone.ne_of_child (mem_children hc)) hru
      obtain ⟨hmeets, hkeeps⟩ := ih hsound hchild (hopened.denotesOperands hy)
      have hbefore := hopened.keeps_write.trans
        (hkeeps.subset fun h => List.mem_cons_of_mem (Handle.cell a))
      cases hedit : Value.edit y.edit p u with
      | error e =>
        rw [hedit] at hmeets
        obtain ⟨hresult, hsound', hu'⟩ := hmeets
        obtain ⟨hback, hdenotes, hafter⟩ := hopened.putBack hc hu hkeeps hsound' hu'
        rw [Value.setChild_of_child? hu] at hdenotes
        exact ⟨⟨hresult, hback, hdenotes⟩,
          hbefore.trans (hafter.subset fun h => List.mem_append_right _)⟩
      | ok done =>
        obtain ⟨w, taken⟩ := done
        rw [hedit] at hmeets
        obtain ⟨old, hresult, hsound', hw, hold⟩ := hmeets
        obtain ⟨hback, hdenotes, hafter⟩ := hopened.putBack hc hu hkeeps hsound' hw
        refine ⟨⟨old, hresult, hback, hdenotes, ?_⟩,
          hbefore.trans (hafter.subset fun h => List.mem_append_right _)⟩
        cases hold with
        | none => exact .none
        | some hr =>
          exact .some (hafter.denotes _ (List.mem_append_left own List.mem_cons_self) _ hr)

end Changes

end DataShape.Heap
