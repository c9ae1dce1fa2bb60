import DataShape.Proofs.Value.Walk
import DataShape.Value.Store

/-!
# Stores and workspaces

A store represents a workspace if under each name there is a handle that stands for the value in the
workspace, and the cells count those handles (`Store.Represents`). An action has the same outcome in
both, and the store represents the workspace afterwards (`Store.Represents.act`), also when
an edit has failed half way. So after any number of actions a store reads like the workspace
(`Store.Represents.run`, `Store.Represents.read?`), although its values share their parts.
-/

namespace DataShape

open Value (EditError)
open Workspace (Operand)

namespace Heap

variable {H H' H'' : Heap} {own hs : List Handle} {h : Handle} {v : Value} {p : Path}

/-! ## Values in new cells -/

/-- Every handle stands for what it stood for. -/
def Extends (H H' : Heap) : Prop :=
  ∀ r w, H.Denotes w r → H'.Denotes w r

theorem Extends.trans (hk : Extends H H') (hk' : Extends H' H'') : Extends H H'' :=
  fun r w hw => hk' r w (hk r w hw)

/-- There is a new handle outside, and it stands for a value. -/
structure Gains (H H' : Heap) (own : List Handle) (h : Handle) (v : Value) : Prop where
  sound : H'.Sound (h :: own)
  denotes : H'.Denotes v h
  extends_ : Extends H H'

theorem Sound.gains_of_scalar (hs : H.Sound own) (hh : ∀ a, h ≠ .cell a) (hv : H.Denotes v h) :
    Gains H H own h v :=
  ⟨hs.congr fun _ => count_cons_of_scalar hh, hv, fun _ _ hw => hw⟩

mutual
theorem build_gains : ∀ (v : Value) {H : Heap} {own : List Handle}, v.Ordered → H.Sound own →
    Gains H (build v H).2 own (build v H).1 v
  | .array vs, H, own, hv, hs => by
    obtain ⟨hsound, hitems, hext⟩ := buildItems_gains vs hv hs
    refine ⟨hsound.alloc (c := .array _) trivial, ?_, hext.trans fun _ _ => Denotes.alloc⟩
    refine (denotes_array_cell content?_alloc_self).2 ?_
    exact forall₂_imp hitems fun _ _ _ _ => Denotes.alloc
  | .object gs, H, own, ⟨hsorted, hv⟩, hs => by
    obtain ⟨hsound, hfields, hext⟩ := buildFields_gains gs hv hs
    refine ⟨hsound.alloc (c := .object _) ?_, ?_, hext.trans fun _ _ => Denotes.alloc⟩
    · rw [Content.Sorted, Fields.Sorted, ← keys_eq_of_forall₂ hfields]
      exact hsorted
    · refine (denotes_object_cell content?_alloc_self).2 ?_
      exact forall₂_imp hfields fun _ _ _ _ hgf => ⟨hgf.1, hgf.2.alloc⟩
  | .null, _, _, _, hs | .bool _, _, _, _, hs | .number _, _, _, _, hs | .string _, _, _, _, hs
  | .undefined, _, _, _, hs => hs.gains_of_scalar (fun _ => nofun) rfl

theorem buildItems_gains : ∀ (vs : List Value) {H : Heap} {own : List Handle},
    Value.OrderedItems vs → H.Sound own →
    (buildItems vs H).2.Sound ((buildItems vs H).1 ++ own) ∧
      List.Forall₂ (buildItems vs H).2.Denotes vs (buildItems vs H).1 ∧
      Extends H (buildItems vs H).2
  | [], _, _, _, hs => ⟨hs, .nil, fun _ _ hw => hw⟩
  | v :: vs, H, own, ⟨hv, hvs⟩, hs => by
    obtain ⟨hsound, hdenotes, hext⟩ := build_gains v hv hs
    obtain ⟨hsound', hitems, hext'⟩ := buildItems_gains vs hvs hsound
    refine ⟨hsound'.congr fun _ => ?_, .cons (hext' _ _ hdenotes) hitems, hext.trans hext'⟩
    exact List.perm_middle.symm.count_eq _

theorem buildFields_gains : ∀ (gs : List (String × Value)) {H : Heap} {own : List Handle},
    Value.OrderedFields gs → H.Sound own →
    (buildFields gs H).2.Sound ((buildFields gs H).1.map Prod.snd ++ own) ∧
      List.Forall₂ (AtKey (buildFields gs H).2.Denotes) gs (buildFields gs H).1 ∧
      Extends H (buildFields gs H).2
  | [], _, _, _, hs => ⟨hs, .nil, fun _ _ hw => hw⟩
  | (k, v) :: gs, H, own, ⟨hv, hgs⟩, hs => by
    obtain ⟨hsound, hdenotes, hext⟩ := build_gains v hv hs
    obtain ⟨hsound', hfields, hext'⟩ := buildFields_gains gs hgs hsound
    refine ⟨hsound'.congr fun _ => ?_, .cons ⟨rfl, hext' _ _ hdenotes⟩ hfields, hext.trans hext'⟩
    exact List.perm_middle.symm.count_eq _
end

/-! ## Copies -/

/-- A step leads in storage to what it leads to in the value. -/
theorem Denotes.child (hv : H.Denotes v h) (s : Step) : H.Denotes (v.child s) (H.child h s) := by
  cases v with
  | array vs | object gs =>
    obtain ⟨a, _, rfl, hc, -⟩ := id hv
    rw [Value.child, Heap.child, hc, Option.bind_some]
    rcases rel_cases (hv.child? hc s) with ⟨hu, hr⟩ | ⟨u, r, hu, hr, hur⟩
    · rw [hu, hr]
      rfl
    · rw [hu, hr]
      exact hur
  | _ =>
    obtain rfl : h = _ := hv
    cases s <;> rfl

/-- A path reads in storage what it reads in the value. -/
theorem Denotes.follow (hv : H.Denotes v h) (p : Path) :
    H.Denotes (v.follow p) (H.follow h p) := by
  induction p generalizing v h with
  | nil => exact hv
  | cons s p ih => exact ih (hv.child s)

/-- To copy a handle is to count one more owner. -/
theorem Sound.gains_retain (hs : H.Sound own) (hv : H.Denotes v h) :
    Gains H (H.retain h) own h v :=
  have hext : Extends H (H.retain h) := fun _ _ hw =>
    hw.of_contents fun _ _ hc => (content?_retain h).trans hc
  ⟨hs.retain hv.live, hext h v hv, hext⟩

end Heap

/-! ## Actions on stores -/

def Workspace.Operand.Ordered : Operand → Prop
  | .fresh v => v.Ordered
  | .part _ _ => True

/-- The objects in the values that are put in are as all values have them, with ascending keys. -/
def Workspace.Action.Ordered : Workspace.Action → Prop
  | .set _ x => x.Ordered
  | .edit _ _ c => ∀ x ∈ c.operands, x.Ordered

namespace Store

variable {s : Store} {w : Workspace} {name : String} {p q : Path} {x : Operand} {h : Handle}
  {H : Heap} {v : Value} {a : Workspace.Action} {c : Change Operand}

/-- Under each name there is a handle that stands for the value in the workspace, and cells count
those handles. -/
structure Represents (s : Store) (w : Workspace) : Prop where
  sound : s.heap.Sound (s.slots.map Prod.snd)
  sorted : Fields.Sorted s.slots
  denotes : List.Forall₂ (AtKey s.heap.Denotes) w.slots s.slots

theorem represents_empty : empty.Represents .empty :=
  ⟨Heap.sound_empty, List.Pairwise.nil, .nil⟩

/-- A store looks like the workspace it represents. -/
theorem Represents.workspace_eq (hr : s.Represents w) : s.workspace = w := by
  refine congrArg Workspace.mk (map_eq_of_forall₂ ?_)
  exact forall₂_imp hr.denotes fun g _ f _ hgf => Prod.ext hgf.1.symm hgf.2.read

theorem Represents.read? (hr : s.Represents w) (name : String) (p : Path) :
    s.read? name p = w.read? name p := by
  rw [Store.read?, Workspace.read?, Workspace.get?]
  rcases rel_cases (Keyed.forall₂_get? name hr.denotes) with ⟨hv, hh⟩ | ⟨v, h, hv, hh, hvh⟩
  · rw [hv, hh]
    rfl
  · rw [hv, hh]
    exact congrArg some (hvh.follow p).read

/-! ## What is put in -/

/-- What can be read somewhere can be put in, and so can a new value. -/
theorem Represents.take (hr : s.Represents w) (hx : x.Ordered) :
    (∃ e, w.value x = .error e ∧ s.take x = .error e) ∨ ∃ v h H, w.value x = .ok v ∧
      s.take x = .ok (h, H) ∧ Heap.Gains s.heap H (s.slots.map Prod.snd) h v := by
  cases x with
  | fresh v => exact Or.inr ⟨v, _, _, rfl, rfl, Heap.build_gains v hx hr.sound⟩
  | part name p =>
    simp only [Workspace.value, Workspace.get, Workspace.get?, take]
    rcases rel_cases (Keyed.forall₂_get? name hr.denotes) with ⟨hv, hh⟩ | ⟨v, h, hv, hh, hvh⟩
    · simp only [hv, hh]
      exact Or.inl ⟨_, rfl, rfl⟩
    · simp only [hv, hh]
      exact Or.inr ⟨_, _, _, rfl, rfl, hr.sound.gains_retain (hvh.follow p)⟩

/-- A change is prepared alike. -/
theorem Represents.prepare (hr : s.Represents w) (hc : ∀ x ∈ c.operands, x.Ordered) :
    (∃ e, w.prepare c = .error e ∧ s.prepare c = .error e) ∨ ∃ y z H, w.prepare c = .ok y ∧
      s.prepare c = .ok (z, H) ∧ H.Sound (z.operands ++ s.slots.map Prod.snd) ∧
      H.DenotesOperands y z ∧ Heap.Extends s.heap H := by
  cases c with
  | pop | remove k =>
    exact Or.inr ⟨_, _, _, rfl, rfl, hr.sound, by trivial, fun _ _ hw => hw⟩
  | replace x | push x | insert k x =>
    simp only [Workspace.prepare, Store.prepare]
    rcases hr.take (hc x List.mem_cons_self) with ⟨e, hv, hh⟩ | ⟨v, h, H, hv, hh, hgains⟩
    · rw [hv, hh]
      exact Or.inl ⟨e, rfl, rfl⟩
    · rw [hv, hh]
      refine Or.inr ⟨_, _, _, rfl, rfl, hgains.sound, ?_, hgains.extends_⟩
      first | exact hgains.denotes | exact ⟨rfl, hgains.denotes⟩

/-! ## Steps -/

theorem Represents.sorted_slots (hr : s.Represents w) : Fields.Sorted w.slots := by
  rw [Fields.Sorted, keys_eq_of_forall₂ hr.denotes]
  exact hr.sorted

/-- A handle is put under a name, and what is not needed any more goes. -/
theorem Represents.put {gone : List Handle} (hr : s.Represents w)
    (hsound : H.Sound (h :: (gone ++ (Keyed.erase name s.slots).map Prod.snd)))
    (hv : H.Denotes v h)
    (hrest : ∀ r ∈ (Keyed.erase name s.slots).map Prod.snd, ∀ u, s.heap.Denotes u r →
      H.Denotes u r) :
    Represents ⟨H.release gone, Fields.insert name h s.slots⟩ (w.set name v) := by
  have hslots : H.Sound (gone ++ (Fields.insert name h s.slots).map Prod.snd) := by
    refine hsound.congr fun b => ?_
    have hinsert := Heap.count_insert hr.sorted name h (.cell b)
    have herase := Heap.count_erase hr.sorted name (.cell b)
    simp only [List.count_append, List.count_cons, List.count_nil] at hinsert ⊢
    omega
  obtain ⟨hsound', hkeeps⟩ := hslots.release
  refine ⟨hsound', Fields.sorted_insert name h hr.sorted, ?_⟩
  have hothers : List.Forall₂ (AtKey H.Denotes) (Keyed.erase name w.slots)
      (Keyed.erase name s.slots) :=
    forall₂_imp (Keyed.forall₂_erase name hr.denotes) fun g _ f hf hgf =>
      ⟨hgf.1, hrest f.2 (List.mem_map_of_mem hf) g.2 hgf.2⟩
  have hall := Fields.forall₂_insert (k := name) hv hothers
  rw [Fields.insert_erase name v hr.sorted_slots, Fields.insert_erase name h hr.sorted] at hall
  exact forall₂_imp hall fun g _ f hf hgf =>
    ⟨hgf.1, hkeeps.denotes _ (List.mem_map_of_mem hf) _ hgf.2⟩

theorem Represents.act_set (hr : s.Represents w) (hx : x.Ordered) :
    (s.act (.set name x)).1 = (w.act (.set name x)).1 ∧
      (s.act (.set name x)).2.Represents (w.act (.set name x)).2 := by
  simp only [Store.act, Workspace.act]
  rcases hr.take hx with ⟨e, hv, hh⟩ | ⟨v, h, H, hv, hh, hgains⟩
  · simp only [hv, hh]
    exact ⟨trivial, hr⟩
  · simp only [hv, hh]
    refine ⟨trivial, hr.put (hgains.sound.congr fun b => ?_) hgains.denotes fun r _ u =>
      hgains.extends_ r u⟩
    have herase := Heap.count_erase hr.sorted name (.cell b)
    simp only [List.count_append, List.count_cons] at herase ⊢
    omega

/-- An edit may fail half way, with containers in new cells by then. They stand for the value that
was there. -/
theorem Represents.act_edit (hr : s.Represents w) (hc : ∀ x ∈ c.operands, x.Ordered) :
    (s.act (.edit name p c)).1 = (w.act (.edit name p c)).1 ∧
      (s.act (.edit name p c)).2.Represents (w.act (.edit name p c)).2 := by
  simp only [Store.act, Workspace.act, Workspace.get, Workspace.get?]
  rcases rel_cases (Keyed.forall₂_get? name hr.denotes) with ⟨hv, hh⟩ | ⟨v, h, hv, hh, hvh⟩
  · simp only [hv, hh]
    exact ⟨trivial, hr⟩
  rcases hr.prepare hc with ⟨e, hw, hs⟩ | ⟨y, z, H, hw, hs, hsound, hy, hext⟩
  · simp only [hv, hh, hw, hs]
    exact ⟨trivial, hr⟩
  simp only [hv, hh, hw, hs]
  have hslot : H.Sound (h :: (z.operands ++ (Keyed.erase name s.slots).map Prod.snd)) :=
    hsound.congr fun b => by
      have herase := Heap.count_erase hr.sorted name (.cell b)
      simp only [hh, Option.toList, List.count_append, List.count_cons, List.count_nil] at herase ⊢
      omega
  obtain ⟨hmeets, hkeeps⟩ := Heap.edit_meets p hslot (hext h v hvh) hy
  have hrest : ∀ r ∈ (Keyed.erase name s.slots).map Prod.snd, ∀ u, s.heap.Denotes u r →
      (H.edit z p h).heap.Denotes u r := fun r hr u hu => hkeeps.denotes r hr u (hext r u hu)
  cases hedit : Value.edit y.edit p v with
  | error e =>
    rw [hedit] at hmeets
    obtain ⟨hresult, hsound', hv'⟩ := hmeets
    have hsame : w.set name v = w :=
      congrArg Workspace.mk (Fields.insert_of_get? hr.sorted_slots hv)
    have hput := hr.put hsound' hv' hrest
    rw [hsame] at hput
    simp only [hresult]
    exact ⟨trivial, hput⟩
  | ok done =>
    obtain ⟨u, taken⟩ := done
    rw [hedit] at hmeets
    obtain ⟨old, hresult, hsound', hu, hold⟩ := hmeets
    simp only [hresult]
    refine ⟨congrArg Except.ok ?_, hr.put hsound' hu hrest⟩
    rcases rel_cases hold with ⟨rfl, rfl⟩ | ⟨u, r, rfl, rfl, hur⟩
    · rfl
    · exact congrArg some hur.read

/-- An action reports the same in both, and leaves a store that represents what it leaves. -/
theorem Represents.act (hr : s.Represents w) (ha : a.Ordered) :
    (s.act a).1 = (w.act a).1 ∧ (s.act a).2.Represents (w.act a).2 := by
  cases a with
  | set name x => exact hr.act_set ha
  | edit name p c => exact hr.act_edit ha

theorem Represents.run {actions : List Workspace.Action} (hr : s.Represents w)
    (h : ∀ a ∈ actions, a.Ordered) : (s.run actions).Represents (w.run actions) := by
  induction actions generalizing s w with
  | nil => exact hr
  | cons a actions ih =>
    obtain ⟨ha, hrest⟩ := List.forall_mem_cons.1 h
    exact ih (hr.act ha).2 hrest

end Store

end DataShape
