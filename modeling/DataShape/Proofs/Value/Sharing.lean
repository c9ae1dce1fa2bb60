import DataShape.Proofs.Value.Store

/-!
# Shared parts

In a store a place is a name and a path. An action spares a place if it writes under another name or
its place parts from that path (`Workspace.Action.Spares`), and actions that spare a place, each
when its turn comes, leave there what can be read (`Store.Represents.read?_run`). A copy is a place,
and so is the value it was copied from : they share their cells, but neither shows what is done to
the other.

Main statement : `edits_change_one_place`.
-/

namespace DataShape

open Value (EditError childToEdit)
open Workspace (Operand)

namespace Store

variable {s : Store} {w : Workspace} {name : String} {p q : Path} {x : Operand} {u v : Value}
  {a : Workspace.Action} {actions : List Workspace.Action} {c : Change Operand}
  {old : Option Value} {e : EditError}

/-- The value that is put in. -/
def value? (s : Store) : Operand → Option Value
  | .fresh v => some v
  | .part name p => s.read? name p

/-- Each of the actions, when its turn comes, spares the place. -/
def Spared (s : Store) (name : String) (q : Path) : List Workspace.Action → Prop
  | [] => True
  | a :: actions => a.Ordered ∧ a.Spares name q s.read? ∧ (s.act a).2.Spared name q actions

theorem Represents.value (hr : s.Represents w) (hx : s.value? x = some u) : w.value x = .ok u := by
  cases x with
  | fresh v => exact congrArg Except.ok (Option.some.inj hx)
  | part name p =>
    rw [value?, hr.read?, Workspace.read?] at hx
    obtain ⟨v, hv, rfl⟩ := Option.map_eq_some_iff.1 hx
    rw [Workspace.value, Workspace.get, hv]
    rfl

theorem Represents.read?_act (hr : s.Represents w) (ha : a.Ordered)
    (h : a.Spares name q s.read?) : (s.act a).2.read? name q = s.read? name q := by
  rw [(hr.act ha).2.read?, hr.read?]
  exact Workspace.read?_act (funext₂ hr.read? ▸ h)

/-- A place reads the same after any number of actions that spare it. -/
theorem Represents.read?_run (hr : s.Represents w) (h : s.Spared name q actions) :
    (s.run actions).read? name q = s.read? name q := by
  induction actions generalizing s w with
  | nil => rfl
  | cons a actions ih =>
    obtain ⟨ha, hspares, hrest⟩ := h
    exact (ih (hr.act ha).2 hrest).trans (hr.read?_act ha hspares)

theorem Represents.read?_act_of_error (hr : s.Represents w) (ha : a.Ordered)
    (h : (s.act a).1 = .error e) (name : String) (q : Path) :
    (s.act a).2.read? name q = s.read? name q := by
  rw [(hr.act ha).1] at h
  rw [(hr.act ha).2.read?, hr.read?, Workspace.act_of_error h]

theorem Represents.read?_act_set (hr : s.Represents w) (hx : x.Ordered)
    (hu : s.value? x = some u) (q : Path) :
    (s.act (.set name x)).2.read? name q = some (u.follow q) := by
  rw [(hr.act (a := .set name x) hx).2.read?, Workspace.act, hr.value hu]
  exact Workspace.read?_set_self w name u q

theorem ordered_of_operands (hc : c.operands = [x]) (hx : x.Ordered) :
    (Workspace.Action.edit name p c).Ordered := fun y hy => by
  rw [hc] at hy
  exact List.mem_singleton.1 hy ▸ hx

/-- What is put in by a change stands at its place. -/
theorem Represents.read?_act_edit (hr : s.Represents w) (hx : x.Ordered) (hc : c.operands = [x])
    (hu : s.value? x = some u) (hv : s.read? name p = some v)
    (h : (s.act (.edit name p c)).1 = .ok old) (q : Path) :
    (s.act (.edit name p c)).2.read? name (p ++ c.place v ++ q) = some (u.follow q) := by
  obtain ⟨hresult, hafter⟩ := hr.act (a := .edit name p c) (ordered_of_operands hc hx)
  obtain ⟨v', y, v'', hv', hy, hedit, hslot⟩ := Workspace.act_edit_eq_ok (hresult ▸ h)
  obtain ⟨u', z, hu', hchange, hrewritten⟩ := Value.rewritten_of_edit hedit
  rw [hr.read?, Workspace.read?, hv', Option.map_some, Value.follow_of_reach? hu'] at hv
  obtain rfl := Option.some.inj hv
  rw [hafter.read?, hslot, Workspace.read?_set_self, List.append_assoc, hrewritten.within,
    ← Workspace.place_of_prepare hy,
    Value.follow_operand hchange (Workspace.operands_of_prepare hy hc (hr.value hu))]

theorem Represents.get?_of_read? (hr : s.Represents w) (hv : s.read? name [] = some v) :
    w.get? name = some v := by
  rw [hr.read?] at hv
  obtain ⟨v', hv', rfl⟩ := Option.map_eq_some_iff.1 hv
  exact hv'

/-- To replace a value is to walk along the path. -/
theorem Represents.act_replace (hr : s.Represents w) (hx : x.Ordered) (hu : s.value? x = some u)
    (hv : s.read? name [] = some v) :
    (s.act (.edit name p (.replace x))).1 =
      (Value.edit (Value.Edit.replace u) p v).map Prod.snd := by
  rw [(hr.act (a := .edit name p (.replace x)) (ordered_of_operands rfl hx)).1, Workspace.act,
    Workspace.get, hr.get?_of_read? hv, Workspace.prepare, hr.value hu]
  simp only [Except.map, Change.edit]
  cases Value.edit (.replace u) p v <;> rfl

theorem Represents.replace_eq_ok_iff (hr : s.Represents w) (hx : x.Ordered)
    (hu : s.value? x = some u) (hv : s.read? name [] = some v) :
    (s.act (.edit name p (.replace x))).1 = .ok old ↔ ∃ y, v.reach? p = some y ∧ old = some y := by
  rw [hr.act_replace hx hu hv, ← Value.edit_replace_eq_ok_iff (x := u)]
  cases Value.edit (.replace u) p v <;> simp [Except.map, Prod.ext_iff]

/-- It fails at the first step that leads nowhere. -/
theorem Represents.replace_eq_error_iff (hr : s.Represents w) (hx : x.Ordered)
    (hu : s.value? x = some u) (hv : s.read? name [] = some v) :
    (s.act (.edit name p (.replace x))).1 = .error e ↔ ∃ pre t post y, p = pre ++ t :: post ∧
      v.reach? pre = some y ∧ childToEdit t y = .error e := by
  rw [hr.act_replace hx hu hv, ← Value.edit_replace_eq_error_iff (x := u)]
  cases Value.edit (.replace u) p v <;> simp [Except.map]

/-- What is replaced is what the path reads. -/
theorem Represents.eq_read?_of_replace (hr : s.Represents w) (hx : x.Ordered)
    (hu : s.value? x = some u) (h : (s.act (.edit name p (.replace x))).1 = .ok old) :
    ∃ y, s.read? name p = some y ∧ old = some y := by
  have hstep := (hr.act (a := .edit name p (.replace x)) (ordered_of_operands rfl hx)).1
  obtain ⟨v, -, -, hv, -⟩ := Workspace.act_edit_eq_ok (hstep ▸ h)
  have hread : ∀ q, s.read? name q = some (v.follow q) := fun q => by
    rw [hr.read?, Workspace.read?, hv, Option.map_some]
  obtain ⟨y, hy, rfl⟩ := (hr.replace_eq_ok_iff hx hu (hread [])).1 h
  exact ⟨y, (hread p).trans (congrArg some (Value.follow_of_reach? hy)), rfl⟩

end Store

/-! ## Places -/

/-- An edit through a path changes the place at its end and nothing else, whatever is shared. A
store looks like a workspace, where nothing is. To replace a value succeeds if every step of the
path leads somewhere, and otherwise all places read as before. The value that is replaced is what
the path reads ; then paths through the place read what is there now, and paths that part from it
and all other names read what they did. So no copy shows what is done elsewhere : under another name
or inside a container, it reads like what was copied, after any number of actions that spare it. -/
theorem edits_change_one_place (before : List Workspace.Action)
    (hbefore : ∀ a ∈ before, a.Ordered) :
    let s := Store.empty.run before
    s.workspace = Workspace.empty.run before ∧
    (∀ (name : String) (p : Path) (x : Operand) (u v : Value), x.Ordered → s.value? x = some u →
      s.read? name [] = some v →
      ((∃ old, (s.act (.edit name p (.replace x))).1 = .ok old) ↔
        ∀ pre t post, p = pre ++ t :: post → ∃ u, (v.follow pre).child? t = some u) ∧
      ∀ e, (s.act (.edit name p (.replace x))).1 = .error e →
        ∃ pre t post u, p = pre ++ t :: post ∧ v.reach? pre = some u ∧
          childToEdit t u = .error e) ∧
    (∀ (a : Workspace.Action) (e : EditError), a.Ordered → (s.act a).1 = .error e →
      ∀ name q, (s.act a).2.read? name q = s.read? name q) ∧
    (∀ (name : String) (p : Path) (x : Operand) (u : Value) (old : Option Value), x.Ordered →
      s.value? x = some u → (s.act (.edit name p (.replace x))).1 = .ok old →
      old = s.read? name p ∧
      (∀ q, (s.act (.edit name p (.replace x))).2.read? name (p ++ q) = some (u.follow q)) ∧
      (∀ q, p.Part q →
        (s.act (.edit name p (.replace x))).2.read? name q = s.read? name q) ∧
      ∀ other q, other ≠ name →
        (s.act (.edit name p (.replace x))).2.read? other q = s.read? other q) ∧
    (∀ (name : String) (q : Path) (actions : List Workspace.Action), s.Spared name q actions →
      (s.run actions).read? name q = s.read? name q) ∧
    (∀ (target : String) (x : Operand) (u : Value) (q : Path) (actions : List Workspace.Action),
      x.Ordered → s.value? x = some u → (s.act (.set target x)).2.Spared target q actions →
      (s.run (.set target x :: actions)).read? target q = some (u.follow q)) ∧
    ∀ (name : String) (p : Path) (c : Change Operand) (x : Operand) (u v : Value)
      (old : Option Value) (q : Path) (actions : List Workspace.Action), x.Ordered →
      c.operands = [x] → s.value? x = some u → s.read? name p = some v →
      (s.act (.edit name p c)).1 = .ok old →
      (s.act (.edit name p c)).2.Spared name (p ++ c.place v ++ q) actions →
      (s.run (.edit name p c :: actions)).read? name (p ++ c.place v ++ q) =
        some (u.follow q) := by
  intro s
  have hr : s.Represents (Workspace.empty.run before) := Store.represents_empty.run hbefore
  refine ⟨hr.workspace_eq, fun name p x u v hx hu hv => ⟨?_, fun e => ?_⟩,
    fun a e ha he => hr.read?_act_of_error ha he, fun name p x u old hx hu hold => ?_,
    fun name q actions => hr.read?_run, fun target x u q actions hx hu hspared => ?_,
    fun name p c x u v old q actions hx hc hu hv hold hspared => ?_⟩
  · rw [← Value.exists_reach?_iff]
    constructor
    · rintro ⟨old, hold⟩
      obtain ⟨y, hy, -⟩ := (hr.replace_eq_ok_iff hx hu hv).1 hold
      exact ⟨y, hy⟩
    · rintro ⟨y, hy⟩
      exact ⟨some y, (hr.replace_eq_ok_iff hx hu hv).2 ⟨y, hy, rfl⟩⟩
  · exact (hr.replace_eq_error_iff hx hu hv).1
  · have ha : (Workspace.Action.edit name p (.replace x)).Ordered :=
      Store.ordered_of_operands rfl hx
    obtain ⟨y, hy, rfl⟩ := hr.eq_read?_of_replace hx hu hold
    refine ⟨hy.symm, fun q => ?_, fun q hpart => ?_, fun other q hne => ?_⟩
    · simpa [Change.place] using hr.read?_act_edit hx rfl hu hy hold q
    · exact hr.read?_act ha fun _ u _ => (List.append_nil p).symm ▸ hpart
    · exact hr.read?_act ha fun heq => absurd heq.symm hne
  · have hstep := (hr.act (a := .set target x) hx).2
    exact (hstep.read?_run hspared).trans (hr.read?_act_set hx hu q)
  · have hstep := (hr.act (a := .edit name p c) (Store.ordered_of_operands hc hx)).2
    exact (hstep.read?_run hspared).trans (hr.read?_act_edit hx hc hu hv hold q)

/-- One part of a value is copied to another name or put at a second place, so that both share a
cell, and then edited where it was : the copies still read as before. -/
theorem shared_parts_kept_apart :
    let v := Value.object [("a", .array [.bool true]), ("b", .null)]
    let s := Store.empty.run [.set "v" (.fresh v)]
    let part := Operand.part "v" [.key "a"]
    let edited := Workspace.Action.edit "v" [.key "a", .index 0] (.replace (.fresh .undefined))
    let failing := Workspace.Action.edit "v" [.key "b", .index 0] (.replace part)
    (s.run [.set "copy" part, edited]).read? "copy" [.index 0] = some (.bool true) ∧
      (s.run [.edit "v" [.key "b"] (.replace part), edited]).read? "v" [.key "b", .index 0] =
        some (.bool true) ∧
      (s.run [edited]).read? "v" [.key "b"] = some .null ∧
      (s.act failing).2.read? "v" [.key "a"] = some (.array [.bool true]) := by
  intro v s part edited failing
  have hkeys : ["a", "b"].Pairwise (· < ·) := by decide
  have hbefore : ∀ a ∈ [Workspace.Action.set "v" (.fresh v)], a.Ordered := fun a ha => by
    obtain rfl := List.mem_singleton.1 ha
    exact ⟨hkeys, ⟨trivial, trivial⟩, trivial, trivial⟩
  have hr : s.Represents (Workspace.empty.run [.set "v" (.fresh v)]) :=
    Store.represents_empty.run hbefore
  have hpartOrdered : part.Ordered := trivial
  have hpart : s.value? part = some (.array [.bool true]) := hr.read? "v" [.key "a"]
  have hroot : s.read? "v" [] = some v := hr.read? "v" []
  have hnull : s.read? "v" [.key "b"] = some .null := hr.read? "v" [.key "b"]
  have hplaced : (s.act (.edit "v" [.key "b"] (.replace part))).1 = .ok (some .null) :=
    (hr.replace_eq_ok_iff hpartOrdered hpart hroot).2 ⟨.null, rfl, rfl⟩
  have hfailing : (s.act failing).1 = .error (.access .notArray) :=
    (hr.replace_eq_error_iff hpartOrdered hpart hroot).2
      ⟨[.key "b"], .index 0, [], .null, rfl, rfl, rfl⟩
  have hordered : edited.Ordered := fun x hx => by
    obtain rfl := List.mem_singleton.1 hx
    trivial
  have hapart : ∀ post, Path.Part [.key "a", .index 0] (.key "b" :: post) := fun post =>
    ⟨[], .key "a", .key "b", [.index 0], post, by decide, rfl, rfl⟩
  obtain ⟨-, -, herror, -, hframe, hcopy, hinside⟩ :=
    edits_change_one_place [.set "v" (.fresh v)] hbefore
  refine ⟨?_, ?_, ?_, ?_⟩
  · exact hcopy "copy" part _ [.index 0] [edited] hpartOrdered hpart
      ⟨hordered, fun hname => absurd hname (by decide), trivial⟩
  · exact hinside "v" [.key "b"] (.replace part) part _ .null _ [.index 0] [edited] hpartOrdered
      rfl hpart hnull hplaced ⟨hordered, fun _ _ _ => hapart [.index 0], trivial⟩
  · exact (hframe "v" [.key "b"] [edited] ⟨hordered, fun _ _ _ => hapart [], trivial⟩).trans hnull
  · have hunchanged := herror failing _ (Store.ordered_of_operands rfl hpartOrdered) hfailing
    exact (hunchanged "v" [.key "a"]).trans hpart

end DataShape
