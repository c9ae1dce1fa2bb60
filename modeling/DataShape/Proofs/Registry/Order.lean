import DataShape.Proofs.Descriptor.Rebound
import DataShape.Proofs.Registry.Definitions

/-!
# The order of definitions

Names that are defined in turn in an empty registry (`Registries.defineAll`) see only
the definitions before them, so a cycle is found by whichever of its names comes last.
That there is one at all does not depend on the order : each definition succeeds if and
only if the definitions so far, this one included, have no cycle
(`Registries.Holds.exists_define_iff`), and so all of them succeed if and only if the
whole list has none (`Registries.Holds.exists_defineAll_iff`).

What is registered in the end are the names of the list with their definitions
(`Registries.Holds`). The checkers of two such registries are alike, so whatever is
compiled for them accepts the same values (`definitions_in_any_order`).
-/

namespace DataShape

open Relation

/-- The first name has a definition in the list, and the second is an unguarded reference of it. -/
def Refers (ds : List (String × Descriptor)) (n m : String) : Prop :=
  ∃ d, (n, d) ∈ ds ∧ m ∈ d.unguarded

theorem Refers.mono {ds es : List (String × Descriptor)} (h : ds ⊆ es) : Refers ds ≤ Refers es := by
  rintro n m ⟨d, hd, hm⟩
  exact ⟨d, h hd, hm⟩

namespace Registries

/-- Defines names in turn through a handle, as long as each definition succeeds. -/
def defineAll (s : Registries) (handle : String) :
    List (String × Descriptor) → Except DefineError Registries
  | [] => .ok s
  | (name, d) :: ds =>
    match s.define handle name d with
    | (.ok (), s) => defineAll s handle ds
    | (.error e, _) => .error e

variable {s s' : Registries} {handle name : String} {d : Descriptor}

/-! ## The registry of a handle -/

theorem registry_locate (s : Registries) (handle : String) :
    (s.locate handle).2.registry (s.locate handle).1 = s.view handle := by
  unfold locate view
  cases Keyed.get? handle s.handles with
  | some i => rfl
  | none => simp [registry, Keyed.get?_put]

theorem view_store_locate (s : Registries) (handle : String) (r : Registry) :
    ((s.locate handle).2.store (s.locate handle).1 r).view handle = r := by
  have hhandle : Keyed.get? handle (s.locate handle).2.handles = some (s.locate handle).1 := by
    unfold locate
    cases hfound : Keyed.get? handle s.handles with
    | some i => exact hfound
    | none => simp [Keyed.get?_put]
  simp [view, store, hhandle, registry, Keyed.get?_put]

/-- A definition that succeeds is one in the registry of the handle. -/
theorem define_eq_ok (s' : Registries) : s.define handle name d = (.ok (), s') ↔
    ∃ r n, (s.view handle).define (s.locate handle).1 (s.locate handle).2.next name d = .ok (r, n) ∧
      s' = { (s.locate handle).2.store (s.locate handle).1 r with next := n } := by
  unfold define
  simp only [registry_locate]
  cases (s.view handle).define (s.locate handle).1 (s.locate handle).2.next name d with
  | ok r =>
    obtain ⟨r, n⟩ := r
    simp [eq_comm, and_comm]
  | error e => simp

theorem exists_define_ok : (∃ s', s.define handle name d = (.ok (), s')) ↔
    (s.view handle).cycle? name d = none ∧ Text.isBlank name = false ∧
      (s.view handle).get? name = none := by
  simp only [define_eq_ok, Registry.define_eq_ok]
  exact ⟨fun ⟨_, _, _, ⟨hcycle, hblank, hget, _⟩, _⟩ => ⟨hcycle, hblank, hget⟩,
    fun ⟨hcycle, hblank, hget⟩ => ⟨_, _, _, ⟨hcycle, hblank, hget, rfl, rfl⟩, rfl⟩⟩

theorem define_view (h : s.define handle name d = (.ok (), s')) :
    ∃ i n n', (s.view handle).define i n name d = .ok (s'.view handle, n') := by
  obtain ⟨r, n, hr, rfl⟩ := (define_eq_ok s').1 h
  have hview : ((s.locate handle).2.store (s.locate handle).1 r).view handle = r :=
    view_store_locate s handle r
  refine ⟨_, _, n, hr.trans ?_⟩
  exact congrArg (fun r => Except.ok (r, n)) hview.symm

/-! ## Registries filled by a list of definitions -/

/-- The registry of a handle has these definitions and no other names. -/
structure Holds (s : Registries) (handle : String) (ds : List (String × Descriptor)) : Prop where
  definitions : ∀ name d, (s.view handle).definition? name = some d ↔ (name, d) ∈ ds
  described : (s.view handle).Described

variable {held : List Checker} {ds es : List (String × Descriptor)}

theorem holds_nil (h : s.view handle = .empty) : s.Holds handle [] where
  definitions name d := by simp [h, Registry.empty, Registry.definition?, Keyed.get?]
  described name c hc := by simp [h, Registry.empty, Registry.get?, Keyed.get?] at hc

theorem Holds.leadsTo_eq (h : s.Holds handle ds) : (s.view handle).LeadsTo = Refers ds := by
  funext n m
  exact propext (exists_congr fun d => and_congr_left' (h.definitions n d))

theorem Holds.contains_iff (h : s.Holds handle ds)
    (hsound : (s.view handle).Sound (s.locate handle).1) (name : String) :
    (s.view handle).contains name = true ↔ name ∈ Keyed.keys ds := by
  rw [Registry.contains_eq_true]
  constructor
  · rintro ⟨c, hc⟩
    obtain ⟨d, hd⟩ := h.described name c hc
    exact List.mem_map_of_mem (f := Prod.fst) ((h.definitions name d).1 hd)
  · intro hname
    obtain ⟨⟨n, d⟩, hmem, rfl⟩ := List.mem_map.1 hname
    obtain ⟨n', hn⟩ := hsound.compiled n d ((h.definitions n d).2 hmem)
    exact ⟨_, hn⟩

theorem sound_view {allowed : Usage → Action → Prop} (hu : Usage.Reachable allowed ⟨s, held⟩)
    (handle : String) : (s.view handle).Sound (s.locate handle).1 := by
  have hlocated : (Usage.act ⟨s, held⟩ (.deferred handle "")).Reachable fun _ _ => True :=
    (hu.mono fun _ _ _ => trivial).act trivial
  rw [← registry_locate]
  exact hlocated.sound.registry Registry.sound_empty _

theorem Holds.acyclic (h : s.Holds handle ds) (hu : Usage.Reachable Usage.Composes ⟨s, held⟩)
    (n : String) : ¬ TransGen (Refers ds) n n :=
  h.leadsTo_eq ▸ (sound_view hu handle).acyclic n

theorem Holds.define (h : s.Holds handle ds) (hname : name ∉ Keyed.keys ds)
    (hdefine : s.define handle name d = (.ok (), s')) : s'.Holds handle (ds ++ [(name, d)]) := by
  obtain ⟨i, n, n', hr⟩ := define_view hdefine
  have hdescribed : (s'.view handle).Described :=
    h.described.step (u := .empty) (a := .define handle name d) trivial (.define hr)
  refine ⟨fun x e => ?_, hdescribed⟩
  rw [Registry.definition?_of_define hr, List.mem_append, List.mem_singleton, Prod.mk.injEq]
  by_cases hx : name = x
  · subst hx
    have hnew : (name, e) ∉ ds := fun hmem => hname (List.mem_map_of_mem (f := Prod.fst) hmem)
    simp [hnew, eq_comm]
  · simp [hx, Ne.symm hx, h.definitions]

/-! ## Defining names in turn -/

theorem reachable_define (hu : Usage.Reachable Usage.Composes ⟨s, held⟩)
    (hdefine : s.define handle name d = (.ok (), s')) :
    Usage.Reachable Usage.Composes ⟨s', held⟩ := by
  have hact : Usage.act ⟨s, held⟩ (.define handle name d) = ⟨s', held⟩ := by
    simp [Usage.act, act, hdefine]
  exact hact ▸ hu.act trivial

/-- A further definition succeeds exactly if the definitions have no cycle with it. -/
theorem Holds.exists_define_iff (h : s.Holds handle ds)
    (hu : Usage.Reachable Usage.Composes ⟨s, held⟩) (hname : name ∉ Keyed.keys ds)
    (hblank : Text.isBlank name = false) :
    (∃ s', s.define handle name d = (.ok (), s')) ↔
      ∀ n, ¬ TransGen (Refers (ds ++ [(name, d)])) n n := by
  constructor
  · rintro ⟨s', hs'⟩
    exact (h.define hname hs').acyclic (reachable_define hu hs')
  · intro hacyclic
    refine exists_define_ok.2 ⟨Registry.cycle?_eq_none_iff.2 fun m hm hreach => ?_, hblank, ?_⟩
    · -- The way back to the name goes along earlier definitions.
      rw [h.leadsTo_eq] at hreach
      have hback : ReflTransGen (Refers (ds ++ [(name, d)])) m name :=
        ReflTransGen.mono (Refers.mono (List.subset_append_left ..)) _ _ hreach
      exact hacyclic name (.head' ⟨d, by simp, hm⟩ hback)
    · refine Option.eq_none_iff_forall_ne_some.2 fun c hc => hname ?_
      obtain ⟨e, he⟩ := h.described name c hc
      exact List.mem_map_of_mem (f := Prod.fst) ((h.definitions name e).1 he)

theorem defineAll_cons_eq_ok : s.defineAll handle ((name, d) :: ds) = .ok s' ↔
    ∃ s₁, s.define handle name d = (.ok (), s₁) ∧ s₁.defineAll handle ds = .ok s' := by
  rw [Registries.defineAll]
  rcases s.define handle name d with ⟨_ | _, s₁⟩ <;> simp

theorem notMem_keys_of_nodup {e : String × Descriptor}
    (h : (Keyed.keys (ds ++ e :: es)).Nodup) : e.1 ∉ Keyed.keys ds := by
  rw [Keyed.keys, List.map_append, List.nodup_append] at h
  exact fun hmem => h.2.2 e.1 hmem e.1 List.mem_cons_self rfl

/-- What the definitions of a list lead to, if all of them succeed. -/
theorem Holds.defineAll : ∀ {es ds : List (String × Descriptor)} {s : Registries},
    s.Holds handle ds → Usage.Reachable Usage.Composes ⟨s, held⟩ → (Keyed.keys (ds ++ es)).Nodup →
      s.defineAll handle es = .ok s' →
        s'.Holds handle (ds ++ es) ∧ Usage.Reachable Usage.Composes ⟨s', held⟩
  | [], ds, s, h, hu, _, hs => by
    obtain rfl := Except.ok.inj hs
    exact ⟨(List.append_nil ds).symm ▸ h, hu⟩
  | (name, d) :: es, ds, s, h, hu, hnodup, hs => by
    obtain ⟨s₁, hs₁, hs⟩ := defineAll_cons_eq_ok.1 hs
    have h₁ := h.define (notMem_keys_of_nodup hnodup) hs₁
    rw [List.append_cons] at hnodup ⊢
    exact h₁.defineAll (reachable_define hu hs₁) hnodup hs

/-- All definitions of a list succeed exactly if they have no cycle together with the earlier
ones. -/
theorem Holds.exists_defineAll_iff (h : s.Holds handle ds)
    (hu : Usage.Reachable Usage.Composes ⟨s, held⟩) (hnodup : (Keyed.keys (ds ++ es)).Nodup)
    (hblank : ∀ name ∈ Keyed.keys es, Text.isBlank name = false) :
    (∃ s', s.defineAll handle es = .ok s') ↔ ∀ n, ¬ TransGen (Refers (ds ++ es)) n n := by
  constructor
  · rintro ⟨s', hs'⟩
    obtain ⟨h', hu'⟩ := h.defineAll hu hnodup hs'
    exact h'.acyclic hu'
  · intro hacyclic
    induction es generalizing s ds with
    | nil => exact ⟨s, rfl⟩
    | cons e es ih =>
      obtain ⟨name, d⟩ := e
      obtain ⟨hname, hblank⟩ := List.forall_mem_cons.1 hblank
      have hnew := notMem_keys_of_nodup hnodup
      rw [List.append_cons] at hnodup hacyclic
      have hfirst : ∀ n, ¬ TransGen (Refers (ds ++ [(name, d)])) n n := fun n hn =>
        hacyclic n (TransGen.mono (Refers.mono (List.subset_append_left ..)) _ _ hn)
      obtain ⟨s₁, hs₁⟩ := (h.exists_define_iff hu hnew hname).2 hfirst
      obtain ⟨s', hs'⟩ := ih (h.define hnew hs₁) (reachable_define hu hs₁) hnodup hblank hacyclic
      exact ⟨s', defineAll_cons_eq_ok.2 ⟨s₁, hs₁, hs'⟩⟩

/-! ## Checks against such registries -/

/-- What is found once something is compiled for the registry of a handle. -/
theorem get?_compile {allowed : Usage → Action → Prop} (hu : Usage.Reachable allowed ⟨s, held⟩)
    (name : String) : Keyed.get? (.entry (s.locate handle).1 name)
      (s.compile handle d).2.environment = (s.view handle).get? name := by
  have hcompiled : (Usage.act ⟨s, held⟩ (.compile handle d)).Reachable fun _ _ => True :=
    (hu.mono fun _ _ _ => trivial).act trivial
  rw [← registry_locate]
  exact get?_environment hcompiled.distinct _ name

/-- Related addresses : the same name in two registries. -/
def SameName (i j : Nat) (a b : Address) : Prop :=
  ∃ name, a = .entry i name ∧ b = .entry j name

/-- A name with the same definition in two registries leads to alike checkers, if the names that the
definition refers to are related. -/
theorem exists_alike {s₁ s₂ : Registries} {handle₁ handle₂ name : String}
    {held₁ held₂ : List Checker} (hu₁ : Usage.Reachable Usage.Composes ⟨s₁, held₁⟩)
    (hu₂ : Usage.Reachable Usage.Composes ⟨s₂, held₂⟩) {e : Descriptor}
    (he₁ : (s₁.view handle₁).definition? name = some e)
    (he₂ : (s₂.view handle₂).definition? name = some e) {σ : Address → Address → Prop}
    (hσ : ∀ x ∈ e.allReferences,
      σ (.entry (s₁.locate handle₁).1 x) (.entry (s₂.locate handle₂).1 x)) {c : Checker}
    (hc : (s₁.view handle₁).get? name = some c) :
    ∃ d, (s₂.view handle₂).get? name = some d ∧ Alike σ c d := by
  obtain ⟨n, hn⟩ := (sound_view hu₁ handle₁).compiled name e he₁
  obtain rfl := Option.some.inj (hc.symm.trans hn)
  obtain ⟨m, hm⟩ := (sound_view hu₂ handle₂).compiled name e he₂
  exact ⟨_, hm, Descriptor.alike_compile e n m hσ⟩

theorem Holds.carries {s₁ s₂ : Registries} {handle₁ handle₂ : String} {held₁ held₂ : List Checker}
    (h₁ : s₁.Holds handle₁ ds) (h₂ : s₂.Holds handle₂ es)
    (hu₁ : Usage.Reachable Usage.Composes ⟨s₁, held₁⟩)
    (hu₂ : Usage.Reachable Usage.Composes ⟨s₂, held₂⟩) (hsub : ds ⊆ es) (d : Descriptor) :
    Environment.Carries (SameName (s₁.locate handle₁).1 (s₂.locate handle₂).1)
      (s₁.compile handle₁ d).2.environment (s₂.compile handle₂ d).2.environment := by
  rintro a b c ⟨name, rfl, rfl⟩ hc
  rw [get?_compile hu₁] at hc
  rw [get?_compile hu₂]
  obtain ⟨e, he⟩ := h₁.described name c hc
  have he₂ := (h₂.definitions name e).2 (hsub ((h₁.definitions name e).1 he))
  exact exists_alike hu₁ hu₂ he he₂ (fun x _ => ⟨x, rfl, rfl⟩) hc

end Registries

/-- A checker that was handed out accepts what the rules of acceptance say. -/
theorem Usage.Reachable.accepts_iff {u : Usage} (hu : u.Reachable Usage.Composes) {c : Checker}
    (hc : c ∈ u.held) (v : Value) :
    u.registries.environment.accepts c v = true ↔ Accepts u.registries.environment c v := by
  obtain ⟨known, horderly⟩ := hu.orderly fun _ _ ha => ha
  have hempty : Stack.ClearFrom [] .root := fun e he => nomatch he
  exact checkAt_iff_accepts horderly.registries.coherent horderly.registries.environment
    (horderly.held c hc) .root v hempty

namespace Registries

/-- What was compiled accepts what the rules of acceptance say. -/
theorem compile_accepts_iff {s : Registries} {held : List Checker}
    (hu : Usage.Reachable Usage.Composes ⟨s, held⟩) (handle : String) (d : Descriptor) (v : Value) :
    (s.compile handle d).2.environment.accepts (s.compile handle d).1 v = true ↔
      Accepts (s.compile handle d).2.environment (s.compile handle d).1 v := by
  have hcompiled : (Usage.act ⟨s, held⟩ (.compile handle d)).Reachable Usage.Composes :=
    hu.act trivial
  exact hcompiled.accepts_iff List.mem_cons_self v

/-- Registries that have the definitions accept alike. -/
theorem Holds.accepts_of_subset {s₁ s₂ : Registries} {handle₁ handle₂ : String}
    {held₁ held₂ : List Checker} {ds es : List (String × Descriptor)}
    (h₁ : s₁.Holds handle₁ ds) (h₂ : s₂.Holds handle₂ es)
    (hu₁ : Usage.Reachable Usage.Composes ⟨s₁, held₁⟩)
    (hu₂ : Usage.Reachable Usage.Composes ⟨s₂, held₂⟩) (hsub : ds ⊆ es) (d : Descriptor) (v : Value)
    (h : (s₁.compile handle₁ d).2.environment.accepts (s₁.compile handle₁ d).1 v = true) :
    (s₂.compile handle₂ d).2.environment.accepts (s₂.compile handle₂ d).1 v = true := by
  rw [compile_accepts_iff hu₁] at h
  rw [compile_accepts_iff hu₂]
  exact h.of_alike (h₁.carries h₂ hu₁ hu₂ hsub d)
    (Descriptor.alike_compile d _ _ fun name _ => ⟨name, rfl, rfl⟩)

end Registries

/-- A list of definitions for distinct names, none of them blank, succeeds in an empty registry
exactly if the unguarded references of the whole list have no cycle, and so in every order. In the
end the same names are registered, and every descriptor compiled for the one registry or the other
accepts the same values. -/
theorem definitions_in_any_order {u₁ u₂ : Usage} (hu₁ : u₁.Reachable Usage.Composes)
    (hu₂ : u₂.Reachable Usage.Composes) {handle₁ handle₂ : String}
    (hempty₁ : u₁.registries.view handle₁ = .empty) (hempty₂ : u₂.registries.view handle₂ = .empty)
    {ds es : List (String × Descriptor)} (hperm : ds.Perm es) (hnodup : (Keyed.keys ds).Nodup)
    (hblank : ∀ name ∈ Keyed.keys ds, Text.isBlank name = false) :
    ((∃ s, u₁.registries.defineAll handle₁ ds = .ok s) ↔ ∀ n, ¬ TransGen (Refers ds) n n) ∧
      ((∃ s, u₂.registries.defineAll handle₂ es = .ok s) ↔ ∀ n, ¬ TransGen (Refers ds) n n) ∧
      ∀ s₁ s₂, u₁.registries.defineAll handle₁ ds = .ok s₁ →
        u₂.registries.defineAll handle₂ es = .ok s₂ →
        (∀ name, (s₁.view handle₁).contains name = (s₂.view handle₂).contains name) ∧
          ∀ d v, (s₁.compile handle₁ d).2.environment.accepts (s₁.compile handle₁ d).1 v =
            (s₂.compile handle₂ d).2.environment.accepts (s₂.compile handle₂ d).1 v := by
  have hnil₁ := Registries.holds_nil hempty₁
  have hnil₂ := Registries.holds_nil hempty₂
  have hkeys : (Keyed.keys ds).Perm (Keyed.keys es) := hperm.map Prod.fst
  have hnodup₂ : (Keyed.keys es).Nodup := hkeys.nodup_iff.1 hnodup
  have hrefers : Refers es = Refers ds :=
    le_antisymm (Refers.mono hperm.symm.subset) (Refers.mono hperm.subset)
  refine ⟨hnil₁.exists_defineAll_iff hu₁ hnodup hblank, ?_, ?_⟩
  · rw [← hrefers]
    exact hnil₂.exists_defineAll_iff hu₂ hnodup₂ fun name hname =>
      hblank name (hkeys.mem_iff.2 hname)
  · intro s₁ s₂ hs₁ hs₂
    obtain ⟨h₁, hr₁⟩ := hnil₁.defineAll hu₁ hnodup hs₁
    obtain ⟨h₂, hr₂⟩ := hnil₂.defineAll hu₂ hnodup₂ hs₂
    refine ⟨fun name => ?_, fun d v => ?_⟩
    · rw [Bool.eq_iff_iff, h₁.contains_iff (Registries.sound_view hr₁ handle₁),
        h₂.contains_iff (Registries.sound_view hr₂ handle₂)]
      exact hkeys.mem_iff
    · rw [Bool.eq_iff_iff]
      exact ⟨h₁.accepts_of_subset h₂ hr₁ hr₂ hperm.subset d v,
        h₂.accepts_of_subset h₁ hr₂ hr₁ hperm.symm.subset d v⟩

/-- Two names that refer to each other, one of them from below an array. They are defined in one
registry, and the other way round in a second one beside it. -/
theorem two_definitions_in_any_order :
    let ds : List (String × Descriptor) :=
      [("tree", .any [.ref "forest", .kind .null]), ("forest", .nullable (.array (.ref "tree")))]
    let u := Usage.empty.act (.define "global" "forest" (.kind .string))
    (Keyed.keys ds).Nodup ∧ ∃ s₁ s₂, Registries.empty.defineAll "global" ds = .ok s₁ ∧
      u.registries.defineAll "other" ds.reverse = .ok s₂ ∧
      ∀ d v, (s₁.compile "global" d).2.environment.accepts (s₁.compile "global" d).1 v =
        (s₂.compile "other" d).2.environment.accepts (s₂.compile "other" d).1 v := by
  intro ds u
  have hnodup : (Keyed.keys ds).Nodup := by decide
  have hblank : ∀ name ∈ Keyed.keys ds, Text.isBlank name = false := by decide
  have hu : u.Reachable Usage.Composes := .act .start trivial
  have hglobal : Usage.empty.registries.view "global" = .empty := rfl
  have hother : u.registries.view "other" = .empty := rfl
  obtain ⟨hfirst, hsecond, hsame⟩ := definitions_in_any_order .start hu hglobal hother
    (List.reverse_perm ds).symm hnodup hblank
  obtain ⟨s₁, hs₁⟩ : ∃ s, Registries.empty.defineAll "global" ds = .ok s := ⟨_, rfl⟩
  obtain ⟨s₂, hs₂⟩ := hsecond.2 (hfirst.1 ⟨s₁, hs₁⟩)
  exact ⟨hnodup, s₁, s₂, hs₁, hs₂, (hsame s₁ s₂ hs₁ hs₂).2⟩

end DataShape
