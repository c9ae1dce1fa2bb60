import DataShape.Proofs.Check.Finding
import DataShape.Proofs.Registry.Order

/-!
# Registries without unresolved references

The references of a descriptor are collected from the data, whereas lookups are made when it is
compiled and run when a value is checked. The first cover the second : a compiled descriptor asks
the compiled parts of the descriptor and what is found under its references, and nothing else
(`Descriptor.asks_compile`). So if the references of every definition are registered, and those of
the descriptor are, then a check never comes to a name that is not (`Descriptor.complete_compile`).

What is registered has to come from definitions, in this one registry (`Usage.DefinesIn`) ; others
beside it may hold whatever checkers they like, since no definition leads there. Under this rule
nothing is missing in any check of a descriptor without unresolved references
(`resolved_references_are_found`).
-/

namespace DataShape

open Relation

/-! ## What a compiled descriptor asks -/

namespace Descriptor

variable {env : Environment} {i n : Nat} {d : Descriptor} {c : Checker}

theorem references_subset_of_mem {ds : List Descriptor} (h : d ∈ ds) :
    d.allReferences ⊆ allReferencesItems ds := by
  induction ds with
  | nil => cases h
  | cons e ds ih =>
    rcases List.mem_cons.1 h with rfl | h
    · exact List.subset_append_left ..
    · exact fun name hname => List.mem_append_right _ (ih h hname)

theorem references_subset_of_mem_properties {k : String} {ps : List (String × Descriptor)}
    (h : (k, d) ∈ ps) : d.allReferences ⊆ allReferencesProperties ps := by
  induction ps with
  | nil => cases h
  | cons e ps ih =>
    rcases List.mem_cons.1 h with rfl | h
    · exact List.subset_append_left ..
    · exact fun name hname => List.mem_append_right _ (ih h hname)

theorem exists_of_mem_compileItems {ds : List Descriptor} (h : c ∈ (compileItems i ds n).1) :
    ∃ d ∈ ds, ∃ m, c = (d.compile i m).1 := by
  induction ds generalizing n with
  | nil => cases h
  | cons d ds ih =>
    rcases List.mem_cons.1 h with rfl | h
    · exact ⟨d, List.mem_cons_self, n, rfl⟩
    · obtain ⟨e, he, hc⟩ := ih h
      exact ⟨e, List.mem_cons_of_mem _ he, hc⟩

theorem exists_of_mem_compileProperties {ps : List (String × Descriptor)} {k : String}
    {p : Property} (h : (k, p) ∈ (compileProperties i ps n).1) :
    ∃ d, (k, d) ∈ ps ∧ ∃ m, p = (d.compileProperty i m).1 := by
  induction ps generalizing n with
  | nil => cases h
  | cons e ps ih =>
    obtain ⟨l, d⟩ := e
    rw [compileProperties_cons] at h
    rcases List.mem_cons.1 h with heq | h
    · obtain ⟨rfl, rfl⟩ := Prod.mk.inj heq
      exact ⟨d, List.mem_cons_self, n, rfl⟩
    · obtain ⟨e, he, hp⟩ := ih h
      exact ⟨e, List.mem_cons_of_mem _ he, hp⟩

/-- The properties of a compiled object come from those of the descriptor. -/
theorem exists_of_mem_properties {ps : List (String × Descriptor)} {e : DeclaredKey × Property}
    (h : e ∈ (Shape.ofList (compileProperties i ps n).1).properties) :
    ∃ k d, (k, d) ∈ ps ∧ ∃ m, e.2 = (d.compileProperty i m).1 := by
  obtain ⟨k, -, hmem⟩ := mem_properties_ofList h
  exact ⟨k, exists_of_mem_compileProperties hmem⟩

/-- A property yields what is found under the name that it is a reference to, or its descriptor in
compiled form. -/
theorem yields_compileProperty {j : List Event}
    (h : (d.compileProperty i n).1.yields env j = some c) :
    (∃ name, d = ref name ∧ Keyed.get? (.entry i name) env = some c) ∨ c = (d.compile i n).1 := by
  cases d with
  | ref name => exact Or.inl ⟨name, rfl, h⟩
  | _ => exact Or.inr (Option.some.inj h).symm

/-- A compiled descriptor asks compiled descriptors that refer to nothing else, and what is found
under its references. -/
theorem asks_compile (h : Asks env (d.compile i n).1 c) :
    (∃ (e : Descriptor) (m : Nat), e.allReferences ⊆ d.allReferences ∧ c = (e.compile i m).1) ∨
      ∃ name ∈ d.allReferences, Keyed.get? (.entry i name) env = some c := by
  cases d with
  | kind p | literal s => exact nomatch h
  | any ds =>
    cases h with
    | any hc =>
      obtain ⟨e, he, m, rfl⟩ := exists_of_mem_compileItems hc
      exact Or.inl ⟨e, m, references_subset_of_mem he, rfl⟩
  | nullable d =>
    cases h with
    | nullable => exact Or.inl ⟨d, n, List.Subset.refl _, rfl⟩
  | array d =>
    cases h with
    | array => exact Or.inl ⟨d, n, List.Subset.refl _, rfl⟩
  | object ps =>
    cases h with
    | object hmem hyields =>
      obtain ⟨k, e, he, m, rfl⟩ := exists_of_mem_properties hmem
      have hsub := references_subset_of_mem_properties he
      rcases yields_compileProperty hyields with ⟨name, rfl, hc⟩ | rfl
      · exact Or.inr ⟨name, hsub List.mem_cons_self, hc⟩
      · exact Or.inl ⟨e, m, hsub, rfl⟩
  | ref name =>
    cases h with
    | reference hc => exact Or.inr ⟨name, List.mem_cons_self, hc⟩

theorem finds_compile (h : ∀ name ∈ d.allReferences, ∃ c, Keyed.get? (.entry i name) env = some c) :
    (d.compile i n).1.Finds env := by
  cases d with
  | kind p | literal s | any ds | nullable d | array d => exact trivial
  | object ps =>
    intro e he label a ha
    obtain ⟨k, d, hd, m, hp⟩ := exists_of_mem_properties he
    rw [hp] at ha
    cases d with
    | ref name =>
      obtain ⟨-, rfl⟩ := Property.found.inj ha
      exact h name (references_subset_of_mem_properties hd List.mem_cons_self)
    | _ => exact nomatch ha
  | ref name => exact h name List.mem_cons_self

/-- All references of the descriptor lead to a checker. -/
def ResolvedIn (env : Environment) (i : Nat) (d : Descriptor) : Prop :=
  ∀ name ∈ d.allReferences, ∃ c, Keyed.get? (.entry i name) env = some c

/-- If whatever is found in a registry was compiled from a descriptor with all references resolved,
then nothing is missing for any other such descriptor. -/
theorem complete_compile (hentries : ∀ name c, Keyed.get? (.entry i name) env = some c →
      ∃ e m, ResolvedIn env i e ∧ c = (e.compile i m).1) (hd : d.ResolvedIn env i) :
    env.Complete (d.compile i n).1 := by
  refine (Environment.everywhere_of_inherited
    (P := fun c => ∃ e m, ResolvedIn env i e ∧ c = (e.compile i m).1) ?_ ⟨d, n, hd, rfl⟩).imp ?_
  · rintro _ c ⟨e, m, he, rfl⟩ hask
    rcases asks_compile hask with ⟨e', m', hsub, rfl⟩ | ⟨name, -, hc⟩
    · exact ⟨e', m', fun name hname => he name (hsub hname), rfl⟩
    · exact hentries name c hc
  · rintro _ ⟨e, m, he, rfl⟩
    exact finds_compile he

end Descriptor

/-! ## Registries filled by definitions -/

/-- Nothing is registered in the registry of this number but by a definition. -/
def Usage.DefinesIn (i : Nat) (u : Usage) : Action → Prop
  | .register handle _ _ => (u.registries.locate handle).1 ≠ i
  | _ => True

/-- Every name that is registered there has a definition, whatever is registered elsewhere. -/
theorem Usage.Reachable.described {u : Usage} {i : Nat} (hu : u.Reachable (DefinesIn i)) :
    u.registries.Every fun j r => j = i → r.Described := by
  have hempty : ∀ j, j = i → Registry.empty.Described := fun _ _ _ _ h => nomatch h
  induction hu with
  | start => exact List.forall_mem_singleton.2 (hempty 0)
  | @act u a _ ha ih =>
    cases a with
    | register handle name c =>
      have hlocated : (u.registries.locate handle).2.Every fun j r => j = i → r.Described :=
        (Registries.follows_locate (.deferred handle name) u.registries handle).every _ hempty
          (fun _ _ _ _ hstep => nomatch hstep) ih
      simp only [Usage.act, Registries.act, Registries.register]
      split
      · exact hlocated.store (P := fun j r => j = i → r.Described) fun heq => absurd heq ha
      · exact hlocated
    | _ =>
      refine (Registries.follows_act u.registries _).every _ hempty (fun j r r' h hstep hj => ?_) ih
      refine Registry.Described.step (u := u) (h hj) ?_ hstep
      trivial

theorem Usage.Reachable.described_view_of_definesIn {u : Usage} {handle : String}
    (hu : u.Reachable (DefinesIn (u.registries.locate handle).1)) :
    (u.registries.view handle).Described := by
  have hlocated : (u.act (.deferred handle "")).Reachable
      (DefinesIn (u.registries.locate handle).1) := hu.act trivial
  rw [← Registries.registry_locate]
  exact hlocated.described.registry
    (P := fun j r => j = (u.registries.locate handle).1 → r.Described)
    (fun _ _ _ _ h => nomatch h) _ rfl

namespace Registry

theorem unresolved_eq_nil {r : Registry} {d : Descriptor} :
    r.unresolved d = [] ↔ ∀ name ∈ d.allReferences, ∃ c, r.get? name = some c := by
  simp [unresolved, List.filter_eq_nil_iff, Descriptor.references, NameSet.mem_ofList,
    contains_eq_true]

/-- It is enough to look at the list of all definitions. -/
theorem unresolved_of_definitions {r : Registry} (h : ∀ e ∈ r.definitions, r.unresolved e.2 = []) :
    ∀ name d, r.definition? name = some d → r.unresolved d = [] :=
  fun _ _ hd => h _ (Keyed.mem_of_get? hd)

end Registry

/-- Where the definitions of a registry have no unresolved references, and the descriptor has none,
every lookup of a check finds a checker, and so does every deferred property. Nothing that the check
does is a look at an address where nothing is. -/
theorem resolved_references_are_found {u : Usage} {handle : String}
    (hu : u.Reachable (Usage.DefinesIn (u.registries.locate handle).1))
    (hclosed : ∀ name e, (u.registries.view handle).definition? name = some e →
      (u.registries.view handle).unresolved e = [])
    {d : Descriptor} (hd : (u.registries.view handle).unresolved d = []) (v : Value) (t : Trail) :
    let compiled := u.registries.compile handle d
    ∃ answer es, compiled.2.environment.check compiled.1 v t = (answer, t.after es) ∧
      (∀ a, Event.unresolved a ∉ es) ∧
      ∀ l place, Event.entered l place ∈ es →
        ∃ c, Keyed.get? l.address compiled.2.environment = some c := by
  intro compiled
  have hfound : ∀ name, Keyed.get? (.entry (u.registries.locate handle).1 name)
      compiled.2.environment = (u.registries.view handle).get? name := Registries.get?_compile hu
  have hresolved : ∀ e, (u.registries.view handle).unresolved e = [] →
      e.ResolvedIn compiled.2.environment (u.registries.locate handle).1 := by
    intro e he name hname
    rw [hfound]
    exact Registry.unresolved_eq_nil.1 he name hname
  have hcomplete : compiled.2.environment.Complete compiled.1 := by
    refine Descriptor.complete_compile (i := (u.registries.locate handle).1)
      (n := (u.registries.locate handle).2.next) (fun name c hc => ?_) (hresolved d hd)
    rw [hfound] at hc
    obtain ⟨e, he⟩ := hu.described_view_of_definesIn name c hc
    obtain ⟨m, hm⟩ := (Registries.sound_view hu handle).compiled name e he
    exact ⟨e, m, hresolved e (hclosed name e he), Option.some.inj (hc.symm.trans hm)⟩
  obtain ⟨es, htrail, hs⟩ := compiled.2.environment.settled_checkAt compiled.1 .root v t
  have hes := hs.finds hcomplete
  exact ⟨_, es, Prod.ext rfl htrail, fun a ha => hes _ ha, fun l place hl => hes _ hl⟩

/-- Trees and forests refer to each other, one to the other directly below a property. A name was
removed and defined anew on the way, and another registry holds a reference to a name that nobody
has registered. -/
theorem tree_references_are_found :
    let tree : Descriptor := .object [("label?", .kind .string), ("children?", .ref "forest")]
    let forest : Descriptor := .any [.kind .null, .array (.ref "tree")]
    let lost : Lookup := ⟨1, .entry 0 "lost"⟩
    let u := (((((Usage.empty.act (.reference "global" "lost")).act
      (.register "second" "lost" (.reference lost))).act
      (.define "global" "tree" (.ref "lost"))).act (.remove "global" "tree")).act
      (.define "global" "tree" tree)).act (.define "global" "forest" forest)
    let d : Descriptor := .nullable (.ref "tree")
    let v : Value := .object [("children", .array [.object [], .object [("children", .null)]])]
    let compiled := u.registries.compile "global" d
    u.Reachable (Usage.DefinesIn (u.registries.locate "global").1) ∧
      (∀ name e, (u.registries.view "global").definition? name = some e →
        (u.registries.view "global").unresolved e = []) ∧
      (u.registries.view "global").unresolved d = [] ∧
      (compiled.2.environment.check compiled.1 v .empty).1 = true ∧
      ∀ a, Event.unresolved a ∉ (compiled.2.environment.check compiled.1 v .empty).2.journal := by
  intro tree forest lost u d v compiled
  have hsecond :
      ((Usage.empty.act (.reference "global" "lost")).registries.locate "second").1 ≠ 0 := by decide
  have hu : u.Reachable (Usage.DefinesIn 0) :=
    .act (.act (.act (.act (.act (.act .start trivial) hsecond) trivial) trivial) trivial) trivial
  have hnumber : (u.registries.locate "global").1 = 0 := by decide
  have hu : u.Reachable (Usage.DefinesIn (u.registries.locate "global").1) := hnumber.symm ▸ hu
  have hall : ∀ e ∈ (u.registries.view "global").definitions,
      (u.registries.view "global").unresolved e.2 = [] := by decide
  have hclosed : ∀ name e, (u.registries.view "global").definition? name = some e →
      (u.registries.view "global").unresolved e = [] :=
    Registry.unresolved_of_definitions hall
  have hd : (u.registries.view "global").unresolved d = [] := by decide
  have haccepted : (compiled.2.environment.check compiled.1 v .empty).1 = true := by decide
  obtain ⟨answer, es, hcheck, hfound, -⟩ := resolved_references_are_found hu hclosed hd v .empty
  refine ⟨hu, hclosed, hd, haccepted, fun a ha => hfound a ?_⟩
  have hjournal : (compiled.2.environment.check compiled.1 v .empty).2.journal = es := by
    rw [hcheck]
    exact List.append_nil es
  exact hjournal ▸ ha

end DataShape
