import DataShape.Proofs.Registry.Order

/-!
# The names a descriptor depends on

A compiled descriptor looks up the names that it refers to, and what is found under
them looks up names in turn. In a registry that is filled by definitions these are the
names that can be reached by going from a descriptor to its references and from a name
to its definition (`Registry.Mentioned`). There may be cycles on the way and names that
nobody has defined.

Two registries that have the same definitions of these names hold checkers that are
alike under them (`Reachable.carries_of_same_definitions`), although they may have been
filled in another order and hold other names as well. So what is compiled for the one
accepts the same values as what is compiled for the other
(`only_mentioned_names_matter`).
-/

namespace DataShape

/-- The names that a descriptor refers to, or a definition of such a name in either registry. -/
inductive Registry.Mentioned (r₁ r₂ : Registry) (d : Descriptor) : String → Prop where
  | direct {name} (h : name ∈ d.references) : Mentioned r₁ r₂ d name
  | through {n m e} (hn : Mentioned r₁ r₂ d n)
      (he : r₁.definition? n = some e ∨ r₂.definition? n = some e) (hm : m ∈ e.references) :
      Mentioned r₁ r₂ d m

theorem Registry.Mentioned.symm {r₁ r₂ : Registry} {d : Descriptor} {name : String}
    (h : Mentioned r₁ r₂ d name) : Mentioned r₂ r₁ d name := by
  induction h with
  | direct h => exact .direct h
  | through _ he hm ih => exact .through ih he.symm hm

namespace Usage

variable {u u₁ u₂ : Usage}

theorem Reachable.composes (hu : u.Reachable Defines) : u.Reachable Composes :=
  hu.mono fun _ _ ha => Defines.composes ha

theorem Reachable.described_view (hu : u.Reachable Defines) (handle : String) :
    (u.registries.view handle).Described := by
  intro name c hc
  have hlocated : (u.act (.deferred handle name)).Reachable Defines := hu.act trivial
  rw [← Registries.registry_locate] at hc ⊢
  obtain ⟨d, n, hd, -⟩ := hlocated.definition hc
  exact ⟨d, hd⟩

/-- The mentioned names lead to alike checkers, if they have the same definitions. -/
theorem Reachable.carries_of_same_definitions (hu₁ : u₁.Reachable Defines)
    (hu₂ : u₂.Reachable Defines) {handle₁ handle₂ : String} {d : Descriptor}
    (hsame : ∀ name, Registry.Mentioned (u₁.registries.view handle₁) (u₂.registries.view handle₂)
      d name → (u₁.registries.view handle₁).definition? name =
        (u₂.registries.view handle₂).definition? name) :
    Environment.Carries
      (fun a b => ∃ name,
        Registry.Mentioned (u₁.registries.view handle₁) (u₂.registries.view handle₂) d name ∧
          a = .entry (u₁.registries.locate handle₁).1 name ∧
          b = .entry (u₂.registries.locate handle₂).1 name)
      (u₁.registries.compile handle₁ d).2.environment
      (u₂.registries.compile handle₂ d).2.environment := by
  rintro a b c ⟨name, hname, rfl, rfl⟩ hc
  rw [Registries.get?_compile hu₁.composes] at hc
  rw [Registries.get?_compile hu₂.composes]
  obtain ⟨e, he⟩ := hu₁.described_view handle₁ name c hc
  refine Registries.exists_alike hu₁.composes hu₂.composes he ((hsame name hname).symm.trans he)
    (fun x hx => ⟨x, ?_, rfl, rfl⟩) hc
  exact .through hname (Or.inl he) (NameSet.mem_ofList.2 hx)

theorem Reachable.accepts_of_same_definitions (hu₁ : u₁.Reachable Defines)
    (hu₂ : u₂.Reachable Defines) {handle₁ handle₂ : String} {d : Descriptor}
    (hsame : ∀ name, Registry.Mentioned (u₁.registries.view handle₁) (u₂.registries.view handle₂)
      d name → (u₁.registries.view handle₁).definition? name =
        (u₂.registries.view handle₂).definition? name) {v : Value}
    (h : (u₁.registries.compile handle₁ d).2.environment.accepts
      (u₁.registries.compile handle₁ d).1 v = true) :
    (u₂.registries.compile handle₂ d).2.environment.accepts
      (u₂.registries.compile handle₂ d).1 v = true := by
  rw [Registries.compile_accepts_iff hu₁.composes] at h
  rw [Registries.compile_accepts_iff hu₂.composes]
  refine h.of_alike (hu₁.carries_of_same_definitions hu₂ hsame)
    (Descriptor.alike_compile d _ _ fun x hx => ⟨x, ?_, rfl, rfl⟩)
  exact .direct (NameSet.mem_ofList.2 hx)

end Usage

/-- A descriptor accepts the same values when it is compiled for one registry or another, if the
names it mentions have the same definitions in both or none in both. Whatever else the registries
hold does not matter, nor in which order and after which removals they were filled. -/
theorem only_mentioned_names_matter {u₁ u₂ : Usage} (hu₁ : u₁.Reachable Usage.Defines)
    (hu₂ : u₂.Reachable Usage.Defines) {handle₁ handle₂ : String} {d : Descriptor}
    (hsame : ∀ name, Registry.Mentioned (u₁.registries.view handle₁) (u₂.registries.view handle₂)
      d name → (u₁.registries.view handle₁).definition? name =
        (u₂.registries.view handle₂).definition? name) (v : Value) :
    (u₁.registries.compile handle₁ d).2.environment.accepts
        (u₁.registries.compile handle₁ d).1 v =
      (u₂.registries.compile handle₂ d).2.environment.accepts
        (u₂.registries.compile handle₂ d).1 v := by
  rw [Bool.eq_iff_iff]
  exact ⟨hu₁.accepts_of_same_definitions hu₂ hsame,
    hu₂.accepts_of_same_definitions hu₁ fun name hname => (hsame name hname.symm).symm⟩

/-- Two names refer to each other and one of them to a third that nobody has defined. The second
registry got them in the other order, after one of them was removed again, and has another
definition of a name that is not mentioned. -/
theorem tree_depends_on_mentioned_names :
    let tree : Descriptor := .any [.ref "forest", .ref "leaf", .kind .null]
    let forest : Descriptor := .array (.object [("root", .ref "tree")])
    let u₁ := ((Usage.empty.act (.define "global" "tree" tree)).act
      (.define "global" "forest" forest)).act (.define "global" "other" (.kind .string))
    let u₂ := ((((Usage.empty.act (.define "second" "forest" (.kind .number))).act
      (.remove "second" "forest")).act (.define "second" "other" (.nullable (.ref "tree")))).act
        (.define "second" "forest" forest)).act (.define "second" "tree" tree)
    let d : Descriptor := .object [("trees", .array (.ref "tree"))]
    let v : Value := .object [("trees", .array [.null, .array [.object [("root", .null)]]])]
    u₁.Reachable Usage.Defines ∧ u₂.Reachable Usage.Defines ∧
      (∀ name, Registry.Mentioned (u₁.registries.view "global") (u₂.registries.view "second")
        d name → (u₁.registries.view "global").definition? name =
          (u₂.registries.view "second").definition? name) ∧
      (u₂.registries.compile "second" d).2.environment.accepts
        (u₂.registries.compile "second" d).1 v = true := by
  intro tree forest u₁ u₂ d v
  have hu₁ : u₁.Reachable Usage.Defines := .act (.act (.act .start trivial) trivial) trivial
  have hu₂ : u₂.Reachable Usage.Defines :=
    .act (.act (.act (.act (.act .start trivial) trivial) trivial) trivial) trivial
  have hdefs₁ : (u₁.registries.view "global").definitions =
      [("tree", tree), ("forest", forest), ("other", .kind .string)] := rfl
  have hdefs₂ : (u₂.registries.view "second").definitions =
      [("other", .nullable (.ref "tree")), ("forest", forest), ("tree", tree)] := rfl
  have hmentioned : ∀ name, Registry.Mentioned (u₁.registries.view "global")
      (u₂.registries.view "second") d name → name = "tree" ∨ name = "forest" ∨ name = "leaf" := by
    intro name h
    induction h with
    | direct h => exact Or.inl (List.mem_singleton.1 h)
    | @through n m e _ he hm ih =>
      rcases ih with rfl | rfl | rfl
      · obtain rfl : tree = e := by
          simpa [Registry.definition?, hdefs₁, hdefs₂, Keyed.get?] using he
        have hm : m ∈ ["forest", "leaf"] := hm
        simpa using Or.inr hm
      · obtain rfl : forest = e := by
          simpa [Registry.definition?, hdefs₁, hdefs₂, Keyed.get?] using he
        exact Or.inl (List.mem_singleton.1 hm)
      · simp [Registry.definition?, hdefs₁, hdefs₂, Keyed.get?] at he
  have hsame : ∀ name, Registry.Mentioned (u₁.registries.view "global")
      (u₂.registries.view "second") d name → (u₁.registries.view "global").definition? name =
        (u₂.registries.view "second").definition? name := by
    intro name h
    rcases hmentioned name h with rfl | rfl | rfl <;>
      simp [Registry.definition?, hdefs₁, hdefs₂, Keyed.get?]
  refine ⟨hu₁, hu₂, hsame, (only_mentioned_names_matter hu₁ hu₂ hsame v).symm.trans ?_⟩
  decide

end DataShape
