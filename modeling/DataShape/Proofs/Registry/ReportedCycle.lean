import DataShape.Proofs.Registry.Defining
import Mathlib.Data.List.Chain

/-!
# The cycle that is reported

A definition that is refused names the cycle it would close. The search for it goes into dead
ends and leaves them again, and it shares what it has seen between its branches. So the names it
comes up with need not be the shortest way round, but nothing of a dead end is left among them
and no name is met twice : a name is followed only if it was not seen before, and from then on
it is seen (`Registry.SimpleWay`).

Whatever is registered, what is reported starts and ends with the name that was to be defined,
goes first to an unguarded reference of the new descriptor and from then on along definitions,
and the names in between differ from each other and from the two ends
(`reported_cycle_is_simple`).
-/

namespace DataShape

namespace Registry

/-- A way from a pending name along definitions to the target. The target is its last name only, no
other name is on it twice, and none was seen before. -/
structure SimpleWay (r : Registry) (target : String) (pending seen way : List String) : Prop where
  starts : ∀ n ∈ way.head?, n ∈ pending
  leads : way.IsChain r.LeadsTo
  ends : way.getLast? = some target
  nodup : way.Nodup
  unseen : ∀ n ∈ way, n ∈ seen → n = target

variable {r : Registry} {target next name : String} {rest pending seen seen' way : List String}
  {d : Descriptor}

theorem simpleWay_target : r.SimpleWay target (target :: rest) seen [target] where
  starts n hn := by
    obtain rfl := Option.mem_some.1 hn
    exact List.mem_cons_self
  leads := .singleton target
  ends := rfl
  nodup := List.nodup_singleton target
  unseen n hn _ := List.mem_singleton.1 hn

/-- What is found behind the first pending name, with more names seen by then. -/
theorem SimpleWay.skip (h : r.SimpleWay target rest seen' way) (hseen : seen ⊆ seen') :
    r.SimpleWay target (next :: rest) seen way where
  starts n hn := List.mem_cons_of_mem _ (h.starts n hn)
  leads := h.leads
  ends := h.ends
  nodup := h.nodup
  unseen n hn hmem := h.unseen n hn (hseen hmem)

/-- A way from the references of a name, which counts as seen, goes on from that name. -/
theorem SimpleWay.through (h : r.SimpleWay target d.unguarded (next :: seen) way)
    (hnext : next ≠ target) (hseen : next ∉ seen) (hdef : r.definition? next = some d) :
    r.SimpleWay target (next :: rest) seen (next :: way) where
  starts n hn := by
    obtain rfl := Option.mem_some.1 hn
    exact List.mem_cons_self
  leads := h.leads.cons fun m hm => ⟨d, hdef, h.starts m hm⟩
  ends := by
    have hway : way ≠ [] := by
      rintro rfl
      exact nomatch h.ends
    rw [List.getLast?_cons_of_ne_nil hway, h.ends]
  nodup := by
    refine List.nodup_cons.2 ⟨fun hmem => hnext ?_, h.nodup⟩
    exact h.unseen next hmem List.mem_cons_self
  unseen n hn hmem := by
    rcases List.mem_cons.1 hn with rfl | hn
    · exact absurd hmem hseen
    · exact h.unseen n hn (List.mem_cons_of_mem _ hmem)

/-- A search comes up with simple ways only. -/
theorem Searches.simpleWay {result : Option (List String)}
    (h : r.Searches target pending seen result seen') (hway : result = some way) :
    r.SimpleWay target pending seen way := by
  induction h generalizing way with
  | nothing => exact nomatch hway
  | target =>
    obtain rfl := Option.some.inj hway
    exact simpleWay_target
  | seen _ _ _ ih => exact (ih hway).skip (List.Subset.refl _)
  | undefined _ _ _ _ ih => exact (ih hway).skip (List.subset_cons_self ..)
  | through hnext hseen hdef _ ih =>
    obtain rfl := Option.some.inj hway
    exact (ih rfl).through hnext hseen hdef
  | back _ _ _ hinner _ _ ihrest =>
    exact (ihrest hway).skip (List.cons_subset.1 hinner.keeps).2

/-- A cycle that is found is a simple way behind its name. -/
theorem simpleWay_of_cycle? {names : List String} (h : r.cycle? name d = some names) :
    ∃ way, names = name :: way ∧ r.SimpleWay name d.unguarded [] way := by
  obtain ⟨result, seen, hsearch, hcycle⟩ := r.exists_searches name d
  obtain ⟨way, hway, rfl⟩ := Option.map_eq_some_iff.1 (hcycle.symm.trans h)
  exact ⟨way, rfl, hsearch.simpleWay hway⟩

end Registry

/-- The names of the cycle that a definition is refused for, as they stand in the message. They
start and end with the name to be defined. The first hop goes to an unguarded reference of the
descriptor, each further one from a name with a definition to an unguarded reference of that
definition. The names between the ends differ from each other and from the name at the ends. -/
theorem reported_cycle_is_simple {s : Registries} {handle name : String} {d : Descriptor}
    {names : List String} (h : (s.define handle name d).1 = .error (.cycle names)) :
    ∃ inner, names = name :: (inner ++ [name]) ∧
      (∀ m ∈ (inner ++ [name]).head?, m ∈ d.unguarded) ∧
      (inner ++ [name]).IsChain (fun n m => ∃ e, (s.view handle).definition? n = some e ∧
        m ∈ e.unguarded) ∧
      inner.Nodup ∧ name ∉ inner ∧
      (DefineError.cycle names).message = "invalid descriptor at $: reference cycle `" ++
        " -> ".intercalate (name :: (inner ++ [name])) ++
          "` does not pass through an object property or array element" := by
  rw [Registries.define_fst, Registry.define_eq_cycle] at h
  obtain ⟨way, rfl, hway⟩ := Registry.simpleWay_of_cycle? h
  obtain ⟨inner, rfl⟩ := List.getLast?_eq_some_iff.1 hway.ends
  obtain ⟨hinner, -, hdisjoint⟩ := List.nodup_append.1 hway.nodup
  refine ⟨inner, rfl, hway.starts, hway.leads, hinner, fun hmem => ?_, rfl⟩
  exact hdisjoint name hmem name (List.mem_singleton_self name) rfl

/-- The search leaves two dead ends : a name that nobody has defined, and one that was seen before
and is met again behind another name. -/
theorem cycle_past_dead_ends_is_simple :
    let u := ((Usage.empty.act (.define "global" "a" (.any [.ref "b", .ref "c"]))).act
      (.define "global" "b" (.nullable (.ref "lost")))).act
      (.define "global" "c" (.any [.ref "b", .ref "d"]))
    let d : Descriptor := .any [.kind .null, .ref "a"]
    u.Reachable (fun _ _ => True) ∧
      (u.registries.define "global" "d" d).1 = .error (.cycle ["d", "a", "c", "d"]) ∧
      ["a", "c", "d"].IsChain (fun n m =>
        ∃ e, (u.registries.view "global").definition? n = some e ∧ m ∈ e.unguarded) ∧
      ["a", "c"].Nodup ∧ "d" ∉ ["a", "c"] := by
  intro u d
  have hu : u.Reachable fun _ _ => True := .act (.act (.act .start trivial) trivial) trivial
  have hrefused : (u.registries.define "global" "d" d).1 =
      .error (.cycle ["d", "a", "c", "d"]) := by rfl
  obtain ⟨inner, hnames, -, hchain, hnodup, hends, -⟩ := reported_cycle_is_simple hrefused
  obtain rfl : ["a", "c"] = inner := List.append_cancel_right (List.cons.inj hnames).2
  exact ⟨hu, hrefused, hchain, hnodup, hends⟩

end DataShape
