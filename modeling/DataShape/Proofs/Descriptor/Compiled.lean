import DataShape.Descriptor.Compile
import DataShape.Proofs.Check.Reentry
import DataShape.Proofs.Shape.Declarations

/-!
# Compiled descriptors

A compiled descriptor has no instruments (`probes_compile`), numbers its references
from the number it was given on, each once (`numbered_compile`), and asks about the same
value exactly the references that are open in the descriptor (`openLookups_compile`).
A shape keeps of the properties of an object, in the order of the document, the last
one of each key, so it has no others (`mem_properties_ofList`).
-/

namespace DataShape

/-! ## Numbered references -/

/-- The references carry serial numbers from `n` to below `n'`, and no two of them the same. -/
structure Numbered (n n' : Nat) (ls : List Lookup) : Prop where
  le : n ≤ n'
  bounds : ∀ l ∈ ls, n ≤ l.serial ∧ l.serial < n'
  coherent : Coherent ls

/-- References that are told apart by a range of their own stay coherent together. -/
theorem Coherent.append {ls ms : List Lookup} (hls : Coherent ls) (hms : Coherent ms)
    (h : ∀ l ∈ ls, ∀ m ∈ ms, l.serial ≠ m.serial) : Coherent (ls ++ ms) := by
  intro l hl m hm heq
  rcases List.mem_append.1 hl with hl | hl <;> rcases List.mem_append.1 hm with hm | hm
  · exact hls l hl m hm heq
  · exact absurd heq (h l hl m hm)
  · exact absurd heq.symm (h m hm l hl)
  · exact hms l hl m hm heq

theorem Coherent.subset {ls ms : List Lookup} (hms : Coherent ms) (h : ls ⊆ ms) : Coherent ls :=
  fun l hl m hm => hms l (h hl) m (h hm)

theorem numbered_nil (n : Nat) : Numbered n n [] where
  le := Nat.le_refl n
  bounds _ h := nomatch h
  coherent _ h := nomatch h

theorem numbered_singleton (n : Nat) (a : Address) : Numbered n (n + 1) [⟨n, a⟩] where
  le := Nat.le_succ n
  bounds l hl := by
    obtain rfl := List.mem_singleton.1 hl
    exact ⟨Nat.le_refl n, Nat.lt_succ_self n⟩
  coherent l hl m hm _ := by
    rw [List.mem_singleton.1 hl, List.mem_singleton.1 hm]

theorem Numbered.append {n k n' : Nat} {ls ms : List Lookup} (hls : Numbered n k ls)
    (hms : Numbered k n' ms) : Numbered n n' (ls ++ ms) where
  le := Nat.le_trans hls.le hms.le
  bounds l hl := by
    have hle := hls.le
    have hle' := hms.le
    rcases List.mem_append.1 hl with hl | hl
    · have := hls.bounds l hl
      omega
    · have := hms.bounds l hl
      omega
  coherent := hls.coherent.append hms.coherent fun l hl m hm => by
    have := hls.bounds l hl
    have := hms.bounds m hm
    omega

theorem Numbered.subset {n n' : Nat} {ls ms : List Lookup} (hms : Numbered n n' ms)
    (h : ls ⊆ ms) : Numbered n n' ls :=
  ⟨hms.le, fun l hl => hms.bounds l (h hl), hms.coherent.subset h⟩

/-! ## The properties of a shape -/

theorem mem_properties_ofList {ps : List (String × Property)} {e : DeclaredKey × Property}
    (h : e ∈ (Shape.ofList ps).properties) : ∃ k, e.1 = ⟨k⟩ ∧ (k, e.2) ∈ ps := by
  obtain ⟨key, q⟩ := e
  have hdict := Shape.dictionary_of_properties_eq (Shape.properties_ofList ps)
  obtain ⟨⟨k, p⟩, hmem, heq⟩ := List.mem_map.1 ((hdict.mem_iff key q).1 h).mem
  obtain ⟨rfl, rfl⟩ := Prod.mk.inj heq
  exact ⟨k, rfl, hmem⟩

namespace Checker

theorem mem_lookupsProperties {l : Lookup} {ps : List (DeclaredKey × Property)} :
    l ∈ lookupsProperties ps ↔ ∃ e ∈ ps, l ∈ lookupsProperty e.2 := by
  induction ps with
  | nil => simp [lookupsProperties]
  | cons e ps ih => simp [lookupsProperties, ih]

theorem probesProperties_eq_nil {ps : List (DeclaredKey × Property)} :
    probesProperties ps = [] ↔ ∀ e ∈ ps, probesProperty e.2 = [] := by
  induction ps with
  | nil => simp [probesProperties]
  | cons e ps ih => simp [probesProperties, ih]

theorem lookups_ofShape_subset (ps : List (String × Property)) :
    (ofShape (.ofList ps)).lookups ⊆ ps.flatMap fun e => lookupsProperty e.2 := by
  intro l hl
  obtain ⟨e, he, hl⟩ := mem_lookupsProperties.1 hl
  obtain ⟨k, -, hmem⟩ := mem_properties_ofList he
  exact List.mem_flatMap.2 ⟨_, hmem, hl⟩

theorem probes_ofShape {ps : List (String × Property)}
    (h : ∀ e ∈ ps, probesProperty e.2 = []) : (ofShape (.ofList ps)).probes = [] := by
  refine probesProperties_eq_nil.2 fun e he => ?_
  obtain ⟨k, -, hmem⟩ := mem_properties_ofList he
  exact h _ hmem

end Checker

/-! ## Compiling -/

namespace Descriptor

variable (i : Nat)

/-- What a descriptor becomes under an object property. -/
def compileProperty : Descriptor → Nat → Property × Nat
  | ref name, n => (.found none (.entry i name), n)
  | d, n => (.direct (d.compile i n).1, (d.compile i n).2)

theorem compileProperties_cons (k : String) (d : Descriptor) (ps : List (String × Descriptor))
    (n : Nat) : compileProperties i ((k, d) :: ps) n =
      ((k, (d.compileProperty i n).1) :: (compileProperties i ps (d.compileProperty i n).2).1,
        (compileProperties i ps (d.compileProperty i n).2).2) := by
  cases d <;> rfl

theorem numbered_compileProperty {d : Descriptor} {n : Nat}
    (h : Numbered n (d.compile i n).2 (d.compile i n).1.lookups) :
    Numbered n (d.compileProperty i n).2 (Checker.lookupsProperty (d.compileProperty i n).1) := by
  cases d with
  | ref name => exact numbered_nil n
  | _ => exact h

theorem probes_compileProperty {d : Descriptor} {n : Nat} (h : (d.compile i n).1.probes = []) :
    Checker.probesProperty (d.compileProperty i n).1 = [] := by
  cases d with
  | ref name => rfl
  | _ => exact h

mutual
theorem numbered_compile : ∀ (d : Descriptor) (n : Nat),
    Numbered n (d.compile i n).2 (d.compile i n).1.lookups
  | kind _, n => numbered_nil n
  | literal _, n => numbered_nil n
  | any ds, n => numbered_compileItems ds n
  | nullable d, n => numbered_compile d n
  | array d, n => numbered_compile d n
  | object ps, n => (numbered_compileProperties ps n).subset (Checker.lookups_ofShape_subset _)
  | ref name, n => numbered_singleton n (.entry i name)

theorem numbered_compileItems : ∀ (ds : List Descriptor) (n : Nat),
    Numbered n (compileItems i ds n).2 (Checker.lookupsAll (compileItems i ds n).1)
  | [], n => numbered_nil n
  | d :: ds, n => (numbered_compile d n).append (numbered_compileItems ds _)

theorem numbered_compileProperties : ∀ (ps : List (String × Descriptor)) (n : Nat),
    Numbered n (compileProperties i ps n).2
      ((compileProperties i ps n).1.flatMap fun e => Checker.lookupsProperty e.2)
  | [], n => numbered_nil n
  | (k, d) :: ps, n => by
    rw [compileProperties_cons]
    exact (numbered_compileProperty i (numbered_compile d n)).append
      (numbered_compileProperties ps _)
end

mutual
theorem probes_compile : ∀ (d : Descriptor) (n : Nat), (d.compile i n).1.probes = []
  | kind _, _ => rfl
  | literal _, _ => rfl
  | any ds, n => probes_compileItems ds n
  | nullable d, n => probes_compile d n
  | array d, n => probes_compile d n
  | object ps, n => Checker.probes_ofShape (probes_compileProperties ps n)
  | ref _, _ => rfl

theorem probes_compileItems : ∀ (ds : List Descriptor) (n : Nat),
    Checker.probesAll (compileItems i ds n).1 = []
  | [], _ => rfl
  | d :: ds, n => List.append_eq_nil_iff.2 ⟨probes_compile d n, probes_compileItems ds _⟩

theorem probes_compileProperties : ∀ (ps : List (String × Descriptor)) (n : Nat),
    ∀ e ∈ (compileProperties i ps n).1, Checker.probesProperty e.2 = []
  | [], _ => fun _ h => nomatch h
  | (k, d) :: ps, n => by
    rw [compileProperties_cons]
    exact List.forall_mem_cons.2
      ⟨probes_compileProperty i (probes_compile d n), probes_compileProperties ps _⟩
end

mutual
theorem openLookups_compile : ∀ (d : Descriptor) (n : Nat),
    (d.compile i n).1.openLookups.map Lookup.address = d.openReferences.map (Address.entry i)
  | kind _, _ => rfl
  | literal _, _ => rfl
  | any ds, n => openLookups_compileItems ds n
  | nullable d, n => openLookups_compile d n
  | array _, _ => rfl
  | object _, _ => rfl
  | ref _, _ => rfl

theorem openLookups_compileItems : ∀ (ds : List Descriptor) (n : Nat),
    (Checker.openLookupsAll (compileItems i ds n).1).map Lookup.address =
      (openReferencesItems ds).map (Address.entry i)
  | [], _ => rfl
  | d :: ds, n => by
    have hd := openLookups_compile d n
    have hds := openLookups_compileItems ds (d.compile i n).2
    simp [compileItems, Checker.openLookupsAll, openReferencesItems, hd, hds]
end

/-- An open reference of a compiled descriptor goes to an unguarded name of it. -/
theorem address_of_mem_openLookups {d : Descriptor} {n : Nat} {l : Lookup}
    (h : l ∈ (d.compile i n).1.openLookups) : ∃ m ∈ d.unguarded, l.address = .entry i m := by
  have hmem := List.mem_map_of_mem (f := Lookup.address) h
  rw [openLookups_compile] at hmem
  obtain ⟨m, hm, heq⟩ := List.mem_map.1 hmem
  exact ⟨m, NameSet.mem_ofList.2 hm, heq.symm⟩

theorem builtFrom_compile (d : Descriptor) (n : Nat) {known : List Lookup}
    (h : (d.compile i n).1.lookups ⊆ known) : (d.compile i n).1.BuiltFrom known :=
  ⟨probes_compile i d n, h⟩

end Descriptor

end DataShape
