import DataShape.Proofs.Descriptor.Rebound
import DataShape.Proofs.Descriptor.RoundTrip
import Mathlib.Data.List.Flatten
import Mathlib.Data.List.Perm.Subperm

/-!
# Descriptors with repeated keys

A descriptor that was not read from a document may declare a key of an object more than once. What
is written for it and the checker that it becomes know each key once, each by a dictionary of its
own. Both dictionaries keep the last declaration of a key at the place of the first. Let this be
done at every depth (`Descriptor.merged`) : the descriptor that is left is written as the same
document (`Descriptor.toDocument_merged`), so it is what this document is read as
(`Descriptor.ofDocument_toDocument_eq_merged`), and it becomes a checker that is alike
(`Descriptor.alike_compile_merged`).

The two checkers do not number their references alike, since declarations that are dropped count in
the one and not in the other. But in both no number is given twice (`Descriptor.nodup_compile`).
-/

namespace DataShape

namespace Keyed

variable {κ α : Type} [DecidableEq κ]

theorem put_subperm (k : κ) (v : α) (es : List (κ × α)) :
    (put k v es).Subperm ((k, v) :: es) := by
  induction es with
  | nil => exact .refl _
  | cons e es ih =>
    obtain ⟨a, b⟩ := e
    by_cases hk : a = k
    · subst hk
      rw [put, if_pos rfl]
      exact ((List.sublist_cons_self (a, b) es).cons_cons _).subperm
    · rw [put, if_neg hk]
      exact ((List.subperm_cons _).2 ih).trans (List.Perm.swap _ _ _).subperm

/-- Writing pairs in turn drops some and moves others. -/
theorem ofList_subperm (es : List (κ × α)) : (ofList es).Subperm es := by
  induction es using List.reverseRecOn with
  | nil => exact .refl _
  | append_singleton es e ih =>
    rw [ofList_append_singleton]
    refine (put_subperm e.1 e.2 _).trans (((List.subperm_cons e).2 ih).trans ?_)
    exact (List.perm_append_singleton e es).symm.subperm

theorem forall₂_ofList {β : Type} {R : κ × α → κ × β → Prop} (hR : ∀ e f, R e f → e.1 = f.1)
    {es : List (κ × α)} {fs : List (κ × β)} (h : List.Forall₂ R es fs) :
    List.Forall₂ R (ofList es) (ofList fs) := by
  have hfold : ∀ {acc : List (κ × α)} {acc' : List (κ × β)}, List.Forall₂ R acc acc' →
      List.Forall₂ R (es.foldl (fun acc e => put e.1 e.2 acc) acc)
        (fs.foldl (fun acc e => put e.1 e.2 acc) acc') := by
    induction h with
    | nil => exact id
    | @cons e f _ _ hef _ ih =>
      intro acc acc' hacc
      obtain ⟨k, v⟩ := e
      obtain ⟨k', w⟩ := f
      obtain rfl : k = k' := hR _ _ hef
      exact ih (forall₂_put hR hef hacc)
  exact hfold .nil

/-- Keys may be rewritten one to one before or after the pairs are written. -/
theorem mapKeys_ofList {κ' : Type} [DecidableEq κ'] {f : κ → κ'} (hf : Function.Injective f)
    (es : List (κ × α)) :
    (ofList es).map (fun e => (f e.1, e.2)) = ofList (es.map fun e => (f e.1, e.2)) := by
  have hput : ∀ (k : κ) (v : α) (es : List (κ × α)),
      (put k v es).map (fun e => (f e.1, e.2)) = put (f k) v (es.map fun e => (f e.1, e.2)) := by
    intro k v es
    induction es with
    | nil => rfl
    | cons e es ih => by_cases hk : e.1 = k <;> simp [put, hk, hf.eq_iff, ih]
  induction es using List.reverseRecOn with
  | nil => rfl
  | append_singleton es e ih =>
    rw [ofList_append_singleton, hput, ih, List.map_append, List.map_singleton,
      ofList_append_singleton]

end Keyed

/-- Pairs may be put in a keyed list before a shape is made of them. -/
theorem Shape.properties_ofList_keyed (ps : List (String × Property)) :
    (Shape.ofList (Keyed.ofList ps)).properties = (Shape.ofList ps).properties := by
  have hinj : Function.Injective DeclaredKey.mk := fun _ _ => DeclaredKey.mk.inj
  rw [properties_ofList, properties_ofList, Keyed.mapKeys_ofList hinj,
    Keyed.ofList_of_nodup (Keyed.nodup_keys_ofList _)]

namespace Descriptor

open Json (Document)

mutual
/-- The descriptor with each declared key once at every depth, the last declaration of a key at the
place of the first. -/
def merged : Descriptor → Descriptor
  | any ds => any (mergedItems ds)
  | nullable d => nullable (merged d)
  | array d => array (merged d)
  | object ps => object (Keyed.ofList (mergedProperties ps))
  | kind p => kind p
  | literal s => literal s
  | ref name => ref name

def mergedItems : List Descriptor → List Descriptor
  | [] => []
  | d :: ds => merged d :: mergedItems ds

def mergedProperties : List (String × Descriptor) → List (String × Descriptor)
  | [] => []
  | (k, d) :: ps => (k, merged d) :: mergedProperties ps
end

/-! ## The document -/

theorem toDocumentProperties_eq_map (ps : List (String × Descriptor)) :
    toDocumentProperties ps = ps.map fun e => (e.1, e.2.toDocument) := by
  induction ps with
  | nil => rfl
  | cons e ps ih => exact congrArg ((e.1, e.2.toDocument) :: ·) ih

mutual
theorem toDocument_merged : ∀ d : Descriptor, d.merged.toDocument = d.toDocument
  | kind _ => rfl
  | literal _ => rfl
  | any ds => by rw [merged, toDocument, toDocument, toDocumentItems_merged ds]
  | nullable d => by rw [merged, toDocument, toDocument, toDocument_merged d]
  | array d => by rw [merged, toDocument, toDocument, toDocument_merged d]
  | object ps => by
    have hmembers : Keyed.ofList (toDocumentProperties (Keyed.ofList (mergedProperties ps))) =
        Keyed.ofList (toDocumentProperties ps) := by
      rw [toDocumentProperties_eq_map, Keyed.map_ofList, ← toDocumentProperties_eq_map,
        toDocumentProperties_merged ps, Keyed.ofList_of_nodup (Keyed.nodup_keys_ofList _)]
    rw [merged, toDocument, toDocument, hmembers]
  | ref _ => rfl

theorem toDocumentItems_merged : ∀ ds : List Descriptor,
    toDocumentItems (mergedItems ds) = toDocumentItems ds
  | [] => rfl
  | d :: ds => congrArg₂ List.cons (toDocument_merged d) (toDocumentItems_merged ds)

theorem toDocumentProperties_merged : ∀ ps : List (String × Descriptor),
    toDocumentProperties (mergedProperties ps) = toDocumentProperties ps
  | [] => rfl
  | (k, d) :: ps => congrArg₂ (fun j ms => (k, j) :: ms) (toDocument_merged d)
    (toDocumentProperties_merged ps)
end

theorem wellFormedProperties_iff {ps : List (String × Descriptor)} :
    WellFormedProperties ps ↔ ∀ e ∈ ps, e.2.WellFormed := by
  induction ps with
  | nil => simp [WellFormedProperties]
  | cons e ps ih => simp [WellFormedProperties, ih]

mutual
/-- With its keys merged a descriptor is well formed, unless it refers to a blank name. -/
theorem wellFormed_merged : ∀ {d : Descriptor},
    (∀ name ∈ d.allReferences, Text.isBlank name = false) → d.merged.WellFormed
  | kind _, _ => trivial
  | literal _, _ => trivial
  | any _, h => wellFormedItems_merged h
  | nullable d, h => wellFormed_merged (d := d) h
  | array d, h => wellFormed_merged (d := d) h
  | object _, h => ⟨Keyed.nodup_keys_ofList _, wellFormedProperties_iff.2 fun e he =>
    wellFormedProperties_iff.1 (wellFormedProperties_merged h) e
      ((Keyed.ofList_subperm _).subset he)⟩
  | ref name, h => h name List.mem_cons_self

theorem wellFormedItems_merged : ∀ {ds : List Descriptor},
    (∀ name ∈ allReferencesItems ds, Text.isBlank name = false) → WellFormedItems (mergedItems ds)
  | [], _ => trivial
  | _ :: _, h =>
    have hsplit := List.forall_mem_append.1 h
    ⟨wellFormed_merged hsplit.1, wellFormedItems_merged hsplit.2⟩

theorem wellFormedProperties_merged : ∀ {ps : List (String × Descriptor)},
    (∀ name ∈ allReferencesProperties ps, Text.isBlank name = false) →
      WellFormedProperties (mergedProperties ps)
  | [], _ => trivial
  | (_, _) :: _, h =>
    have hsplit := List.forall_mem_append.1 h
    ⟨wellFormed_merged hsplit.1, wellFormedProperties_merged hsplit.2⟩
end

/-- What is written for a descriptor is read as the descriptor with its keys merged. -/
theorem ofDocument_toDocument_eq_merged {d : Descriptor}
    (h : ∀ name ∈ d.allReferences, Text.isBlank name = false) :
    ofDocument d.toDocument = .ok d.merged := by
  rw [← toDocument_merged]
  exact ofDocument_toDocument (wellFormed_merged h)

/-! ## The checker -/

section Alike

variable (i : Nat)

theorem alikeEntry_compileProperty_merged {k : DeclaredKey} {d : Descriptor} {n m : Nat}
    (h : Alike Eq (d.compile i n).1 (d.merged.compile i m).1) :
    AlikeEntry Eq (k, (d.compileProperty i n).1) (k, (d.merged.compileProperty i m).1) := by
  cases d with
  | ref name => exact .found rfl
  | _ => exact .direct h

/-- Properties that are alike whatever number the one is compiled from. -/
theorem forall₂_compileProperties {qs : List (String × Property)}
    {ps : List (String × Descriptor)}
    (h : List.Forall₂ (fun q p => q.1 = p.1 ∧
      ∀ m, AlikeEntry Eq (⟨q.1⟩, q.2) (⟨p.1⟩, (p.2.compileProperty i m).1)) qs ps) :
    ∀ m, List.Forall₂ (AlikePair Eq) qs (compileProperties i ps m).1 := by
  induction h with
  | nil => exact fun _ => .nil
  | @cons q p _ _ hqp _ ih =>
    intro m
    rw [compileProperties_cons]
    exact .cons (hqp.2 m) (ih _)

mutual
/-- Merged keys make no difference to the checker but for the numbers of its references. -/
theorem alike_compile_merged : ∀ (d : Descriptor) (n m : Nat),
    Alike Eq (d.compile i n).1 (d.merged.compile i m).1
  | kind _, _, _ => .primitive
  | literal _, _, _ => .literal
  | any ds, n, m => .any (alike_compileItems_merged ds n m)
  | nullable d, n, m => .nullable (alike_compile_merged d n m)
  | array d, n, m => .array (alike_compile_merged d n m)
  | object ps, n, m => by
    have hkeyed := Keyed.forall₂_ofList (fun _ _ => And.left)
      (alike_compileProperties_merged ps n)
    have halike := alike_ofShape (forall₂_compileProperties i hkeyed m)
    rwa [Checker.ofShape, Shape.properties_ofList_keyed] at halike
  | ref _, _, _ => .reference rfl

theorem alike_compileItems_merged : ∀ (ds : List Descriptor) (n m : Nat),
    List.Forall₂ (Alike Eq) (compileItems i ds n).1 (compileItems i (mergedItems ds) m).1
  | [], _, _ => .nil
  | d :: ds, n, m => .cons (alike_compile_merged d n m) (alike_compileItems_merged ds _ _)

theorem alike_compileProperties_merged : ∀ (ps : List (String × Descriptor)) (n : Nat),
    List.Forall₂ (fun q p => q.1 = p.1 ∧
      ∀ m, AlikeEntry Eq (⟨q.1⟩, q.2) (⟨p.1⟩, (p.2.compileProperty i m).1))
      (compileProperties i ps n).1 (mergedProperties ps)
  | [], _ => .nil
  | (_, d) :: ps, n => by
    rw [compileProperties_cons]
    exact .cons ⟨rfl, fun m => alikeEntry_compileProperty_merged i (alike_compile_merged d n m)⟩
      (alike_compileProperties_merged ps _)
end

end Alike

/-! ## The numbers of references -/

section Serials

variable (i : Nat)

theorem nodup_serials_append {n k n' : Nat} {ls ms : List Lookup} (hls : Numbered n k ls)
    (hms : Numbered k n' ms) (h : (ls.map Lookup.serial).Nodup)
    (h' : (ms.map Lookup.serial).Nodup) :
    ((ls ++ ms).map Lookup.serial).Nodup := by
  rw [List.map_append, List.nodup_append]
  refine ⟨h, h', fun a ha b hb => ?_⟩
  obtain ⟨l, hl, rfl⟩ := List.mem_map.1 ha
  obtain ⟨m, hm, rfl⟩ := List.mem_map.1 hb
  have := hls.bounds l hl
  have := hms.bounds m hm
  omega

theorem lookupsProperties_eq_flatMap (ps : List (DeclaredKey × Property)) :
    Checker.lookupsProperties ps = ps.flatMap fun e => Checker.lookupsProperty e.2 := by
  induction ps with
  | nil => rfl
  | cons e ps ih => exact congrArg (Checker.lookupsProperty e.2 ++ ·) ih

/-- A shape has no number twice if the properties it is made of have none. -/
theorem nodup_serials_ofShape {ps : List (String × Property)}
    (h : ((ps.flatMap fun e => Checker.lookupsProperty e.2).map Lookup.serial).Nodup) :
    ((Checker.ofShape (.ofList ps)).lookups.map Lookup.serial).Nodup := by
  have hlookups : (Checker.ofShape (.ofList ps)).lookups =
      (Keyed.ofList (ps.map fun p => (DeclaredKey.mk p.1, p.2))).flatMap
        fun e => Checker.lookupsProperty e.2 := by
    rw [Checker.ofShape, Checker.lookups, lookupsProperties_eq_flatMap, Shape.properties_ofList]
  obtain ⟨qs, hperm, hsub⟩ := Keyed.ofList_subperm (ps.map fun p => (DeclaredKey.mk p.1, p.2))
  have hdeclared : (((ps.map fun p => (DeclaredKey.mk p.1, p.2)).flatMap
      fun e => Checker.lookupsProperty e.2).map Lookup.serial).Nodup := by
    rwa [List.flatMap_map]
  have hkept : ((qs.flatMap fun e => Checker.lookupsProperty e.2).map Lookup.serial).Nodup :=
    ((hsub.flatMap _).map Lookup.serial).nodup hdeclared
  rw [hlookups]
  exact ((hperm.flatMap_right _).map Lookup.serial).nodup_iff.1 hkept

theorem nodup_serials_compileProperty {d : Descriptor} {n : Nat}
    (h : ((d.compile i n).1.lookups.map Lookup.serial).Nodup) :
    ((Checker.lookupsProperty (d.compileProperty i n).1).map Lookup.serial).Nodup := by
  cases d with
  | ref name => exact List.nodup_nil
  | _ => exact h

mutual
/-- A compiled descriptor numbers each of its references once. -/
theorem nodup_compile : ∀ (d : Descriptor) (n : Nat),
    ((d.compile i n).1.lookups.map Lookup.serial).Nodup
  | kind _, _ => List.nodup_nil
  | literal _, _ => List.nodup_nil
  | any ds, n => nodup_compileItems ds n
  | nullable d, n => nodup_compile d n
  | array d, n => nodup_compile d n
  | object ps, n => nodup_serials_ofShape (nodup_compileProperties ps n)
  | ref _, _ => List.nodup_singleton _

theorem nodup_compileItems : ∀ (ds : List Descriptor) (n : Nat),
    ((Checker.lookupsAll (compileItems i ds n).1).map Lookup.serial).Nodup
  | [], _ => List.nodup_nil
  | d :: ds, n => nodup_serials_append (numbered_compile i d n) (numbered_compileItems i ds _)
    (nodup_compile d n) (nodup_compileItems ds _)

theorem nodup_compileProperties : ∀ (ps : List (String × Descriptor)) (n : Nat),
    (((compileProperties i ps n).1.flatMap fun e => Checker.lookupsProperty e.2).map
      Lookup.serial).Nodup
  | [], _ => List.nodup_nil
  | (_, d) :: ps, n => by
    rw [compileProperties_cons]
    exact nodup_serials_append (numbered_compileProperty i (numbered_compile i d n))
      (numbered_compileProperties i ps _) (nodup_serials_compileProperty i (nodup_compile d n))
      (nodup_compileProperties ps _)
end

end Serials

end Descriptor

end DataShape
