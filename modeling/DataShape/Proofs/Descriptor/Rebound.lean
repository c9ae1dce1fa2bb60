import DataShape.Proofs.Check.Likeness
import DataShape.Proofs.Descriptor.Compiled

/-!
# One descriptor, two registries

A descriptor that is compiled twice, for whatever registries and from whatever serial
numbers on, becomes checkers that are alike (`Descriptor.alike_compile`) : their
references go to the same names, each to its own registry.
-/

namespace DataShape

/-- Pairs of keys and properties as they are declared. -/
def AlikePair (σ : Address → Address → Prop) (p q : String × Property) : Prop :=
  AlikeEntry σ (⟨p.1⟩, p.2) (⟨q.1⟩, q.2)

theorem alike_ofShape {σ : Address → Address → Prop} {ps qs : List (String × Property)}
    (h : List.Forall₂ (AlikePair σ) ps qs) :
    Alike σ (.ofShape (.ofList ps)) (.ofShape (.ofList qs)) := by
  suffices haux : ∀ s t : Shape, List.Forall₂ (AlikeEntry σ) s.properties t.properties →
      List.Forall₂ (AlikeEntry σ) (ps.foldl (fun s p => s.entry p.1 p.2) s).properties
        (qs.foldl (fun s p => s.entry p.1 p.2) t).properties from
    .object (haux .empty .empty .nil)
  induction h with
  | nil => exact fun s t hst => hst
  | @cons p q ps qs hpq _ ih =>
    intro s t hst
    have hkey : p.1 = q.1 := DeclaredKey.mk.inj hpq.fst_eq
    have hpq' : AlikeEntry σ (⟨q.1⟩, p.2) (⟨q.1⟩, q.2) := by rwa [AlikePair, hkey] at hpq
    refine ih _ _ ?_
    simp only [Shape.entry, hkey]
    exact Keyed.forall₂_put (fun _ _ => AlikeEntry.fst_eq) hpq' hst

namespace Descriptor

variable {σ : Address → Address → Prop} {i j : Nat}

theorem alikePair_compileProperty {k : String} {d : Descriptor} {n m : Nat}
    (h : Alike σ (d.compile i n).1 (d.compile j m).1) :
    AlikePair σ (k, (d.compileProperty i n).1) (k, (d.compileProperty j m).1) := by
  cases d with
  | ref name =>
    cases h with
    | reference h => exact .found h
  | _ => exact .direct h

mutual
/-- A descriptor becomes alike checkers, if the names that it refers to are related. -/
theorem alike_compile : ∀ (d : Descriptor) (n m : Nat),
    (∀ name ∈ d.allReferences, σ (.entry i name) (.entry j name)) →
      Alike σ (d.compile i n).1 (d.compile j m).1
  | kind _, _, _, _ => .primitive
  | literal _, _, _, _ => .literal
  | any ds, n, m, h => .any (alike_compileItems ds n m h)
  | nullable d, n, m, h => .nullable (alike_compile d n m h)
  | array d, n, m, h => .array (alike_compile d n m h)
  | object ps, n, m, h => alike_ofShape (alike_compileProperties ps n m h)
  | ref name, _, _, h => .reference (h name List.mem_cons_self)

theorem alike_compileItems : ∀ (ds : List Descriptor) (n m : Nat),
    (∀ name ∈ allReferencesItems ds, σ (.entry i name) (.entry j name)) →
      List.Forall₂ (Alike σ) (compileItems i ds n).1 (compileItems j ds m).1
  | [], _, _, _ => .nil
  | d :: ds, n, m, h => by
    obtain ⟨hd, hds⟩ := List.forall_mem_append.1 h
    exact .cons (alike_compile d n m hd) (alike_compileItems ds _ _ hds)

theorem alike_compileProperties : ∀ (ps : List (String × Descriptor)) (n m : Nat),
    (∀ name ∈ allReferencesProperties ps, σ (.entry i name) (.entry j name)) →
      List.Forall₂ (AlikePair σ) (compileProperties i ps n).1 (compileProperties j ps m).1
  | [], _, _, _ => .nil
  | (k, d) :: ps, n, m, h => by
    obtain ⟨hd, hps⟩ := List.forall_mem_append.1 h
    rw [compileProperties_cons, compileProperties_cons]
    exact .cons (alikePair_compileProperty (alike_compile d n m hd))
      (alike_compileProperties ps _ _ hps)
end

end Descriptor

end DataShape
