import DataShape.Registry.Basic
import Mathlib.Logic.Relation

/-!
# The search for cycles

The definitions of a registry are a graph on names : a name leads to the unguarded
references of its definition (`Registry.LeadsTo`). `wayTo` searches it depth first and
never follows a name twice. When it ends without a way, the names it has seen are
closed under the edges, hold all pending names and not the target
(`explored_of_wayTo`), so the target is out of reach. The bound of `cycle?` suffices for
that : the names that are not seen yet weigh less with each name that is followed
(`weight`).

A way that is found goes along these edges (`reaches_of_wayTo`). So the search finds a
cycle exactly where there is one (`cycle?_eq_none_iff`), and a definition that passes
closes none (`acyclic_of_extends`).
-/

namespace DataShape.Registry

open Relation

/-- One name is an unguarded reference of the definition of the other. -/
def LeadsTo (r : Registry) (n m : String) : Prop :=
  ∃ d, r.definition? n = some d ∧ m ∈ d.unguarded

/-- No name leads back to itself. -/
def Acyclic (r : Registry) : Prop :=
  ∀ n, ¬ TransGen r.LeadsTo n n

/-! ## The bound of the search -/

/-- How many looks the definitions that were not seen may still cost. -/
def weight (seen : List String) : List (String × Descriptor) → Nat
  | [] => 0
  | (n, d) :: ds => (if n ∈ seen then 0 else d.unguarded.length + 1) + weight seen ds

theorem weight_nil (ds : List (String × Descriptor)) :
    weight [] ds = (ds.flatMap fun e => e.2.unguarded).length + ds.length := by
  induction ds with
  | nil => rfl
  | cons e ds ih =>
    rw [weight, ih, if_neg List.not_mem_nil, List.flatMap_cons, List.length_append,
      List.length_cons]
    omega

theorem weight_anti {seen seen' : List String} (h : seen ⊆ seen')
    (ds : List (String × Descriptor)) : weight seen' ds ≤ weight seen ds := by
  induction ds with
  | nil => exact Nat.le_refl _
  | cons e ds ih =>
    have hhead : (if e.1 ∈ seen' then 0 else e.2.unguarded.length + 1) ≤
        if e.1 ∈ seen then 0 else e.2.unguarded.length + 1 := by
      by_cases he : e.1 ∈ seen
      · simp [he, h he]
      · simp only [he, if_false]
        split <;> omega
    exact Nat.add_le_add hhead ih

/-- Seeing a name pays for the looks at its references. -/
theorem weight_cons_add_le {seen : List String} {n : String} {d : Descriptor} (hn : n ∉ seen) :
    ∀ {ds : List (String × Descriptor)}, (n, d) ∈ ds →
      weight (n :: seen) ds + (d.unguarded.length + 1) ≤ weight seen ds
  | e :: ds, h => by
    rcases List.mem_cons.1 h with rfl | h
    · have hrest := weight_anti (List.subset_cons_self n seen) ds
      simp only [weight, hn, List.mem_cons_self, if_true, if_false]
      omega
    · have hrest := weight_cons_add_le hn h
      have hhead := weight_anti (List.subset_cons_self n seen) [e]
      simp only [weight] at hrest hhead ⊢
      omega

/-! ## A search that finds nothing -/

/-- What is known once a search from the pending names has ended without a way : they are seen, and
whatever was seen meanwhile is not the target and leads to seen names only. -/
structure Explored (r : Registry) (target : String) (pending seen seen' : List String) : Prop where
  keeps : seen ⊆ seen'
  covers : pending ⊆ seen'
  closed : ∀ n ∈ seen', n ∈ seen ∨ n ≠ target ∧ ∀ m, r.LeadsTo n m → m ∈ seen'

section Explored

variable {r : Registry} {target next : String} {rest seen seen' : List String}

theorem Explored.skip (h : r.Explored target rest seen seen') (hnext : next ∈ seen) :
    r.Explored target (next :: rest) seen seen' :=
  ⟨h.keeps, List.cons_subset.2 ⟨h.keeps hnext, h.covers⟩, h.closed⟩

/-- A name with no definition leads nowhere. -/
theorem Explored.leaf (h : r.Explored target rest (next :: seen) seen') (htarget : next ≠ target)
    (hdef : r.definition? next = none) : r.Explored target (next :: rest) seen seen' := by
  obtain ⟨hnext, hkeeps⟩ := List.cons_subset.1 h.keeps
  refine ⟨hkeeps, List.cons_subset.2 ⟨hnext, h.covers⟩, fun x hx => ?_⟩
  rcases h.closed x hx with hx | hx
  · rcases List.mem_cons.1 hx with rfl | hx
    · refine Or.inr ⟨htarget, fun m hlead => ?_⟩
      obtain ⟨d, hd, -⟩ := hlead
      exact nomatch hdef.symm.trans hd
    · exact Or.inl hx
  · exact Or.inr hx

/-- The references of a name are searched before the names that are still pending. -/
theorem Explored.node {d : Descriptor} {seen₁ : List String}
    (hinner : r.Explored target d.unguarded (next :: seen) seen₁)
    (hrest : r.Explored target rest seen₁ seen') (htarget : next ≠ target)
    (hdef : r.definition? next = some d) : r.Explored target (next :: rest) seen seen' := by
  obtain ⟨hnext, hkeeps⟩ := List.cons_subset.1 hinner.keeps
  refine ⟨fun x hx => hrest.keeps (hkeeps hx),
    List.cons_subset.2 ⟨hrest.keeps hnext, hrest.covers⟩, fun x hx => ?_⟩
  -- A name was seen before, is the one just followed, or was seen by one of the searches.
  rcases hrest.closed x hx with hx | hx
  · rcases hinner.closed x hx with hx | ⟨hx, hlead⟩
    · rcases List.mem_cons.1 hx with rfl | hx
      · refine Or.inr ⟨htarget, fun m hlead => ?_⟩
        obtain ⟨e, he, hm⟩ := hlead
        obtain rfl := Option.some.inj (hdef.symm.trans he)
        exact hrest.keeps (hinner.covers hm)
      · exact Or.inl hx
    · exact Or.inr ⟨hx, fun m hm => hrest.keeps (hlead m hm)⟩
  · exact Or.inr hx

end Explored

theorem explored_of_wayTo {r : Registry} {target : String} :
    ∀ {n : Nat} {pending seen seen' : List String},
      pending.length + weight seen r.definitions + 1 ≤ n →
      r.wayTo target n pending seen = (none, seen') → r.Explored target pending seen seen'
  | 0, _, _, _, hn, _ => absurd hn (by omega)
  | n + 1, [], seen, seen', _, h => by
    obtain rfl : seen = seen' := congrArg Prod.snd h
    exact ⟨List.Subset.refl _, List.nil_subset _, fun x hx => Or.inl hx⟩
  | n + 1, next :: rest, seen, seen', hn, h => by
    rw [List.length_cons] at hn
    rw [wayTo] at h
    by_cases htarget : next = target
    · simp [htarget] at h
    rw [if_neg htarget] at h
    by_cases hseen : next ∈ seen
    · rw [if_pos hseen] at h
      exact (explored_of_wayTo (by omega) h).skip hseen
    rw [if_neg hseen] at h
    cases hdef : r.definition? next with
    | none =>
      rw [hdef] at h
      have hweight := weight_anti (List.subset_cons_self next seen) r.definitions
      exact (explored_of_wayTo (by omega) h).leaf htarget hdef
    | some d =>
      have hpaid := weight_cons_add_le hseen (Keyed.mem_of_get? hdef)
      rw [hdef] at h
      rcases hsub : r.wayTo target n d.unguarded (next :: seen) with ⟨_ | way, seen₁⟩
      · simp only [hsub] at h
        have hinner := explored_of_wayTo (by omega) hsub
        have hweight := weight_anti hinner.keeps r.definitions
        exact hinner.node (explored_of_wayTo (by omega) h) htarget hdef
      · simp [hsub] at h

/-- Where no cycle is found the name is out of reach of the references of its definition. -/
theorem not_reaches_of_cycle?_eq_none {r : Registry} {name : String} {d : Descriptor}
    (h : r.cycle? name d = none) {m : String} (hm : m ∈ d.unguarded) :
    ¬ ReflTransGen r.LeadsTo m name := by
  obtain ⟨seen, hway⟩ : ∃ seen, r.wayTo name (r.searchBound d) d.unguarded [] = (none, seen) :=
    ⟨_, Prod.ext (Option.map_eq_none_iff.1 h) rfl⟩
  have hbound : d.unguarded.length + weight [] r.definitions + 1 ≤ r.searchBound d := by
    rw [weight_nil, searchBound]
    omega
  have hexplored := explored_of_wayTo hbound hway
  have hclosed : ∀ x ∈ seen, x ≠ name ∧ ∀ y, r.LeadsTo x y → y ∈ seen := fun x hx =>
    (hexplored.closed x hx).resolve_left (List.not_mem_nil)
  have hreached : ∀ x, ReflTransGen r.LeadsTo m x → x ∈ seen := by
    intro x hx
    induction hx with
    | refl => exact hexplored.covers hm
    | tail _ hlead ih => exact (hclosed _ ih).2 _ hlead
  exact fun hreach => (hclosed name (hreached name hreach)).1 rfl

/-! ## A search that finds a way -/

/-- A way that is found is one : it starts at a pending name and goes along definitions. -/
theorem reaches_of_wayTo {r : Registry} {target : String} :
    ∀ {n : Nat} {pending seen way seen' : List String},
      r.wayTo target n pending seen = (some way, seen') →
        ∃ m ∈ pending, ReflTransGen r.LeadsTo m target
  | 0, _, _, _, _, h => nomatch h
  | _ + 1, [], _, _, _, h => nomatch h
  | n + 1, next :: rest, seen, way, seen', h => by
    have hrest : (∃ m ∈ rest, ReflTransGen r.LeadsTo m target) →
        ∃ m ∈ next :: rest, ReflTransGen r.LeadsTo m target := fun ⟨m, hm, hreach⟩ =>
      ⟨m, List.mem_cons_of_mem _ hm, hreach⟩
    rw [wayTo] at h
    by_cases htarget : next = target
    · exact ⟨next, List.mem_cons_self, htarget ▸ .refl⟩
    rw [if_neg htarget] at h
    by_cases hseen : next ∈ seen
    · rw [if_pos hseen] at h
      exact hrest (reaches_of_wayTo h)
    rw [if_neg hseen] at h
    cases hdef : r.definition? next with
    | none =>
      rw [hdef] at h
      exact hrest (reaches_of_wayTo h)
    | some d =>
      rw [hdef] at h
      rcases hsub : r.wayTo target n d.unguarded (next :: seen) with ⟨_ | way, seen₁⟩
      · simp only [hsub] at h
        exact hrest (reaches_of_wayTo h)
      · obtain ⟨m, hm, hreach⟩ := reaches_of_wayTo hsub
        exact ⟨next, List.mem_cons_self, .head ⟨d, hdef, hm⟩ hreach⟩

/-- A cycle is found exactly if an unguarded reference of the definition leads to the name. -/
theorem cycle?_eq_none_iff {r : Registry} {name : String} {d : Descriptor} :
    r.cycle? name d = none ↔ ∀ m ∈ d.unguarded, ¬ ReflTransGen r.LeadsTo m name := by
  refine ⟨fun h m hm => not_reaches_of_cycle?_eq_none h hm, fun h => Option.map_eq_none_iff.2 ?_⟩
  rcases hway : r.wayTo name (r.searchBound d) d.unguarded [] with ⟨_ | way, seen⟩
  · rfl
  · obtain ⟨m, hm, hreach⟩ := reaches_of_wayTo hway
    exact absurd hreach (h m hm)

/-! ## One more definition -/

section Extend

variable {R S : String → String → Prop} {name : String}
  (hS : ∀ n m, S n m → n = name ∨ R n m)
include hS

/-- A way to the new name needs none of the new edges. -/
theorem reflTransGen_of_extends {n : String} (h : ReflTransGen S n name) :
    ReflTransGen R n name := by
  induction h using ReflTransGen.head_induction_on with
  | refl => exact .refl
  | head hlead _ ih =>
    rcases hS _ _ hlead with rfl | hlead
    · exact .refl
    · exact .head hlead ih

/-- A way that needs a new edge goes through the new name. -/
theorem transGen_or_through {n m : String} (h : TransGen S n m) :
    TransGen R n m ∨ ReflTransGen S n name ∧ TransGen S name m := by
  induction h using TransGen.head_induction_on with
  | single hlead =>
    rcases hS _ _ hlead with rfl | hlead'
    · exact Or.inr ⟨.refl, .single hlead⟩
    · exact Or.inl (.single hlead')
  | head hlead hrest ih =>
    rcases hS _ _ hlead with rfl | hlead'
    · exact Or.inr ⟨.refl, .head hlead hrest⟩
    · rcases ih with ih | ⟨hto, hfrom⟩
      · exact Or.inl (.head hlead' ih)
      · exact Or.inr ⟨.head hlead hto, hfrom⟩

/-- New edges out of one name close no cycle if the name is out of reach of what they lead to. -/
theorem acyclic_of_extends (hR : ∀ n, ¬ TransGen R n n)
    (hname : ∀ m, S name m → ¬ ReflTransGen R m name) (n : String) : ¬ TransGen S n n := by
  intro h
  rcases transGen_or_through hS h with h | ⟨hto, hfrom⟩
  · exact hR n h
  · obtain ⟨m, hlead, hback⟩ := TransGen.head'_iff.1 (hfrom.trans_left hto)
    exact hname m hlead (reflTransGen_of_extends hS hback)

end Extend

end DataShape.Registry
