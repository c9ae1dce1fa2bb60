import DataShape.Shape
import Mathlib.Data.Finset.Card
import Mathlib.Data.List.Induction

/-!
# Shapes and what was declared

However a shape is made, by collecting pairs and by calls one after the other, it is what declaring
properties in turn leaves (`Shape.build_eq_ofList`). The keys come in the order of their first
declaration (`Keyed.keys_ofList`), and under each key there is what was declared for it last
(`Keyed.get?_ofList`). The rest about shapes follows from these two (`Shape.dictionary_build`).
-/

namespace DataShape

namespace Keyed

variable {κ α : Type}

/-- The last pair with this key has this value. -/
def LastIn (es : List (κ × α)) (k : κ) (v : α) : Prop :=
  ∃ pre post, es = pre ++ (k, v) :: post ∧ k ∉ keys post

theorem not_lastIn_nil {k : κ} {v : α} : ¬ LastIn [] k v := by
  rintro ⟨pre, post, heq, -⟩
  exact List.append_ne_nil_of_right_ne_nil pre (List.cons_ne_nil _ post) heq.symm

theorem LastIn.mem {es : List (κ × α)} {k : κ} {v : α} (h : LastIn es k v) : (k, v) ∈ es := by
  obtain ⟨pre, post, rfl, -⟩ := h
  exact List.mem_append_right _ List.mem_cons_self

theorem lastIn_append_singleton {es : List (κ × α)} {a k : κ} {b v : α} :
    LastIn (es ++ [(a, b)]) k v ↔ a = k ∧ b = v ∨ a ≠ k ∧ LastIn es k v := by
  constructor
  · rintro ⟨pre, post, heq, hpost⟩
    rcases List.eq_nil_or_concat' post with rfl | ⟨post, e, rfl⟩
    · obtain ⟨-, hlast⟩ := List.append_inj' heq rfl
      exact Or.inl (Prod.mk.inj (List.singleton_inj.1 hlast))
    · rw [← List.cons_append, ← List.append_assoc] at heq
      obtain ⟨rfl, he⟩ := List.append_inj' heq rfl
      obtain rfl := List.singleton_inj.1 he
      rw [keys, List.map_append, List.mem_append, not_or, List.map_singleton,
        List.mem_singleton] at hpost
      exact Or.inr ⟨Ne.symm hpost.2, pre, post, rfl, hpost.1⟩
  · rintro (⟨rfl, rfl⟩ | ⟨hne, pre, post, rfl, hpost⟩)
    · exact ⟨es, [], rfl, List.not_mem_nil⟩
    · refine ⟨pre, post ++ [(a, b)], by simp, ?_⟩
      rw [keys, List.map_append, List.mem_append, not_or, List.map_singleton, List.mem_singleton]
      exact ⟨hpost, Ne.symm hne⟩

variable [DecidableEq κ]

theorem ofList_append_singleton (es : List (κ × α)) (k : κ) (v : α) :
    ofList (es ++ [(k, v)]) = put k v (ofList es) := by
  rw [ofList, List.foldl_append]
  rfl

/-- Keys come in the order in which they are written first. -/
theorem keys_ofList (es : List (κ × α)) : keys (ofList es) = (keys es).eraseDups := by
  induction es using List.reverseRecOn with
  | nil => rfl
  | append_singleton es e ih =>
    obtain ⟨k, v⟩ := e
    have hkeys : keys (es ++ [(k, v)]) = keys es ++ [k] := List.map_append
    rw [ofList_append_singleton, keys_put, ih, hkeys, List.eraseDups_append]
    simp only [List.mem_eraseDups]
    by_cases hmem : k ∈ keys es <;> simp [List.removeAll, hmem, List.eraseDups_cons]

/-- At a key there is what was written last. -/
theorem get?_ofList {es : List (κ × α)} {k : κ} {v : α} :
    get? k (ofList es) = some v ↔ LastIn es k v := by
  induction es using List.reverseRecOn with
  | nil => exact ⟨fun h => (nomatch h), fun h => absurd h not_lastIn_nil⟩
  | append_singleton es e ih =>
    obtain ⟨a, b⟩ := e
    rw [ofList_append_singleton, get?_put, lastIn_append_singleton, ← ih]
    by_cases hak : a = k <;> simp [hak]

end Keyed

namespace Shape

/-! ## Making a shape -/

/-- A call that declares a property. -/
inductive Call where
  | insert (key : String) (p : Property)
  | entry (key : String) (p : Property)
  | field (key : String) (c : Checker)
  | lazy (key : String) (c : Checker)
  /-- With the checker that the producer yields, if it yields one. -/
  | tryLazy (key : String) (c : Option Checker)

namespace Call

/-- The key as it is given. -/
def key : Call → String
  | insert key _ | entry key _ | field key _ | lazy key _ | tryLazy key _ => key

/-- The property that is declared. -/
def property : Call → Property
  | insert _ p | entry _ p => p
  | field _ c => .direct c
  | lazy _ c | tryLazy _ (some c) => .produced none c
  | tryLazy _ none => .barren none

/-- What becomes of a shape. -/
def on (s : Shape) : Call → Shape
  | insert key p => (s.insert key p).2
  | entry key p => s.entry key p
  | field key c => s.field key c
  | lazy key c => s.lazy key c
  | tryLazy key c => s.tryLazy key c

/-- Every call declares its property in the same way. -/
theorem on_eq_entry (s : Shape) (call : Call) : call.on s = s.entry call.key call.property := by
  cases call with
  | tryLazy key c => cases c <;> rfl
  | _ => rfl

end Call

/-- The shape collected from pairs, after these calls. -/
def build (pairs : List (String × Property)) (calls : List Call) : Shape :=
  calls.foldl Call.on (ofList pairs)

/-- What is declared by collecting these pairs and by these calls, in turn. -/
def declarations (pairs : List (String × Property)) (calls : List Call) :
    List (DeclaredKey × Property) :=
  pairs.map (fun p => (⟨p.1⟩, p.2)) ++ calls.map fun call => (⟨call.key⟩, call.property)

theorem build_eq_ofList (pairs : List (String × Property)) (calls : List Call) :
    build pairs calls = ofList (pairs ++ calls.map fun call => (call.key, call.property)) := by
  have hcalls : Call.on = fun s call => s.entry call.key call.property := funext₂ Call.on_eq_entry
  rw [build, hcalls, ofList, ofList, List.foldl_append, List.foldl_map]

theorem properties_ofList (ps : List (String × Property)) :
    (ofList ps).properties = Keyed.ofList (ps.map fun p => (⟨p.1⟩, p.2)) := by
  induction ps using List.reverseRecOn with
  | nil => rfl
  | append_singleton ps p ih =>
    rw [List.map_append, List.map_singleton, Keyed.ofList_append_singleton, ← ih, ofList,
      List.foldl_append]
    rfl

theorem properties_build (pairs : List (String × Property)) (calls : List Call) :
    (build pairs calls).properties = Keyed.ofList (declarations pairs calls) := by
  rw [build_eq_ofList, properties_ofList, List.map_append, List.map_map]
  rfl

/-- The keys of a shape stand in the order of their first declaration. -/
theorem keys_ofList (ps : List (String × Property)) :
    (ofList ps).keys = (ps.map fun p => DeclaredKey.mk p.1).eraseDups := by
  rw [keys, properties_ofList, Keyed.keys_ofList, Keyed.keys, List.map_map]
  rfl

/-! ## Shapes as dictionaries -/

/-- The shape is a dictionary of these declarations in the order of the keys. -/
structure Dictionary (s : Shape) (ds : List (DeclaredKey × Property)) : Prop where
  /-- The keys, in the order of first declaration. -/
  keys_eq : s.keys = (Keyed.keys ds).eraseDups
  once : ∀ k ∈ Keyed.keys ds, s.keys.count k = 1
  /-- The properties are those declared last. -/
  mem_iff : ∀ k p, (k, p) ∈ s.properties ↔ Keyed.LastIn ds k p
  /-- Declaring a key again tells what was declared for exactly this key. -/
  insert_some : ∀ key p q, (s.insert key q).1 = some p ↔ Keyed.LastIn ds ⟨key⟩ p
  insert_none : ∀ key q, (s.insert key q).1 = none ↔ ⟨key⟩ ∉ Keyed.keys ds
  size_eq : s.size = (Keyed.keys ds).toFinset.card
  /-- Names and options are read off the declared keys. -/
  fields_eq : s.fields = (Keyed.keys ds).eraseDups.map fun k => (k.name, k.isOptional)

theorem dictionary_of_properties_eq {s : Shape} {ds : List (DeclaredKey × Property)}
    (h : s.properties = Keyed.ofList ds) : s.Dictionary ds := by
  have hkeys : s.keys = (Keyed.keys ds).eraseDups := by
    rw [keys, h, Keyed.keys_ofList]
  have hmem : ∀ k, k ∈ s.keys ↔ k ∈ Keyed.keys ds := fun k => by
    rw [hkeys, List.mem_eraseDups]
  have hfound : ∀ k p, Keyed.get? k s.properties = some p ↔ Keyed.LastIn ds k p := fun k p => by
    rw [h, Keyed.get?_ofList]
  refine ⟨hkeys, fun k hk => ?_, fun k p => ?_, fun key p q => hfound ⟨key⟩ p, fun key q => ?_,
    ?_, ?_⟩
  · exact List.count_eq_one_of_mem s.distinct ((hmem k).2 hk)
  · rw [← hfound, Keyed.get?_eq_some_iff s.distinct]
  · rw [← hmem]
    exact Keyed.get?_eq_none_iff ⟨key⟩ s.properties
  · have hset : (Keyed.keys ds).toFinset = s.keys.toFinset := by
      ext k
      rw [List.mem_toFinset, List.mem_toFinset, hmem]
    have hcard : s.keys.toFinset.card = s.keys.length := List.toFinset_card_of_nodup s.distinct
    rw [hset, hcard]
    exact (List.length_map _).symm
  · rw [fields, hkeys]

theorem dictionary_build (pairs : List (String × Property)) (calls : List Call) :
    (build pairs calls).Dictionary (declarations pairs calls) :=
  dictionary_of_properties_eq (properties_build pairs calls)

end Shape

end DataShape
