import DataShape.Proofs.Registry.Cycle
import DataShape.Proofs.Registry.Usage

/-!
# Sound registries

Entries and definitions are kept in two lists, and both change with every step. What
ties them together (`Registry.Sound`) : no name is blank, a name with a definition is
registered with the checker of that definition, and no name leads back to itself
through unguarded references. Each step of a registry keeps this, whatever checkers are
registered, so it holds of all registries at any time (`entries_match_definitions`).
-/

namespace DataShape

namespace Registry

open Relation

/-- What is true of the registry of a number at any time. -/
structure Sound (i : Nat) (r : Registry) : Prop where
  named : ∀ name, r.contains name = true → Text.isBlank name = false
  /-- The compiled checker, its references bound to this registry. -/
  compiled : ∀ name d, r.definition? name = some d → ∃ n, r.get? name = some (d.compile i n).1
  acyclic : r.Acyclic

theorem sound_empty (i : Nat) : empty.Sound i where
  named _ h := nomatch h
  compiled _ _ h := nomatch h
  acyclic n h := by
    obtain ⟨m, ⟨d, hd, -⟩, -⟩ := TransGen.head'_iff.1 h
    exact nomatch hd

variable {i n n' : Nat} {r r' : Registry} {name : String} {c : Checker} {d : Descriptor}

/-- A new name that is not blank leaves all names not blank. -/
theorem named_of_get? (hblank : Text.isBlank name = false)
    (hget : ∀ x, r'.get? x = if name = x then some c else r.get? x)
    (h : ∀ x, r.contains x = true → Text.isBlank x = false) (x : String)
    (hx : r'.contains x = true) : Text.isBlank x = false := by
  by_cases hname : name = x
  · exact hname ▸ hblank
  · rw [contains, hget, if_neg hname] at hx
    exact h x hx

theorem Sound.register (h : r.Sound i) (hr : r.register name c = .ok r') : r'.Sound i := by
  obtain ⟨hblank, hnone, -⟩ := register_eq_ok.1 hr
  have hget := get?_of_register hr
  have hdef := definition?_of_register hr
  refine ⟨named_of_get? hblank hget h.named, fun x e hx => ?_, fun x hx => ?_⟩
  · rw [hdef] at hx
    obtain ⟨n, hn⟩ := h.compiled x e hx
    have hne : name ≠ x := by
      rintro rfl
      exact nomatch hnone.symm.trans hn
    rw [hget, if_neg hne]
    exact ⟨n, hn⟩
  · have hedges : r'.LeadsTo ≤ r.LeadsTo := fun y m hlead => by
      obtain ⟨e, he, hm⟩ := hlead
      exact ⟨e, hdef y ▸ he, hm⟩
    exact h.acyclic x (TransGen.mono hedges x x hx)

theorem Sound.define (h : r.Sound i) (hr : r.define i n name d = .ok (r', n')) : r'.Sound i := by
  obtain ⟨hcycle, hblank, -⟩ := define_eq_ok.1 hr
  have hget := get?_of_define hr
  have hdef := definition?_of_define hr
  refine ⟨named_of_get? hblank hget h.named, fun x e hx => ?_, ?_⟩
  · rw [hdef] at hx
    rw [hget]
    by_cases hname : name = x
    · rw [if_pos hname] at hx ⊢
      obtain rfl := Option.some.inj hx
      exact ⟨n, rfl⟩
    · rw [if_neg hname] at hx ⊢
      exact h.compiled x e hx
  · have hedges : ∀ x m, r'.LeadsTo x m → x = name ∨ r.LeadsTo x m := by
      intro x m hlead
      obtain ⟨e, he, hm⟩ := hlead
      rw [hdef] at he
      by_cases hname : name = x
      · exact Or.inl hname.symm
      · exact Or.inr ⟨e, by rwa [if_neg hname] at he, hm⟩
    refine acyclic_of_extends hedges h.acyclic fun m hlead => ?_
    obtain ⟨e, he, hm⟩ := hlead
    rw [hdef, if_pos rfl] at he
    obtain rfl := Option.some.inj he
    exact not_reaches_of_cycle?_eq_none hcycle hm

theorem Sound.remove (h : r.Sound i) : (r.remove name).Sound i := by
  refine ⟨fun x hx => ?_, fun x e hx => ?_, fun x hx => ?_⟩
  · rw [contains, get?_remove] at hx
    split at hx
    · exact nomatch hx
    · exact h.named x hx
  · rw [definition?_remove] at hx
    rw [get?_remove]
    by_cases hname : name = x
    · rw [if_pos hname] at hx
      cases hx
    · rw [if_neg hname] at hx ⊢
      exact h.compiled x e hx
  · have hedges : (r.remove name).LeadsTo ≤ r.LeadsTo := fun y m hlead => by
      obtain ⟨e, he, hm⟩ := hlead
      rw [definition?_remove] at he
      split at he
      · exact nomatch he
      · exact ⟨e, he, hm⟩
    exact h.acyclic x (TransGen.mono hedges x x hx)

theorem Sound.step {a : Action} (h : r.Sound i) (hr : Registry.Step i a r r') : r'.Sound i := by
  cases hr with
  | register hr => exact h.register hr
  | define hr => exact h.define hr
  | remove => exact h.remove

end Registry

theorem Usage.Reachable.sound {allowed : Usage → Action → Prop} {u : Usage}
    (hu : u.Reachable allowed) : u.registries.Every Registry.Sound :=
  hu.every Registry.sound_empty fun _ _ _ _ _ _ h hr => h.step hr

/-- Names, entries and definitions of all registries at any time, whatever was done through the
handles before and whether it failed or not. -/
theorem entries_match_definitions {u : Usage} (hu : u.Reachable fun _ _ => True) {i : Nat}
    {r : Registry} (hr : (i, r) ∈ u.registries.stores) :
    (∀ name c, r.get? name = some c → Text.isBlank name = false) ∧
      (∀ name d, r.definition? name = some d → ∃ n, r.get? name = some (d.compile i n).1) ∧
      ∀ name, ¬ Relation.TransGen r.LeadsTo name name := by
  have h : r.Sound i := hu.sound _ hr
  exact ⟨fun name c hc => h.named name (Registry.contains_eq_true.2 ⟨c, hc⟩), h.compiled, h.acyclic⟩

/-- The third definition would close a cycle of three and fails, the fourth one does not. -/
theorem entries_match_three_definitions :
    let u := ((((Usage.empty.act (.define "global" "a" (.any [.ref "b", .kind .null]))).act
      (.define "global" "b" (.nullable (.ref "c")))).act
      (.define "global" "c" (.ref "a"))).act
      (.define "global" "c" (.array (.ref "a"))))
    u.Reachable (fun _ _ => True) ∧ (0, u.registries.registry 0) ∈ u.registries.stores ∧
      (u.registries.registry 0).names = ["a", "b", "c"] ∧
      ¬ Relation.TransGen (u.registries.registry 0).LeadsTo "a" "a" := by
  intro u
  have hu : u.Reachable fun _ _ => True :=
    .act (.act (.act (.act .start trivial) trivial) trivial) trivial
  have hr : (0, u.registries.registry 0) ∈ u.registries.stores := List.mem_singleton.2 rfl
  exact ⟨hu, hr, by decide, (entries_match_definitions hu hr).2.2 "a"⟩

end DataShape
