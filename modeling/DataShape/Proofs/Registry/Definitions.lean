import DataShape.Proofs.Registry.Numbering
import DataShape.Proofs.Registry.Soundness

/-!
# Registries filled by definitions

In a run that registers nothing but by definitions (`Usage.Defines`) every entry is
compiled from its definition, and so is every checker that is handed out
(`Usage.Reachable.compiled`). A reference then leads from entry to entry only as the
definitions of one registry lead from name to name (`Usage.Reachable.leadsTo`), and
these have no cycle. So the search for cycles, which looks at descriptors when they
are defined, makes the guard, which looks at references in progress when values are
checked, needless (`compiled_needs_no_guard`).
-/

namespace DataShape

open Relation

/-- Every registered name has a definition. -/
def Registry.Described (r : Registry) : Prop :=
  ∀ name c, r.get? name = some c → ∃ d, r.definition? name = some d

/-- Nothing is registered but by a definition. -/
def Usage.Defines (_ : Usage) : Action → Prop
  | .register _ _ _ => False
  | _ => True

theorem Usage.Defines.composes {u : Usage} {a : Action} (h : u.Defines a) : u.Composes a := by
  cases a with
  | register handle name c => exact h.elim
  | _ => trivial

theorem Registry.Described.step {u : Usage} {a : Action} {i : Nat} {r r' : Registry}
    (h : r.Described) (ha : u.Defines a) (hr : Registry.Step i a r r') : r'.Described := by
  intro x c hx
  cases hr with
  | register _ => exact ha.elim
  | @define _ name d _ _ _ _ hr =>
    rw [get?_of_define hr] at hx
    rw [definition?_of_define hr]
    by_cases hname : name = x
    · exact ⟨d, if_pos hname⟩
    · rw [if_neg hname] at hx ⊢
      exact h x c hx
  | @remove _ name _ =>
    rw [get?_remove] at hx
    rw [definition?_remove]
    by_cases hname : name = x
    · rw [if_pos hname] at hx
      cases hx
    · rw [if_neg hname] at hx ⊢
      exact h x c hx

namespace Usage

variable {u : Usage}

/-- What is found under a name is compiled from its definition. -/
theorem Reachable.definition (hu : u.Reachable Defines) {i : Nat} {name : String} {c : Checker}
    (hc : (u.registries.registry i).get? name = some c) :
    ∃ d n, (u.registries.registry i).definition? name = some d ∧ c = (d.compile i n).1 := by
  have hdescribed : u.registries.Every fun _ r => r.Described :=
    hu.every (fun _ _ _ h => nomatch h) fun _ _ ha _ _ _ h hr => h.step ha hr
  obtain ⟨d, hd⟩ := hdescribed.registry (fun _ _ _ h => nomatch h) i name c hc
  obtain ⟨n, hn⟩ := (hu.sound.registry Registry.sound_empty i).compiled name d hd
  exact ⟨d, n, hd, Option.some.inj (hc.symm.trans hn)⟩

/-- Whatever is handed out is a compiled descriptor. -/
theorem Reachable.compiled (hu : u.Reachable Defines) :
    ∀ c ∈ u.held, ∃ (d : Descriptor) (i n : Nat), c = (d.compile i n).1 := by
  induction hu with
  | start => exact fun c hc => nomatch hc
  | @act u a hu ha ih =>
    intro c hc
    rcases List.mem_append.1 hc with hc | hc
    swap
    · exact ih c hc
    cases a with
    | register handle name c => exact ha.elim
    | define handle name d | clear handle | deferred handle name | share handle other
    | drop handle => exact nomatch hc
    | remove handle name =>
      -- The entry is read once the handle has a registry.
      have hlocated : (u.act (.deferred handle name)).Reachable Defines := hu.act trivial
      obtain ⟨d, n, -, rfl⟩ := hlocated.definition (Option.mem_toList.1 hc)
      exact ⟨d, _, n, rfl⟩
    | get handle name =>
      have hget : (u.registries.view handle).get? name = some c := Option.mem_toList.1 hc
      unfold Registries.view at hget
      split at hget
      · obtain ⟨d, n, -, rfl⟩ := hu.definition hget
        exact ⟨d, _, n, rfl⟩
      · exact nomatch hget
    | reference handle name =>
      obtain rfl := List.mem_singleton.1 hc
      exact ⟨.ref name, _, _, rfl⟩
    | compile handle d =>
      obtain rfl := List.mem_singleton.1 hc
      exact ⟨d, _, _, rfl⟩

/-- An entry leads on as the definitions of its registry do. -/
theorem Reachable.leadsTo (hu : u.Reachable Defines) {a b : Address}
    (h : Leads u.registries.environment a b) :
    ∃ i n m, a = .entry i n ∧ b = .entry i m ∧ (u.registries.registry i).LeadsTo n m := by
  obtain ⟨c, l, hc, hl, rfl⟩ := h
  obtain ⟨i, name, rfl⟩ := Registries.entry_of_get?_environment hc
  rw [Registries.get?_environment hu.distinct] at hc
  obtain ⟨d, n, hd, rfl⟩ := hu.definition hc
  obtain ⟨m, hm, haddress⟩ := Descriptor.address_of_mem_openLookups i hl
  exact ⟨i, name, m, rfl, haddress, d, hd, hm⟩

/-- No entry leads back to itself. -/
theorem Reachable.not_leads (hu : u.Reachable Defines) (a : Address) :
    ¬ TransGen (Leads u.registries.environment) a a := by
  have hways : ∀ b, TransGen (Leads u.registries.environment) a b → ∃ i n m,
      a = .entry i n ∧ b = .entry i m ∧ TransGen (u.registries.registry i).LeadsTo n m := by
    intro b h
    induction h with
    | single h =>
      obtain ⟨i, n, m, ha, hb, hlead⟩ := hu.leadsTo h
      exact ⟨i, n, m, ha, hb, .single hlead⟩
    | tail _ h ih =>
      obtain ⟨i, n, m, ha, rfl, hway⟩ := ih
      obtain ⟨j, m', k, heq, hb, hlead⟩ := hu.leadsTo h
      obtain ⟨rfl, rfl⟩ := Address.entry.inj heq
      exact ⟨i, n, k, ha, hb, hway.tail hlead⟩
  intro h
  obtain ⟨i, n, m, ha, hb, hway⟩ := hways a h
  obtain ⟨-, rfl⟩ := Address.entry.inj (ha.symm.trans hb)
  exact (hu.sound.registry Registry.sound_empty i).acyclic n hway

end Usage

/-- In a run that registers nothing but by definitions no check of a compiled descriptor or of a
reference reaches a reference again while it is in progress for the same place. Asking without a
guard ends by any bound that is large enough, and gives the answer of the check. -/
theorem compiled_needs_no_guard {u : Usage} (hu : u.Reachable Usage.Defines) {c : Checker}
    (hc : c ∈ u.held) (v : Value) (j : List Event) :
    ∃ answer es, u.registries.environment.check c v ⟨[], j⟩ = (answer, ⟨[], es ++ j⟩) ∧
      (∀ l place, Event.reentered l place ∉ es) ∧
      ∃ n, ∀ m, n ≤ m → ∀ t, ∃ t',
        Checker.askFreely u.registries.environment m c .root v t = some (answer, t') := by
  obtain ⟨known, horderly⟩ := hu.orderly fun _ _ ha => ha.composes
  have hempty : Stack.ClearFrom [] .root := fun e he => nomatch he
  exact checkAt_eq_askFreely horderly.registries.coherent horderly.registries.environment
    hu.not_leads (horderly.held c hc) .root v hempty

/-- A checker that was compiled before the name it refers to was removed and defined anew. -/
theorem nested_needs_no_guard :
    let u := (((Usage.empty.act (.define "global" "leaf" (.kind .string))).act
      (.compile "global" (.any [.ref "leaf", .array (.ref "tree")]))).act
      (.remove "global" "leaf")).act
      (.define "global" "leaf" (.nullable (.array (.ref "leaf"))))
    let c := Checker.any [.reference ⟨1, .entry 0 "leaf"⟩, .array (.reference ⟨2, .entry 0 "tree"⟩)]
    u.Reachable Usage.Defines ∧ c ∈ u.held ∧ ∃ n, ∀ m, n ≤ m → ∀ t, ∃ t',
      Checker.askFreely u.registries.environment m c .root (.array [.null, .array []]) t =
        some (true, t') := by
  intro u c
  have hu : u.Reachable Usage.Defines :=
    .act (.act (.act (.act .start trivial) trivial) trivial) trivial
  have hc : c ∈ u.held := List.mem_cons_of_mem _ List.mem_cons_self
  obtain ⟨answer, es, hcheck, -, hfree⟩ :=
    compiled_needs_no_guard hu hc (.array [.null, .array []]) []
  have hanswer : (u.registries.environment.check c (.array [.null, .array []]) ⟨[], []⟩).1 =
      true := by decide
  obtain rfl : true = answer := hanswer.symm.trans (congrArg Prod.fst hcheck)
  exact ⟨hu, hc, hfree⟩

end DataShape
