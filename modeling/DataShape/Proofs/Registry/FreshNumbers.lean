import DataShape.Proofs.Registry.Usage

/-!
# Numbers in use

Checkers that are registered may hold instruments of any kind, but their references have been handed
out before (`Usage.Cites`). So at any time of a run the references that can be met have numbers
below the next free one (`Usage.below_of_reachable`) : a new reference is told apart from all of
them. One action at a time, only what it registers or hands out has to be looked at
(`Registries.Below.act`, `Usage.Below.act`).
-/

namespace DataShape

/-- The references in a checker have numbers below this one. -/
def Checker.Below (n : Nat) (c : Checker) : Prop :=
  ∀ l ∈ c.lookups, l.serial < n

theorem Checker.Below.mono {n n' : Nat} {c : Checker} (h : c.Below n) (hle : n ≤ n') : c.Below n' :=
  fun l hl => Nat.lt_of_lt_of_le (h l hl) hle

/-- So do those in the registered checkers. -/
def Registry.Below (n : Nat) (r : Registry) : Prop :=
  ∀ e ∈ r.entries, e.2.Below n

theorem Registry.below_empty (n : Nat) : Registry.empty.Below n :=
  fun _ he => nomatch he

theorem Registry.Below.put {n : Nat} {r : Registry} (h : r.Below n) {name : String} {c : Checker}
    (hc : c.Below n) : ∀ e ∈ Keyed.put name c r.entries, e.2.Below n := by
  intro e he
  rcases Keyed.mem_or_eq_of_mem_put he with rfl | he
  · exact hc
  · exact h e he

namespace Registries

variable {s : Registries} {n : Nat}

/-- The references in all registries have numbers below this one. -/
def Below (n : Nat) (s : Registries) : Prop :=
  s.Every fun _ r => r.Below n

theorem Below.mono {n' : Nat} (h : s.Below n) (hle : n ≤ n') : s.Below n' :=
  fun e he f hf => (h e he f hf).mono hle

theorem Below.registry (h : s.Below n) (i : Nat) : (s.registry i).Below n :=
  Every.registry h (fun _ => Registry.below_empty n) i

theorem Below.get? (h : s.Below n) {i : Nat} {name : String} {c : Checker}
    (hc : (s.registry i).get? name = some c) : c.Below n :=
  h.registry i _ (Keyed.mem_of_get? hc)

theorem Below.environment (h : s.Below n) : ∀ e ∈ s.environment, e.2.Below n := by
  intro e he
  obtain ⟨store, hstore, he⟩ := List.mem_flatMap.1 he
  obtain ⟨entry, hentry, rfl⟩ := List.mem_map.1 he
  exact h store hstore entry hentry

/-- An action that does not define anything keeps a bound of what it registers. -/
theorem Below.act_of_bound (h : s.Below n) {a : Action}
    (hdefine : ∀ handle name d, a ≠ .define handle name d)
    (hregister : ∀ handle name c, a = .register handle name c → c.Below n) :
    (s.act a).2.Below n := by
  refine (follows_act s a).every _ (fun _ => Registry.below_empty n) (fun i r r' hr hstep => ?_) h
  cases hstep with
  | register hok =>
    obtain ⟨-, -, rfl⟩ := Registry.register_eq_ok.1 hok
    exact Registry.Below.put hr (hregister _ _ _ rfl)
  | define => exact absurd rfl (hdefine _ _ _)
  | remove => exact fun e he => hr e (Keyed.mem_of_mem_erase he)

/-- Finding the registry of a handle is all that making a deferred property does. -/
theorem Below.locate (h : s.Below n) (handle : String) : (s.locate handle).2.Below n :=
  h.act_of_bound (a := .deferred handle "") nofun nofun

theorem Below.define (h : s.Below s.next) (handle name : String) (d : Descriptor) :
    (s.define handle name d).2.Below (s.define handle name d).2.next := by
  have hlocated := (h.locate handle).mono (follows_locate (.define handle name d) s handle).next_le
  simp only [Registries.define]
  split
  · rename_i r n hr
    obtain ⟨-, -, -, rfl, rfl⟩ := Registry.define_eq_ok.1 hr
    have hnumbered := Descriptor.numbered_compile (s.locate handle).1 d (s.locate handle).2.next
    have hall := hlocated.mono hnumbered.le
    exact Every.store (P := fun _ r => r.Below _) hall
      (Registry.Below.put (hall.registry _) fun l hl => (hnumbered.bounds l hl).2)
  · exact hlocated

/-- An action registers nothing but what has numbers already. -/
theorem Below.act (h : s.Below s.next) {a : Action}
    (hregister : ∀ handle name c, a = .register handle name c → c.Below s.next) :
    (s.act a).2.Below (s.act a).2.next := by
  by_cases hdefine : ∃ handle name d, a = .define handle name d
  · obtain ⟨handle, name, d, rfl⟩ := hdefine
    exact h.define handle name d
  · simp only [not_exists] at hdefine
    exact (h.act_of_bound hdefine hregister).mono (follows_act s a).next_le

end Registries

namespace Usage

/-- The references of a checker that is registered were handed out. -/
def Cites (u : Usage) : Action → Prop
  | .register _ _ c => c.lookups ⊆ u.held.flatMap Checker.lookups
  | _ => True

/-- All references in use have numbers below the next free one. -/
structure Below (u : Usage) : Prop where
  registries : u.registries.Below u.registries.next
  held : ∀ c ∈ u.held, c.Below u.registries.next

variable {u : Usage}

theorem Below.of_subset (h : u.Below) {c : Checker}
    (hc : c.lookups ⊆ u.held.flatMap Checker.lookups) : c.Below u.registries.next := by
  intro l hl
  obtain ⟨d, hd, hl⟩ := List.mem_flatMap.1 (hc hl)
  exact h.held d hd l hl

theorem Below.act (h : u.Below) {a : Action} (ha : u.Cites a) : (u.act a).Below := by
  have hle := (Registries.follows_act u.registries a).next_le
  have hlocate : ∀ handle, (u.registries.locate handle).2.Below (u.act a).registries.next :=
    fun handle => (h.registries.locate handle).mono hle
  refine ⟨h.registries.act fun handle name c hc => ?_, List.forall_mem_append.2
    ⟨?_, fun c hc => (h.held c hc).mono hle⟩⟩
  · subst hc
    exact h.of_subset ha
  -- What is handed out was registered, or its references are new.
  · cases a with
    | register _ _ _ | define _ _ _ | clear _ | deferred _ _ | share _ _ | drop _ =>
      exact fun _ hc => nomatch hc
    | remove handle name => exact fun c hc => (hlocate handle).get? (Option.mem_toList.1 hc)
    | get handle name =>
      intro c hc
      have hget : (u.registries.view handle).get? name = some c := Option.mem_toList.1 hc
      unfold Registries.view at hget
      split at hget
      · exact h.registries.get? hget
      · exact nomatch hget
    | reference handle name =>
      rintro c hc l hl
      obtain rfl := List.mem_singleton.1 hc
      obtain rfl := List.mem_singleton.1 hl
      exact Nat.lt_succ_self _
    | compile handle d =>
      rintro c hc l hl
      obtain rfl := List.mem_singleton.1 hc
      exact ((Descriptor.numbered_compile _ d _).bounds l hl).2

theorem below_empty : empty.Below where
  registries e he := by
    obtain rfl := List.mem_singleton.1 he
    exact Registry.below_empty _
  held _ hc := nomatch hc

/-- At any time of a run a new number is above those in use. -/
theorem below_of_reachable (hu : u.Reachable Cites) : u.Below := by
  induction hu with
  | start => exact below_empty
  | act _ ha ih => exact ih.act ha

end Usage

end DataShape
