import DataShape.Proofs.Descriptor.Compiled
import DataShape.Proofs.Registry.Operations
import DataShape.Registry.Shared

/-!
# Runs over registries

An action goes through a handle, and a run is any order of actions, failed ones
included (`Usage.Reachable`). A run keeps the checkers that were handed out on the way :
references that were made, descriptors that were compiled, and entries that were read
or removed. Whoever runs may keep to a rule about what is registered (`allowed`).

An action changes at most one registry, and that by registering a checker, by defining
a name or by removing one (`Registry.Step`). What these three keep of every registry
holds of all registries at any time (`Usage.Reachable.every`).
-/

namespace DataShape

/-- What is done through a handle. -/
inductive Action where
  | register (handle name : String) (c : Checker)
  | define (handle name : String) (d : Descriptor)
  | remove (handle name : String)
  | clear (handle : String)
  | get (handle name : String)
  | reference (handle name : String)
  | deferred (handle name : String)
  | compile (handle : String) (d : Descriptor)
  | share (handle other : String)
  | drop (handle : String)

namespace Registries

/-- Does an action. Gives the checkers that are handed out. -/
def act (s : Registries) : Action → List Checker × Registries
  | .register handle name c => ([], (s.register handle name c).2)
  | .define handle name d => ([], (s.define handle name d).2)
  | .remove handle name => ((s.remove handle name).1.toList, (s.remove handle name).2)
  | .clear handle => ([], s.clear handle)
  | .get handle name => (((s.view handle).get? name).toList, s)
  | .reference handle name => ([(s.reference handle name).1], (s.reference handle name).2)
  | .deferred handle name => ([], (s.deferred handle name).2)
  | .compile handle d => ([(s.compile handle d).1], (s.compile handle d).2)
  | .share handle other => ([], s.share handle other)
  | .drop handle => ([], s.drop handle)

end Registries

/-- Registries in use, with the checkers that were handed out so far. -/
structure Usage where
  registries : Registries
  held : List Checker

namespace Usage

def empty : Usage :=
  ⟨.empty, []⟩

def act (u : Usage) (a : Action) : Usage :=
  ⟨(u.registries.act a).2, (u.registries.act a).1 ++ u.held⟩

/-- What can come about by allowed actions. -/
inductive Reachable (allowed : Usage → Action → Prop) : Usage → Prop where
  | start : Reachable allowed empty
  | act {u a} (h : Reachable allowed u) (ha : allowed u a) : Reachable allowed (u.act a)

/-- Does actions in turn. -/
def run (u : Usage) (as : List Action) : Usage :=
  as.foldl act u

/-- Each of the actions is allowed when its turn comes. -/
def Allows (allowed : Usage → Action → Prop) : Usage → List Action → Prop
  | _, [] => True
  | u, a :: as => allowed u a ∧ Allows allowed (u.act a) as

theorem run_append (u : Usage) (as bs : List Action) : u.run (as ++ bs) = (u.run as).run bs :=
  List.foldl_append

/-- What allowed actions keep holds after them. -/
theorem Allows.run {allowed : Usage → Action → Prop} {P : Usage → Prop}
    (hP : ∀ u a, allowed u a → P u → P (u.act a)) {as : List Action} {u : Usage}
    (has : u.Allows allowed as) (h : P u) : P (u.run as) := by
  induction as generalizing u with
  | nil => exact h
  | cons a as ih => exact ih has.2 (hP u a has.1 h)

theorem Allows.of_forall {allowed : Usage → Action → Prop} (h : ∀ u a, allowed u a) :
    ∀ (u : Usage) (as : List Action), u.Allows allowed as
  | _, [] => trivial
  | u, a :: as => ⟨h u a, Allows.of_forall h (u.act a) as⟩

theorem Reachable.mono {allowed allowed' : Usage → Action → Prop}
    (hallowed : ∀ u a, allowed u a → allowed' u a) {u : Usage} (hu : u.Reachable allowed) :
    u.Reachable allowed' := by
  induction hu with
  | start => exact .start
  | act _ ha ih => exact ih.act (hallowed _ _ ha)

theorem Reachable.run {allowed : Usage → Action → Prop} {u : Usage} (hu : u.Reachable allowed)
    {as : List Action} (has : u.Allows allowed as) : (u.run as).Reachable allowed :=
  has.run (fun _ _ ha h => h.act ha) hu

end Usage

/-! ## One registry -/

namespace Registry

/-- What an action may do to a registry. -/
inductive Step (i : Nat) : Action → Registry → Registry → Prop where
  | register {handle name c r r'} (h : r.register name c = .ok r') :
      Step i (.register handle name c) r r'
  | define {handle name d r r' n n'} (h : r.define i n name d = .ok (r', n')) :
      Step i (.define handle name d) r r'
  | remove {handle name r} : Step i (.remove handle name) r (r.remove name)

end Registry

/-! ## All registries -/

namespace Registries

variable {s s' : Registries} {a : Action} {P : Nat → Registry → Prop}

/-- Something holds of every registry. -/
def Every (P : Nat → Registry → Prop) (s : Registries) : Prop :=
  ∀ e ∈ s.stores, P e.1 e.2

/-- The registry of a number, which is empty if it is gone. -/
theorem Every.registry (h : s.Every P) (hempty : ∀ i, P i .empty) (i : Nat) :
    P i (s.registry i) := by
  unfold Registries.registry
  cases hi : Keyed.get? i s.stores with
  | none => exact hempty i
  | some r => exact h _ (Keyed.mem_of_get? hi)

theorem Every.store (h : s.Every P) {i : Nat} {r : Registry} (hr : P i r) :
    (s.store i r).Every P := by
  intro e he
  rcases Keyed.mem_or_eq_of_mem_put he with rfl | he
  · exact hr
  · exact h e he

/-- What an action does to registries in any case. Numbers are used up, registries keep numbers of
their own, and each of them is new and empty or as before or one step further. -/
structure Follows (a : Action) (s s' : Registries) : Prop where
  next_le : s.next ≤ s'.next
  distinct : (Keyed.keys s.stores).Nodup → (Keyed.keys s'.stores).Nodup
  every : ∀ P : Nat → Registry → Prop, (∀ i, P i .empty) →
    (∀ i r r', P i r → Registry.Step i a r r' → P i r') → s.Every P → s'.Every P

theorem follows_refl (a : Action) (s : Registries) : Follows a s s :=
  ⟨Nat.le_refl _, id, fun _ _ _ h => h⟩

theorem follows_locate (a : Action) (s : Registries) (handle : String) :
    Follows a s (s.locate handle).2 := by
  unfold locate
  cases Keyed.get? handle s.handles with
  | some i => exact follows_refl a s
  | none =>
    exact ⟨Nat.le_succ _, Keyed.nodup_keys_put _ _, fun P hempty _ h => h.store (hempty s.next)⟩

theorem Follows.store (h : Follows a s s') {i : Nat} {r : Registry}
    (hr : r = .empty ∨ Registry.Step i a (s'.registry i) r) : Follows a s (s'.store i r) where
  next_le := h.next_le
  distinct hs := Keyed.nodup_keys_put _ _ (h.distinct hs)
  every P hempty hstep hs := by
    have hs' := h.every P hempty hstep hs
    rcases hr with rfl | hr
    · exact hs'.store (hempty i)
    · exact hs'.store (hstep _ _ _ (hs'.registry hempty i) hr)

theorem Follows.count (h : Follows a s s') {n : Nat} (hn : s'.next ≤ n) :
    Follows a s { s' with next := n } :=
  ⟨Nat.le_trans h.next_le hn, h.distinct, h.every⟩

theorem Follows.rebind (h : Follows a s s') (handles : List (String × Nat)) :
    Follows a s (sweep { s' with handles }) where
  next_le := h.next_le
  distinct hs := (List.filter_sublist.map Prod.fst).nodup (h.distinct hs)
  every P hempty hstep hs e he := h.every P hempty hstep hs e (List.mem_filter.1 he).1

theorem follows_act (s : Registries) (a : Action) : Follows a s (s.act a).2 := by
  cases a with
  | register handle name c =>
    simp only [act, register]
    split
    · rename_i r hr
      exact (follows_locate _ s handle).store (Or.inr (.register hr))
    · exact follows_locate _ s handle
  | define handle name d =>
    simp only [act, define]
    split
    · rename_i r n hr
      obtain ⟨-, -, -, rfl, -⟩ := Registry.define_eq_ok.1 hr
      have hstore := (follows_locate (.define handle name d) s handle).store (Or.inr (.define hr))
      exact hstore.count (Descriptor.numbered_compile _ d _).le
    · exact follows_locate _ s handle
  | remove handle name => exact (follows_locate _ s handle).store (Or.inr .remove)
  | clear handle => exact (follows_locate _ s handle).store (Or.inl rfl)
  | get handle name => exact follows_refl _ s
  | reference handle name => exact (follows_locate _ s handle).count (Nat.le_succ _)
  | deferred handle name => exact follows_locate _ s handle
  | compile handle d =>
    exact (follows_locate _ s handle).count (Descriptor.numbered_compile _ d _).le
  | share handle other =>
    simp only [act, share]
    split
    · exact follows_locate _ s handle
    · exact (follows_locate _ s handle).rebind _
  | drop handle =>
    simp only [act, drop]
    split
    · exact follows_refl _ s
    · exact (follows_refl _ s).rebind _

end Registries

namespace Usage

variable {allowed : Usage → Action → Prop} {u : Usage}

/-- What the steps of one registry keep holds of every registry at any time. -/
theorem Reachable.every {P : Nat → Registry → Prop} (hempty : ∀ i, P i .empty)
    (hstep : ∀ u a, allowed u a → ∀ i r r', P i r → Registry.Step i a r r' → P i r')
    (h : u.Reachable allowed) : u.registries.Every P := by
  induction h with
  | start => simpa [Usage.empty, Registries.empty, Registries.Every] using hempty 0
  | act _ ha ih => exact (Registries.follows_act _ _).every P hempty (hstep _ _ ha) ih

theorem Reachable.distinct (h : u.Reachable allowed) :
    (Keyed.keys u.registries.stores).Nodup := by
  induction h with
  | start => exact List.nodup_singleton 0
  | act _ _ ih => exact (Registries.follows_act _ _).distinct ih

end Usage

/-! ## What can be found -/

namespace Registries

theorem get?_entries (i j : Nat) (name : String) (es : List (String × Checker)) :
    Keyed.get? (.entry j name) (es.map fun e => (Address.entry i e.1, e.2)) =
      if i = j then Keyed.get? name es else none := by
  induction es with
  | nil => simp [Keyed.get?]
  | cons e es ih =>
    by_cases hi : i = j <;> by_cases hname : e.1 = name <;> simp_all [Keyed.get?]

/-- At the address of an entry there is what the registry of its number holds. -/
theorem get?_environment {s : Registries} (hs : (Keyed.keys s.stores).Nodup) (i : Nat)
    (name : String) : Keyed.get? (.entry i name) s.environment = (s.registry i).get? name := by
  obtain ⟨stores, handles, next⟩ := s
  unfold environment registry
  dsimp only at hs ⊢
  induction stores with
  | nil => rfl
  | cons e stores ih =>
    obtain ⟨j, r⟩ := e
    rw [Keyed.keys_cons, List.nodup_cons] at hs
    rw [List.flatMap_cons, Keyed.get?_append, get?_entries, ih hs.2]
    by_cases hj : j = i
    · subst hj
      have hrest : Keyed.get? j stores = none := (Keyed.get?_eq_none_iff j stores).2 hs.1
      simp [Keyed.get?, hrest, Registry.get?, Registry.empty]
    · simp [Keyed.get?, hj]

/-- Entries are all that can be found in registries. -/
theorem entry_of_get?_environment {s : Registries} {a : Address} {c : Checker}
    (h : Keyed.get? a s.environment = some c) : ∃ i name, a = .entry i name := by
  obtain ⟨store, -, hmem⟩ := List.mem_flatMap.1 (Keyed.mem_of_get? h)
  obtain ⟨entry, -, heq⟩ := List.mem_map.1 hmem
  exact ⟨store.1, entry.1, (congrArg Prod.fst heq).symm⟩

end Registries

end DataShape
