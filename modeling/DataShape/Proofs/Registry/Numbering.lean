import DataShape.Proofs.Registry.Usage
import DataShape.Session

/-!
# References in use

References are told apart by their serial numbers, and a number is given once. So in a
run that registers only what is composed of references handed out before
(`Usage.Composes`), the references in use are coherent at any time : those in the
checkers that were handed out and in the registered ones are among some known
references, all of them with numbers below the next free one (`Usage.Orderly`). An
action may only add to the known references, and those it adds have new numbers
(`Usage.Orderly.act`).

With this a check of any checker composed of such references accepts what the rules of
acceptance say (`checked_iff_accepts`).
-/

namespace DataShape

/-- The registered checkers are without instruments and their references known. -/
def Registry.BuiltFrom (known : List Lookup) (r : Registry) : Prop :=
  ∀ e ∈ r.entries, e.2.BuiltFrom known

namespace Registries

/-! ## Registered references -/

/-- The references in the registered checkers are known and have their numbers already. -/
structure Orderly (known : List Lookup) (s : Registries) : Prop where
  coherent : Coherent known
  fresh : ∀ l ∈ known, l.serial < s.next
  entries : s.Every fun _ r => r.BuiltFrom known

variable {s : Registries} {known : List Lookup}

theorem builtFrom_empty : Registry.empty.BuiltFrom known :=
  fun _ he => nomatch he

/-- An action that registers nothing but what is made of known references. -/
theorem Orderly.act (h : s.Orderly known) {a : Action}
    (hstep : ∀ i r r', r.BuiltFrom known → Registry.Step i a r r' → r'.BuiltFrom known) :
    (s.act a).2.Orderly known where
  coherent := h.coherent
  fresh l hl := Nat.lt_of_lt_of_le (h.fresh l hl) (follows_act s a).next_le
  entries := (follows_act s a).every _ (fun _ => builtFrom_empty) hstep h.entries

/-- Finding the registry of a handle is all that making a deferred property does. -/
theorem Orderly.locate (h : s.Orderly known) (handle : String) :
    (s.locate handle).2.Orderly known :=
  h.act (a := .deferred handle "") fun _ _ _ _ hstep => nomatch hstep

theorem Orderly.store (h : s.Orderly known) {i : Nat} {r : Registry}
    (hr : r.BuiltFrom known) : (s.store i r).Orderly known :=
  ⟨h.coherent, h.fresh, h.entries.store (P := fun _ r => r.BuiltFrom known) hr⟩

/-- New references with the next numbers become known. -/
theorem Orderly.extend (h : s.Orderly known) {n : Nat} {ls : List Lookup}
    (hls : Numbered s.next n ls) : Orderly (ls ++ known) { s with next := n } where
  coherent := hls.coherent.append h.coherent fun l hl m hm => by
    have hlower := (hls.bounds l hl).1
    have hupper := h.fresh m hm
    omega
  fresh l hl := by
    rcases List.mem_append.1 hl with hl | hl
    · exact (hls.bounds l hl).2
    · exact Nat.lt_of_lt_of_le (h.fresh l hl) hls.le
  entries e he f hf := (h.entries e he f hf).mono (List.subset_append_right ..)

theorem Orderly.register (h : s.Orderly known) {handle name : String} {c : Checker}
    (hc : c.BuiltFrom known) : (s.register handle name c).2.Orderly known := by
  refine h.act (a := .register handle name c) fun i r r' hr hstep => ?_
  cases hstep with
  | register hok =>
    obtain ⟨-, -, rfl⟩ := Registry.register_eq_ok.1 hok
    intro e he
    rcases Keyed.mem_or_eq_of_mem_put he with rfl | he
    · exact hc
    · exact hr e he

theorem Orderly.remove (h : s.Orderly known) {handle name : String} :
    (s.remove handle name).2.Orderly known := by
  refine h.act (a := .remove handle name) fun i r r' hr hstep => ?_
  cases hstep with
  | remove => exact fun e he => hr e (Keyed.mem_of_mem_erase he)

theorem Orderly.define (h : s.Orderly known) (handle name : String) (d : Descriptor) :
    ∃ ls, (s.define handle name d).2.Orderly (ls ++ known) := by
  have hl := h.locate handle
  simp only [Registries.define]
  split
  · rename_i r n hr
    obtain ⟨-, -, -, rfl, rfl⟩ := Registry.define_eq_ok.1 hr
    have hext := hl.extend (Descriptor.numbered_compile (s.locate handle).1 d _)
    refine ⟨_, hext.store (i := (s.locate handle).1) fun e he => ?_⟩
    rcases Keyed.mem_or_eq_of_mem_put he with rfl | he
    · exact Descriptor.builtFrom_compile _ d _ (List.subset_append_left ..)
    · exact hext.entries.registry (fun _ => builtFrom_empty) (s.locate handle).1 e he
  · exact ⟨[], hl⟩

/-- The entry that an address leads to is made of known references. -/
theorem Orderly.get? (h : s.Orderly known) {i : Nat} {name : String} {c : Checker}
    (hc : (s.registry i).get? name = some c) : c.BuiltFrom known :=
  h.entries.registry (fun _ => builtFrom_empty) i _ (Keyed.mem_of_get? hc)

theorem Orderly.environment (h : s.Orderly known) : s.environment.BuiltFrom known := by
  intro e he
  obtain ⟨store, hstore, he⟩ := List.mem_flatMap.1 he
  obtain ⟨entry, hentry, rfl⟩ := List.mem_map.1 he
  exact h.entries store hstore entry hentry

end Registries

/-! ## Runs -/

namespace Usage

/-- The references in the checkers that were handed out. -/
def lookups (u : Usage) : List Lookup :=
  u.held.flatMap Checker.lookups

/-- A checker that is registered is composed of references that were handed out. -/
def Composes (u : Usage) : Action → Prop
  | .register _ _ c => c.BuiltFrom u.lookups
  | _ => True

/-- The references in use are known and have their numbers already. -/
structure Orderly (known : List Lookup) (u : Usage) : Prop where
  registries : u.registries.Orderly known
  held : ∀ c ∈ u.held, c.BuiltFrom known

variable {u : Usage} {known : List Lookup}

theorem Orderly.lookups_subset (h : u.Orderly known) : u.lookups ⊆ known := by
  intro l hl
  obtain ⟨c, hc, hl⟩ := List.mem_flatMap.1 hl
  exact (h.held c hc).2 hl

theorem orderly_empty : empty.Orderly [] where
  registries := {
    coherent _ h := nomatch h
    fresh _ h := nomatch h
    entries _ he := by
      obtain rfl := List.mem_singleton.1 he
      exact Registries.builtFrom_empty }
  held _ h := nomatch h

theorem Orderly.act (h : u.Orderly known) {a : Action} (ha : u.Composes a) :
    ∃ ls, (u.act a).Orderly (ls ++ known) := by
  -- What is handed out or kept is made of the references known so far, unless new ones are made.
  have hold : ∀ {s : Registries} {cs : List Checker}, s.Orderly known →
      (∀ c ∈ cs, c.BuiltFrom known) → ∃ ls, Orderly (ls ++ known) ⟨s, cs ++ u.held⟩ :=
    fun hs hcs => ⟨[], hs, List.forall_mem_append.2 ⟨hcs, h.held⟩⟩
  have hnew : ∀ {s : Registries} {n : Nat} {c : Checker}, s.Orderly known →
      c.probes = [] → Numbered s.next n c.lookups →
        ∃ ls, Orderly (ls ++ known) ⟨{ s with next := n }, [c] ++ u.held⟩ :=
    fun {s n c} hs hc hn => ⟨c.lookups, hs.extend hn, List.forall_mem_cons.2
      ⟨⟨hc, List.subset_append_left ..⟩, fun d hd =>
        (h.held d hd).mono (List.subset_append_right ..)⟩⟩
  have hs := h.registries
  cases a with
  | register handle name c =>
    exact hold (hs.register (Checker.BuiltFrom.mono ha h.lookups_subset)) fun _ hc => nomatch hc
  | define handle name d =>
    obtain ⟨ls, hls⟩ := hs.define handle name d
    exact ⟨ls, hls, fun c hc => (h.held c hc).mono (List.subset_append_right ..)⟩
  | remove handle name =>
    exact hold hs.remove fun c hc => (hs.locate handle).get? (Option.mem_toList.1 hc)
  | clear handle => exact hold ((hs.locate handle).store Registries.builtFrom_empty) nofun
  | get handle name =>
    refine hold hs fun c hc => ?_
    have hget : (u.registries.view handle).get? name = some c := Option.mem_toList.1 hc
    unfold Registries.view at hget
    split at hget
    · exact hs.get? hget
    · exact nomatch hget
  | reference handle name =>
    exact hnew (hs.locate handle) rfl (numbered_singleton _ _)
  | deferred handle name => exact hold (hs.locate handle) nofun
  | compile handle d =>
    exact hnew (hs.locate handle) (Descriptor.probes_compile _ d _)
      (Descriptor.numbered_compile _ d _)
  | share handle other =>
    exact hold (hs.act (a := .share handle other) fun _ _ _ _ hstep => nomatch hstep) nofun
  | drop handle =>
    exact hold (hs.act (a := .drop handle) fun _ _ _ _ hstep => nomatch hstep) nofun

theorem Reachable.orderly {allowed : Usage → Action → Prop}
    (hallowed : ∀ u a, allowed u a → u.Composes a) (hu : u.Reachable allowed) :
    ∃ known, u.Orderly known := by
  induction hu with
  | start => exact ⟨[], orderly_empty⟩
  | act _ ha ih =>
    obtain ⟨known, h⟩ := ih
    obtain ⟨ls, h'⟩ := h.act (hallowed _ _ ha)
    exact ⟨ls ++ known, h'⟩

end Usage

/-! ## What is accepted -/

/-- A check with no other check in progress accepts exactly what the rules of acceptance say, at any
time of a run and for any checker composed of references that were handed out. -/
theorem checked_iff_accepts {u : Usage} (hu : u.Reachable Usage.Composes) {s : Session}
    (hs : s.registries = u.registries) (hslots : ∀ e ∈ s.slots, e.2.BuiltFrom u.lookups)
    {c : Checker} (hc : c.BuiltFrom u.lookups) (v : Value) :
    (s.check c v).1.1 = true ↔ Accepts s.environment c v := by
  obtain ⟨known, horderly⟩ := hu.orderly fun _ _ ha => ha
  have hsub := horderly.lookups_subset
  have henv : s.environment.BuiltFrom known := by
    refine List.forall_mem_append.2 ⟨hs ▸ horderly.registries.environment, fun e he => ?_⟩
    obtain ⟨slot, hslot, rfl⟩ := List.mem_map.1 he
    exact (hslots slot hslot).mono hsub
  have hempty : Stack.ClearFrom [] .root := fun e he => nomatch he
  exact checkAt_iff_accepts horderly.registries.coherent henv (hc.mono hsub) .root v hempty

/-- Lists that end in null : the entry asks itself first, with nothing in between. -/
theorem list_checked_iff_accepts :
    let l : Lookup := ⟨1, .entry 0 "list"⟩
    let list := Checker.any
      [.reference l, .primitive .null, .object [(⟨"tail"⟩, .direct (.reference l))]]
    let u := (Usage.empty.act (.reference "global" "list")).act (.register "global" "list" list)
    let s : Session := ⟨u.registries, [("whole", .nullable (.reference l))], []⟩
    u.Reachable Usage.Composes ∧ (∀ e ∈ s.slots, e.2.BuiltFrom u.lookups) ∧
      (Checker.reference l).BuiltFrom u.lookups ∧
      Accepts s.environment (.reference l) (.object [("tail", .object [("tail", .null)])]) ∧
      ¬ Accepts s.environment (.reference l) (.object [("tail", .string "end")]) := by
  intro l list u s
  have hlist : list.BuiltFrom (Usage.empty.act (.reference "global" "list")).lookups :=
    ⟨rfl, by decide⟩
  have hu : u.Reachable Usage.Composes := .act (.act .start trivial) hlist
  have hl : (Checker.reference l).BuiltFrom u.lookups := ⟨rfl, by decide⟩
  have hslots : ∀ e ∈ s.slots, e.2.BuiltFrom u.lookups := fun e he => by
    obtain rfl := List.mem_singleton.1 he
    exact hl
  refine ⟨hu, hslots, hl, (checked_iff_accepts hu rfl hslots hl _).1 (by decide), fun h => ?_⟩
  exact absurd ((checked_iff_accepts hu rfl hslots hl _).2 h) (by decide)

end DataShape
