import DataShape.Proofs.Registry.Handles
import DataShape.Proofs.Registry.Order

/-!
# What defining a name does

A definition fails for one of three reasons, and they are looked for in turn : a cycle of
unguarded references through the new name, a blank name, a name that is registered already
(`Registry.Decides`). The search for a cycle is a depth-first search without any bound on its
rounds (`Registry.Searches`). It ends, since the definitions that are not seen yet weigh less
with each name that is followed, and what it comes up with is what the bounded search gives
(`Registry.searches_wayTo`).

Names and definitions are written last, so a definition that fails leaves every registry as it
was (`Registries.Untouched`). One that succeeds adds the name to one registry, which had neither
a checker nor a definition under it (`Registries.Added`). All of this holds whatever was done
before (`define_decides`).
-/

namespace DataShape

open Relation

namespace Registry

variable {r : Registry} {target name : String} {d : Descriptor}

/-! ## The search without a bound -/

/-- What a depth-first search from the pending names comes to : a way to the target, if it finds
one, and the names it has seen. -/
inductive Searches (r : Registry) (target : String) :
    List String → List String → Option (List String) → List String → Prop where
  | nothing {seen} : Searches r target [] seen none seen
  | target {rest seen} : Searches r target (target :: rest) seen (some [target]) seen
  | seen {next rest seen way seen'} (hnext : next ≠ target) (hseen : next ∈ seen)
      (hrest : Searches r target rest seen way seen') :
      Searches r target (next :: rest) seen way seen'
  | undefined {next rest seen way seen'} (hnext : next ≠ target) (hseen : next ∉ seen)
      (hdef : r.definition? next = none) (hrest : Searches r target rest (next :: seen) way seen') :
      Searches r target (next :: rest) seen way seen'
  | through {next rest seen way seen' d} (hnext : next ≠ target) (hseen : next ∉ seen)
      (hdef : r.definition? next = some d)
      (hinner : Searches r target d.unguarded (next :: seen) (some way) seen') :
      Searches r target (next :: rest) seen (some (next :: way)) seen'
  | back {next rest seen way seen₁ seen' d} (hnext : next ≠ target) (hseen : next ∉ seen)
      (hdef : r.definition? next = some d)
      (hinner : Searches r target d.unguarded (next :: seen) none seen₁)
      (hrest : Searches r target rest seen₁ way seen') :
      Searches r target (next :: rest) seen way seen'

theorem Searches.keeps {pending seen seen' : List String} {way : Option (List String)}
    (h : r.Searches target pending seen way seen') : seen ⊆ seen' := by
  induction h with
  | nothing | target => exact List.Subset.refl _
  | seen _ _ _ ih => exact ih
  | undefined _ _ _ _ ih | through _ _ _ _ ih => exact (List.cons_subset.1 ih).2
  | back _ _ _ _ _ ihinner ihrest =>
    exact List.Subset.trans (List.cons_subset.1 ihinner).2 ihrest

/-- A search comes to one end only. -/
theorem Searches.unique {pending seen seen₁ seen₂ : List String} {way₁ way₂ : Option (List String)}
    (h₁ : r.Searches target pending seen way₁ seen₁)
    (h₂ : r.Searches target pending seen way₂ seen₂) : way₁ = way₂ ∧ seen₁ = seen₂ := by
  induction h₁ generalizing way₂ seen₂ with
  | nothing =>
    cases h₂
    exact ⟨rfl, rfl⟩
  | target =>
    cases h₂ with
    | target => exact ⟨rfl, rfl⟩
    | seen hnext | undefined hnext | through hnext | back hnext => exact absurd rfl hnext
  | seen hnext hseen _ ih =>
    cases h₂ with
    | target => exact absurd rfl hnext
    | seen _ _ hrest => exact ih hrest
    | undefined _ hnew | through _ hnew | back _ hnew => exact absurd hseen hnew
  | undefined hnext hseen hdef _ ih =>
    cases h₂ with
    | target => exact absurd rfl hnext
    | seen _ hold => exact absurd hold hseen
    | undefined _ _ _ hrest => exact ih hrest
    | through _ _ hsome | back _ _ hsome => exact nomatch hdef.symm.trans hsome
  | through hnext hseen hdef _ ih =>
    cases h₂ with
    | target => exact absurd rfl hnext
    | seen _ hold => exact absurd hold hseen
    | undefined _ _ hnone => exact nomatch hdef.symm.trans hnone
    | through _ _ hdef' hinner =>
      obtain rfl := Option.some.inj (hdef.symm.trans hdef')
      obtain ⟨hway, rfl⟩ := ih hinner
      exact ⟨congrArg (Option.map _) hway, rfl⟩
    | back _ _ hdef' hinner =>
      obtain rfl := Option.some.inj (hdef.symm.trans hdef')
      exact nomatch (ih hinner).1
  | back hnext hseen hdef _ _ ihinner ihrest =>
    cases h₂ with
    | target => exact absurd rfl hnext
    | seen _ hold => exact absurd hold hseen
    | undefined _ _ hnone => exact nomatch hdef.symm.trans hnone
    | through _ _ hdef' hinner =>
      obtain rfl := Option.some.inj (hdef.symm.trans hdef')
      exact nomatch (ihinner hinner).1
    | back _ _ hdef' hinner hrest =>
      obtain rfl := Option.some.inj (hdef.symm.trans hdef')
      obtain ⟨-, rfl⟩ := ihinner hinner
      exact ihrest hrest

/-- With a bound that pays for all names that may still be looked at, the search is the one without
a bound. -/
theorem searches_wayTo : ∀ {n : Nat} {pending seen : List String},
    pending.length + weight seen r.definitions + 1 ≤ n →
      r.Searches target pending seen (r.wayTo target n pending seen).1
        (r.wayTo target n pending seen).2
  | 0, _, _, hn => absurd hn (by omega)
  | n + 1, [], seen, _ => .nothing
  | n + 1, next :: rest, seen, hn => by
    rw [List.length_cons] at hn
    rw [wayTo]
    by_cases htarget : next = target
    · rw [if_pos htarget, htarget]
      exact .target
    rw [if_neg htarget]
    by_cases hseen : next ∈ seen
    · rw [if_pos hseen]
      exact .seen htarget hseen (searches_wayTo (by omega))
    rw [if_neg hseen]
    cases hdef : r.definition? next with
    | none =>
      have hweight := weight_anti (List.subset_cons_self next seen) r.definitions
      exact .undefined htarget hseen hdef (searches_wayTo (by omega))
    | some d =>
      have hpaid := weight_cons_add_le hseen (Keyed.mem_of_get? hdef)
      have hinner : r.Searches target d.unguarded (next :: seen) _ _ :=
        searches_wayTo (n := n) (by omega)
      rcases hsub : r.wayTo target n d.unguarded (next :: seen) with ⟨_ | way, seen₁⟩
      · simp only [hsub] at hinner ⊢
        have hweight := weight_anti hinner.keeps r.definitions
        exact .back htarget hseen hdef hinner (searches_wayTo (by omega))
      · simp only [hsub] at hinner ⊢
        exact .through htarget hseen hdef hinner

/-- The search for a cycle ends. -/
theorem exists_searches (r : Registry) (name : String) (d : Descriptor) :
    ∃ way seen, r.Searches name d.unguarded [] way seen ∧
      r.cycle? name d = way.map fun way => name :: way := by
  refine ⟨_, _, searches_wayTo (n := r.searchBound d) ?_, rfl⟩
  rw [weight_nil, searchBound]
  omega

/-- Whatever the search comes to is reported. -/
theorem cycle?_of_searches {seen : List String} {way : Option (List String)}
    (h : r.Searches name d.unguarded [] way seen) :
    r.cycle? name d = way.map fun way => name :: way := by
  obtain ⟨_, _, hsearch, hcycle⟩ := r.exists_searches name d
  obtain ⟨rfl, -⟩ := hsearch.unique h
  exact hcycle

/-! ## What is decided -/

/-- There is a way from the name back to it, first to an unguarded reference of the descriptor and
then along definitions. -/
def ClosesCycle (r : Registry) (name : String) (d : Descriptor) : Prop :=
  ∃ m ∈ d.unguarded, ReflTransGen r.LeadsTo m name

theorem cycle?_eq_none_iff_not_closesCycle : r.cycle? name d = none ↔ ¬ r.ClosesCycle name d := by
  rw [cycle?_eq_none_iff, ClosesCycle, not_exists]
  simp only [not_and]

/-- The reasons for a definition to fail, in their order. -/
structure Decides (r : Registry) (name : String) (d : Descriptor)
    (result : Except DefineError Unit) : Prop where
  cycle : (∃ names, result = .error (.cycle names)) ↔ r.ClosesCycle name d
  invalidName : result = .error (.registry (.invalidName name)) ↔
    ¬ r.ClosesCycle name d ∧ Text.isBlank name = true
  alreadyExists : result = .error (.registry (.alreadyExists name)) ↔
    ¬ r.ClosesCycle name d ∧ Text.isBlank name = false ∧ r.contains name = true
  ok : result = .ok () ↔
    ¬ r.ClosesCycle name d ∧ Text.isBlank name = false ∧ r.contains name = false

/-- The names that are reported are those that the search came to. -/
theorem define_eq_cycle {i n : Nat} {names : List String} :
    (r.define i n name d).map (fun _ => ()) = .error (.cycle names) ↔
      r.cycle? name d = some names := by
  rw [define]
  cases hcycle : r.cycle? name d with
  | some names' => simp [Except.map]
  | none =>
    dsimp only
    cases r.register name (d.compile i n).1 <;> simp [Except.map]

theorem decides_define (r : Registry) (i n : Nat) (name : String) (d : Descriptor) :
    r.Decides name d ((r.define i n name d).map fun _ => ()) := by
  have hclose : r.cycle? name d = none ↔ ¬ r.ClosesCycle name d :=
    cycle?_eq_none_iff_not_closesCycle
  cases hcycle : r.cycle? name d with
  | some names =>
    have hcloses : r.ClosesCycle name d := by
      by_contra h
      exact nomatch hcycle.symm.trans (hclose.2 h)
    have hdefine : (r.define i n name d).map (fun _ => ()) = .error (.cycle names) := by
      rw [define, hcycle]
      rfl
    rw [hdefine]
    constructor <;> simp [hcloses]
  | none =>
    have hopen := hclose.1 hcycle
    have hdefine : r.define i n name d =
        ((r.register name (d.compile i n).1).mapError .registry).map fun r =>
          ({ r with definitions := Keyed.put name d r.definitions }, (d.compile i n).2) := by
      rw [define, hcycle]
      dsimp only
      cases r.register name (d.compile i n).1 <;> rfl
    rw [hdefine, register]
    cases hblank : Text.isBlank name <;> cases hcontains : r.contains name <;>
      constructor <;> simp [hopen, hblank, hcontains, Except.map, Except.mapError]

end Registry

namespace Registries

variable {s s' : Registries} {handle name : String} {d : Descriptor}

/-! ## What is left behind -/

/-- A handle that gets a registry of its own sees what it saw before, as all others do. -/
theorem view_after_locate (hs : s.Tidy) (handle other : String) :
    (s.locate handle).2.view other = s.view other := by
  cases hother : Keyed.get? other s.handles with
  | some i =>
    have hbinds : s.Binds other i := hother
    have hbinds' : (s.locate handle).2.Binds other i :=
      (binds_locate_iff (hs.given other i hbinds) other).2 hbinds
    rw [view_of_binds hbinds', registry_after_locate hs, view_of_binds hbinds]
  | none =>
    by_cases hhandle : handle = other
    · subst hhandle
      rw [view_of_binds binds_locate, registry_locate]
    · have hnew : Keyed.get? other (s.locate handle).2.handles = none := by
        unfold locate
        cases Keyed.get? handle s.handles with
        | some i => exact hother
        | none => rw [Keyed.get?_put, if_neg hhandle, hother]
      rw [view, view, hother, hnew]

/-- Every registry is as it was, and so is what every handle leads to. -/
structure Untouched (s s' : Registries) : Prop where
  registry : ∀ i, s'.registry i = s.registry i
  view : ∀ handle, s'.view handle = s.view handle

/-- A name is added to the registry of a handle, with the descriptor and its checker, and nothing
else changes. -/
structure Added (s s' : Registries) (handle name : String) (d : Descriptor) : Prop where
  new : (s.view handle).get? name = none ∧ (s.view handle).definition? name = none
  entries : ∃ i n, s'.Binds handle i ∧ ∀ x, (s'.view handle).get? x =
    if name = x then some (d.compile i n).1 else (s.view handle).get? x
  definitions : ∀ x, (s'.view handle).definition? x =
    if name = x then some d else (s.view handle).definition? x
  others : ∀ i, ¬ s'.Binds handle i → s'.registry i = s.registry i

theorem define_fst : (s.define handle name d).1 =
    ((s.view handle).define (s.locate handle).1 (s.locate handle).2.next name d).map
      fun _ => () := by
  unfold define
  simp only [registry_locate]
  cases (s.view handle).define (s.locate handle).1 (s.locate handle).2.next name d <;> rfl

/-- At most the handle gets a registry of its own. -/
theorem untouched_define (hs : s.Tidy) (h : (s.define handle name d).1 ≠ .ok ()) :
    s.Untouched (s.define handle name d).2 := by
  have hlocated : (s.define handle name d).2 = (s.locate handle).2 := by
    rw [define_fst] at h
    unfold define
    simp only [registry_locate]
    cases hdefine : (s.view handle).define (s.locate handle).1 (s.locate handle).2.next name d with
    | ok r =>
      rw [hdefine] at h
      exact absurd rfl h
    | error e => rfl
  rw [hlocated]
  exact ⟨registry_after_locate hs handle, view_after_locate hs handle⟩

theorem added_define (hs : s.Tidy) (hsound : (s.view handle).Sound (s.locate handle).1)
    (h : s.define handle name d = (.ok (), s')) : s.Added s' handle name d := by
  obtain ⟨r, n, hr, rfl⟩ := (define_eq_ok s').1 h
  obtain ⟨-, -, hnew, -⟩ := Registry.define_eq_ok.1 hr
  have hview : ((s.locate handle).2.store (s.locate handle).1 r).view handle = r :=
    view_store_locate s handle r
  have hbinds : (s.locate handle).2.Binds handle (s.locate handle).1 := binds_locate
  refine ⟨⟨hnew, ?_⟩, ⟨_, (s.locate handle).2.next, hbinds, fun x => ?_⟩, fun x => ?_,
    fun i hi => ?_⟩
  · -- A name with a definition is registered.
    cases hdef : (s.view handle).definition? name with
    | none => rfl
    | some e =>
      obtain ⟨m, hm⟩ := hsound.compiled name e hdef
      exact nomatch hnew.symm.trans hm
  · exact (congrArg (fun r => r.get? x) hview).trans (Registry.get?_of_define hr x)
  · exact (congrArg (fun r => r.definition? x) hview).trans (Registry.definition?_of_define hr x)
  · have hne : (s.locate handle).1 ≠ i := fun heq => hi (heq ▸ hbinds)
    exact ((registry_store r).trans (if_neg hne)).trans (registry_after_locate hs handle i)

end Registries

/-- Defining a name ends at any time, whatever was done through the handles before. It fails if the
definition closes a cycle, otherwise if the name is blank, and otherwise if it is registered. Then
nothing changes. Otherwise the name is added to the registry of the handle, and nothing else
changes. -/
theorem define_decides {u : Usage} (hu : u.Reachable fun _ _ => True) (handle name : String)
    (d : Descriptor) :
    let s := u.registries
    let r := s.view handle
    let next := s.define handle name d
    (∃ way seen, r.Searches name d.unguarded [] way seen) ∧
      (∀ way seen, r.Searches name d.unguarded [] way seen → ∀ names,
        next.1 = .error (.cycle names) ↔ way.map (fun way => name :: way) = some names) ∧
      r.Decides name d next.1 ∧
      (next.1 ≠ .ok () → s.Untouched next.2) ∧
      (next.1 = .ok () → s.Added next.2 handle name d) := by
  intro s r next
  obtain ⟨way, seen, hsearch, -⟩ := r.exists_searches name d
  have hresult : next.1 = _ := Registries.define_fst
  refine ⟨⟨way, seen, hsearch⟩, fun way seen h names => ?_, ?_, fun h => ?_, fun h => ?_⟩
  · rw [hresult, Registry.define_eq_cycle, Registry.cycle?_of_searches h]
  · rw [hresult]
    exact Registry.decides_define ..
  · exact Registries.untouched_define hu.tidy h
  · exact Registries.added_define hu.tidy (Registries.sound_view hu handle) (Prod.ext h rfl)

/-- Closing a cycle of three names fails, behind an array element it does not. -/
theorem third_definition_decides :
    let u := (Usage.empty.act (.define "global" "a" (.any [.ref "b", .kind .null]))).act
      (.define "global" "b" (.nullable (.ref "c")))
    let s := u.registries
    let failed := s.define "global" "c" (.ref "a")
    let done := s.define "global" "c" (.array (.ref "a"))
    u.Reachable (fun _ _ => True) ∧ failed.1 = .error (.cycle ["c", "a", "b", "c"]) ∧
      (s.view "global").ClosesCycle "c" (.ref "a") ∧ s.Untouched failed.2 ∧
      done.1 = .ok () ∧ s.Added done.2 "global" "c" (.array (.ref "a")) := by
  intro u s failed done
  have hu : u.Reachable fun _ _ => True := .act (.act .start trivial) trivial
  have hfailed : failed.1 = .error (.cycle ["c", "a", "b", "c"]) := by rfl
  have hdone : done.1 = .ok () := by rfl
  obtain ⟨-, -, hdecides, huntouched, -⟩ := define_decides hu "global" "c" (.ref "a")
  obtain ⟨-, -, -, -, hadded⟩ := define_decides hu "global" "c" (.array (.ref "a"))
  refine ⟨hu, hfailed, hdecides.cycle.1 ⟨_, hfailed⟩, huntouched fun h => ?_, hdone, hadded hdone⟩
  exact nomatch hfailed.symm.trans h

end DataShape
