import DataShape.Proofs.Check.Resolution
import DataShape.Proofs.Registry.Handles
import DataShape.Proofs.Registry.Numbering

/-!
# Families of handles

The handles that share a registry are a family. Which families there are follows from
the actions alone (`families`) : a handle that is new is a family of its own, a handle
that another one is made to share its registry with joins its family, and one that is
dropped or bound anew leaves it. Registries and their numbers follow this history
(`Registries.Covers`) at any time.

A reference is bound to the registry that its handle led to when it was made. So it
goes on to find what any handle of the family finds, nothing that is done through other
handles matters to it, and when the family has lost its last handle it finds nothing
any more (`references_follow_families`).
-/

namespace DataShape

/-! ## Families -/

namespace Action

/-- The handle that gets a registry of its own by an action, if it has none. -/
def opens : Action → Option String
  | register handle _ _ | define handle _ _ | remove handle _ | clear handle
  | reference handle _ | deferred handle _ | compile handle _ | share handle _ => some handle
  | get _ _ | drop _ => none

/-- What an action makes of a family. -/
def family : Action → List String → List String
  | share handle other, F =>
    if other = Registries.permanent then F
    else if handle ∈ F then F.insert other
    else F.filter (· ≠ other)
  | drop handle, F => if handle = Registries.permanent then F else F.filter (· ≠ handle)
  | _, F => F

end Action

/-- The families once a handle has a registry. -/
def opened (handle : String) (Fs : List (List String)) : List (List String) :=
  if ∃ F ∈ Fs, handle ∈ F then Fs else Fs ++ [[handle]]

/-- What an action makes of the families. -/
def Action.families (a : Action) (Fs : List (List String)) : List (List String) :=
  (a.opens.elim Fs fun handle => opened handle Fs).map a.family

/-- The families after a run from the start on, in the order in which their registries came about. A
family without handles is one whose registry is gone. -/
def families (as : List Action) : List (List String) :=
  as.foldl (fun Fs a => a.families Fs) [[Registries.permanent]]

namespace Registries

/-- The family is that of the registry of this number. -/
structure Shares (s : Registries) (F : List String) (i : Nat) : Prop where
  given : i < s.next
  mem_iff : ∀ handle, handle ∈ F ↔ s.Binds handle i

/-- The families are those of all registries with a handle, and maybe of some that are gone. -/
structure Covers (s : Registries) (Fs : List (List String)) : Prop where
  shares : ∀ F ∈ Fs, ∃ i, s.Shares F i
  all : ∀ handle i, s.Binds handle i → ∃ F ∈ Fs, handle ∈ F

variable {s : Registries} {handle : String} {F : List String} {Fs : List (List String)} {i : Nat}

/-! ## Finding the registry of a handle -/

theorem locate_of_binds (h : s.Binds handle i) : s.locate handle = (i, s) := by
  rw [locate, h]

theorem binds_locate_of_ne {other : String} (h : handle ≠ other) :
    (s.locate handle).2.Binds other i ↔ s.Binds other i := by
  unfold locate
  cases Keyed.get? handle s.handles with
  | some _ => exact Iff.rfl
  | none => simp [Binds, Keyed.get?_put, h]

theorem Shares.locate (h : s.Shares F i) (handle : String) : (s.locate handle).2.Shares F i :=
  ⟨Nat.lt_of_lt_of_le h.given next_le_locate,
    fun other => (h.mem_iff other).trans (binds_locate_iff h.given other).symm⟩

/-- A new handle has a new registry for itself. -/
theorem shares_locate_of_new (hs : s.Tidy) (hnew : Keyed.get? handle s.handles = none) :
    (s.locate handle).2.Shares [handle] (s.locate handle).1 := by
  have hnumber : (s.locate handle).1 = s.next := by rw [Registries.locate, hnew]
  have hbound : (s.locate handle).2.Binds handle s.next := hnumber ▸ binds_locate
  refine ⟨(hs.locate handle).given handle _ binds_locate, fun other => ?_⟩
  rw [List.mem_singleton, hnumber]
  constructor
  · rintro rfl
    exact hbound
  · intro h
    by_contra hne
    have hold : s.Binds other s.next := (binds_locate_of_ne (Ne.symm hne)).1 h
    exact Nat.lt_irrefl _ (hs.given other _ hold)

theorem Covers.locate (hs : s.Tidy) (h : s.Covers Fs) (handle : String) :
    (s.locate handle).2.Covers (opened handle Fs) := by
  cases hbound : Keyed.get? handle s.handles with
  | some i =>
    rw [locate_of_binds hbound, opened, if_pos (h.all handle i hbound)]
    exact h
  | none =>
    have hnew : ¬ ∃ F ∈ Fs, handle ∈ F := by
      rintro ⟨F, hF, hmem⟩
      obtain ⟨i, hi⟩ := h.shares F hF
      exact nomatch hbound.symm.trans ((hi.mem_iff handle).1 hmem)
    rw [opened, if_neg hnew]
    refine ⟨List.forall_mem_append.2 ⟨fun F hF => ?_, fun F hF => ?_⟩, fun other i hi => ?_⟩
    · obtain ⟨i, hi⟩ := h.shares F hF
      exact ⟨i, hi.locate handle⟩
    · obtain rfl := List.mem_singleton.1 hF
      exact ⟨_, shares_locate_of_new hs hbound⟩
    · by_cases hother : handle = other
      · exact ⟨[handle], by simp, by simp [hother]⟩
      · obtain ⟨F, hF, hmem⟩ := h.all other i ((binds_locate_of_ne hother).1 hi)
        exact ⟨F, List.mem_append_left _ hF, hmem⟩

/-! ## Actions -/

variable {a : Action}

/-- Finding the registry of its handle comes first in every action that opens one. -/
theorem act_locate (h : a.opens = some handle) : (s.locate handle).2.act a = s.act a := by
  have hbound : (s.locate handle).2.Binds handle (s.locate handle).1 := binds_locate
  have hlocate := locate_of_binds hbound
  cases a with
  | get _ _ | drop _ => exact nomatch h
  | _ =>
    obtain rfl := Option.some.inj h
    simp only [Registries.act, register, define, remove, clear, reference, deferred, compile,
      share, hlocate]

/-- What handles lead to after an action whose handle has a registry. -/
theorem handles_act (h : ∀ handle, a.opens = some handle → ∃ j, s.Binds handle j) :
    (s.act a).2.handles = match a with
      | .share handle other =>
        if other = permanent then s.handles else Keyed.put other (s.locate handle).1 s.handles
      | .drop handle => if handle = permanent then s.handles else Keyed.erase handle s.handles
      | _ => s.handles := by
  cases a with
  | get handle name => rfl
  | drop handle =>
    simp only [Registries.act, drop]
    split <;> rfl
  | share handle other =>
    obtain ⟨j, hj⟩ := h handle rfl
    simp only [Registries.act, share, locate_of_binds hj]
    split <;> rfl
  | register handle _ _ | define handle _ _ =>
    obtain ⟨j, hj⟩ := h handle rfl
    simp only [Registries.act, register, define, locate_of_binds hj]
    split <;> rfl
  | remove handle _ | clear handle | reference handle _ | deferred handle _ | compile handle _ =>
    obtain ⟨j, hj⟩ := h handle rfl
    simp only [Registries.act, remove, clear, reference, deferred, compile, locate_of_binds hj,
      fresh, store]

/-- A family goes on as its history says, from one action to the next. -/
theorem Shares.act_of_bound (h : s.Shares F i)
    (hopens : ∀ handle, a.opens = some handle → ∃ j, s.Binds handle j) :
    (s.act a).2.Shares (a.family F) i := by
  refine ⟨Nat.lt_of_lt_of_le h.given (follows_act s a).next_le, fun g => ?_⟩
  rw [Binds, handles_act hopens]
  cases a with
  | share handle other =>
    obtain ⟨j, hj⟩ := hopens handle rfl
    simp only [Action.family, locate_of_binds hj]
    split
    · exact h.mem_iff g
    · have hhandle : handle ∈ F ↔ j = i := by
        rw [h.mem_iff, Binds, hj, Option.some.injEq]
      rw [Keyed.get?_put]
      by_cases hg : other = g
      · subst hg
        by_cases hj : j = i <;> simp [hhandle, hj]
      · by_cases hj : j = i <;> simp [hhandle, hj, hg, Ne.symm hg, h.mem_iff g, Binds]
  | drop handle =>
    simp only [Action.family]
    split
    · exact h.mem_iff g
    · rw [Keyed.get?_erase]
      by_cases hg : handle = g
      · simp [hg]
      · simp [hg, Ne.symm hg, h.mem_iff g, Binds]
  | _ => exact h.mem_iff g

theorem Shares.act (h : s.Shares F i) (a : Action) : (s.act a).2.Shares (a.family F) i := by
  cases hopens : a.opens with
  | none => exact h.act_of_bound fun handle hhandle => nomatch hopens.symm.trans hhandle
  | some handle =>
    rw [← act_locate hopens]
    refine (h.locate handle).act_of_bound fun other hother => ?_
    obtain rfl := Option.some.inj (hopens.symm.trans hother)
    exact ⟨_, binds_locate⟩

/-- No action binds a handle to a registry that had none, once the handle of the action has one. -/
theorem exists_binds_of_act (hopens : ∀ handle, a.opens = some handle → ∃ j, s.Binds handle j)
    (h : (s.act a).2.Binds handle i) : ∃ g, s.Binds g i := by
  rw [Binds, handles_act hopens] at h
  cases a with
  | share g other =>
    obtain ⟨j, hj⟩ := hopens g rfl
    simp only [locate_of_binds hj] at h
    split at h
    · exact ⟨handle, h⟩
    · rw [Keyed.get?_put] at h
      split at h
      · exact ⟨g, hj.trans h⟩
      · exact ⟨handle, h⟩
  | drop g =>
    simp only at h
    split at h
    · exact ⟨handle, h⟩
    · rw [Keyed.get?_erase] at h
      split at h
      · cases h
      · exact ⟨handle, h⟩
  | _ => exact ⟨handle, h⟩

theorem Covers.act_of_bound (h : s.Covers Fs)
    (hopens : ∀ handle, a.opens = some handle → ∃ j, s.Binds handle j) :
    (s.act a).2.Covers (Fs.map a.family) := by
  refine ⟨fun F hF => ?_, fun handle i hi => ?_⟩
  · obtain ⟨G, hG, rfl⟩ := List.mem_map.1 hF
    obtain ⟨i, hi⟩ := h.shares G hG
    exact ⟨i, hi.act_of_bound hopens⟩
  · -- The registry had a handle before, and the family of that one is the family still.
    obtain ⟨g, hg⟩ := exists_binds_of_act hopens hi
    obtain ⟨G, hG, hmem⟩ := h.all g i hg
    obtain ⟨j, hj⟩ := h.shares G hG
    obtain rfl := Option.some.inj (hg.symm.trans ((hj.mem_iff g).1 hmem))
    exact ⟨a.family G, List.mem_map_of_mem hG, ((hj.act_of_bound hopens).mem_iff handle).2 hi⟩

theorem Covers.act (hs : s.Tidy) (h : s.Covers Fs) (a : Action) :
    (s.act a).2.Covers (a.families Fs) := by
  unfold Action.families
  cases hopens : a.opens with
  | none => exact h.act_of_bound fun handle hhandle => nomatch hopens.symm.trans hhandle
  | some handle =>
    rw [← act_locate hopens]
    refine (h.locate hs handle).act_of_bound fun other hother => ?_
    obtain rfl := Option.some.inj (hopens.symm.trans hother)
    exact ⟨_, binds_locate⟩

theorem covers_empty : empty.Covers [[permanent]] where
  shares F hF := by
    obtain rfl := List.mem_singleton.1 hF
    refine ⟨0, Nat.one_pos, fun handle => ?_⟩
    by_cases h : handle = permanent
    · simp [empty, Binds, Keyed.get?, h]
    · simp [empty, Binds, Keyed.get?, h, Ne.symm h]
  all handle i h := by
    rw [Binds, empty, Keyed.get?] at h
    split at h
    · rename_i hhandle
      exact ⟨_, List.mem_cons_self, by simp [hhandle]⟩
    · cases h

end Registries

/-! ## Runs -/

/-- What actions in turn make of a family. -/
def family (F : List String) (as : List Action) : List String :=
  as.foldl (fun F a => a.family F) F

namespace Usage

variable {u : Usage} {F : List String} {i : Nat}

theorem shares_run (h : u.registries.Shares F i) (as : List Action) :
    (u.run as).registries.Shares (family F as) i := by
  induction as generalizing u F with
  | nil => exact h
  | cons a as ih => exact ih (u := u.act a) (h.act a)

theorem reachable_run (hu : u.Reachable fun _ _ => True) (as : List Action) :
    (u.run as).Reachable fun _ _ => True :=
  hu.run (Allows.of_forall (fun _ _ => trivial) u as)

theorem held_subset_run (as : List Action) : u.held ⊆ (u.run as).held := by
  induction as generalizing u with
  | nil => exact fun _ h => h
  | cons a as ih => exact fun c h => ih (u := u.act a) (List.mem_append_right _ h)

theorem covers_run (as : List Action) : (empty.run as).registries.Covers (families as) := by
  suffices haux : ∀ (u : Usage) Fs, u.registries.Tidy → u.registries.Covers Fs →
      (u.run as).registries.Covers (as.foldl (fun Fs a => a.families Fs) Fs) from
    haux empty _ Registries.tidy_empty Registries.covers_empty
  induction as with
  | nil => exact fun _ _ _ h => h
  | cons a as ih => exact fun u Fs hu h => ih (u.act a) _ (hu.act a) (h.act hu a)

end Usage

/-! ## What is bound to a family -/

/-- What is asked in this way answers for a name in the registry of a family. `within` asks a
registered checker in the midst of such a check. -/
structure Usage.Tracks (u : Usage) (F : List String) (name : String)
    (ask : Environment → Value → List Event → Bool)
    (within : Environment → Checker → Value → List Event → Bool) : Prop where
  /-- It asks the checker that any handle of the family finds under the name. -/
  asks : ∀ handle ∈ F, ∀ v j, ask u.registries.environment v j =
    ((u.registries.view handle).get? name).any fun c => within u.registries.environment c v j
  /-- Composed checkers answer this as they answer by themselves. -/
  answers : u.Reachable Composes → ∀ handle ∈ F, ∀ v j, ask u.registries.environment v j =
    ((u.registries.view handle).get? name).any fun c => u.registries.environment.accepts c v
  /-- Without a handle the family has no registry, and nothing is accepted ever after. -/
  gone : F = [] → ∀ as v j, ask (u.run as).registries.environment v j = false
  /-- Nothing that is done through other handles changes what is found. -/
  apart : ∀ a : Action, (∀ handle ∈ a.handles, handle ∉ F) → ∀ handle ∈ F,
    (u.act a).registries.view handle = u.registries.view handle

namespace Usage

variable {u : Usage} {F : List String} {i : Nat}

theorem get?_of_shares (hu : u.Reachable fun _ _ => True) (h : u.registries.Shares F i)
    {handle : String} (hhandle : handle ∈ F) (name : String) :
    Keyed.get? (.entry i name) u.registries.environment =
      (u.registries.view handle).get? name := by
  rw [Registries.get?_environment hu.distinct,
    Registries.view_of_binds ((h.mem_iff handle).1 hhandle)]

theorem get?_of_shares_nil (hu : u.Reachable fun _ _ => True) (h : u.registries.Shares [] i)
    (name : String) : Keyed.get? (.entry i name) u.registries.environment = none := by
  have hempty : u.registries.registry i = .empty :=
    Registries.registry_eq_empty hu.tidy fun handle hbinds => nomatch (h.mem_iff handle).2 hbinds
  rw [Registries.get?_environment hu.distinct, hempty]
  rfl

theorem family_nil (as : List Action) : family [] as = [] := by
  induction as with
  | nil => rfl
  | cons a as ih =>
    have hstep : a.family [] = [] := by
      cases a <;> simp [Action.family]
    rw [family, List.foldl_cons, hstep]
    exact ih

theorem mem_family_of_notMem_handles {a : Action} (ha : ∀ handle ∈ a.handles, handle ∉ F)
    {handle : String} (h : handle ∈ F) : handle ∈ a.family F := by
  have hne : ∀ other ∈ a.handles, handle ≠ other := fun other hother heq =>
    ha other hother (heq ▸ h)
  cases a with
  | share g other =>
    have hg : g ∉ F := ha g (by simp [Action.handles])
    have hother : handle ≠ other := hne other (by simp [Action.handles])
    simp only [Action.family, if_neg hg]
    split
    · exact h
    · exact List.mem_filter.2 ⟨h, by simpa using hother⟩
  | drop g =>
    have hg : handle ≠ g := hne g (by simp [Action.handles])
    simp only [Action.family]
    split
    · exact h
    · exact List.mem_filter.2 ⟨h, by simpa using hg⟩
  | _ => exact h

/-- What asks at an address in the registry of a family is bound to the family. -/
theorem tracks_of_shares (hu : u.Reachable fun _ _ => True) (h : u.registries.Shares F i)
    {name : String} {ask : Environment → Value → List Event → Bool}
    {within : Environment → Checker → Value → List Event → Bool}
    (hask : ∀ env v j, ask env v j =
      (Keyed.get? (.entry i name) env).any fun c => within env c v j)
    (hplain : u.Reachable Composes → ∀ v j, ask u.registries.environment v j =
      (Keyed.get? (.entry i name) u.registries.environment).any fun c =>
        u.registries.environment.accepts c v) :
    u.Tracks F name ask within where
  asks handle hhandle v j := by rw [hask, get?_of_shares hu h hhandle]
  answers hcomposes handle hhandle v j := by
    rw [hplain hcomposes, get?_of_shares hu h hhandle]
  gone hF as v j := by
    have hshares : (u.run as).registries.Shares [] i := by
      have hfamily := shares_run h as
      rwa [hF, family_nil] at hfamily
    rw [hask, get?_of_shares_nil (reachable_run hu as) hshares]
    rfl
  apart a ha handle hhandle := by
    have hbinds : (u.act a).registries.Binds handle i :=
      ((h.act a).mem_iff handle).1 (mem_family_of_notMem_handles ha hhandle)
    rw [Registries.view_of_binds hbinds, Registries.view_of_binds ((h.mem_iff handle).1 hhandle)]
    exact Registries.registry_act_of_not_binds hu.tidy h.given fun other hother hbinds =>
      ha other hother ((h.mem_iff other).2 hbinds)

/-- A reference is bound to the family of the handle it is made through. -/
theorem tracks_reference (hu : u.Reachable fun _ _ => True) {handle name : String} {l : Lookup}
    (hl : (u.registries.reference handle name).1 = .reference l)
    (h : (u.registries.locate handle).2.Shares F (u.registries.locate handle).1)
    (as : List Action) :
    ((u.act (.reference handle name)).run as).Tracks (family F as) name
      (fun env v j => (env.check (.reference l) v ⟨[], j⟩).1)
      (fun env c v j => (env.checkAt c .root v (Trail.enter l .root ⟨[], j⟩)).1) := by
  obtain rfl := Checker.reference.inj hl
  have hmade : (u.act (.reference handle name)).registries.Shares F
      (u.registries.locate handle).1 := ⟨Nat.lt_succ_of_lt h.given, h.mem_iff⟩
  refine tracks_of_shares (reachable_run (hu.act trivial) as) (shares_run hmade as)
    (fun env v j => env.check_reference v j _) fun hcomposes v j => ?_
  obtain ⟨known, horderly⟩ := hcomposes.orderly fun _ _ ha => ha
  have hheld : (u.registries.reference handle name).1 ∈ (u.act (.reference handle name)).held :=
    List.mem_cons_self
  have hknown := (horderly.held _ (held_subset_run as hheld)).2
  exact Environment.check_reference_eq_any horderly.registries.coherent
    horderly.registries.environment (hknown List.mem_cons_self)

/-- The same for a deferred property, under any key. -/
theorem tracks_deferred (hu : u.Reachable fun _ _ => True) {handle : String} (name : String)
    (h : (u.registries.locate handle).2.Shares F (u.registries.locate handle).1)
    (as : List Action) (k : DeclaredKey) :
    ((u.act (.deferred handle name)).run as).Tracks (family F as) name
      (fun env v j => (env.check (.object [(k, (u.registries.deferred handle name).1)])
        (.object [(k.name, v)]) ⟨[], j⟩).1)
      (fun env c v j => (env.checkAt c (Place.root.child (.key k.name)) v ⟨[], j⟩).1) := by
  have hmade : (u.act (.deferred handle name)).registries.Shares F
      (u.registries.locate handle).1 := h
  refine tracks_of_shares (reachable_run (hu.act trivial) as) (shares_run hmade as)
    (fun env v j => env.check_found v j k _) fun hcomposes v j => ?_
  obtain ⟨known, horderly⟩ := hcomposes.orderly fun _ _ ha => ha
  exact Environment.check_found_eq_any horderly.registries.coherent
    horderly.registries.environment k _

end Usage

/-- A reference or a deferred property that is made through a handle, at any time of any run, is
bound to the family of the handle for the rest of the run. -/
theorem references_follow_families (as : List Action) (handle name : String) :
    let u := Usage.empty.run as
    (∃ F ∈ opened handle (families as), handle ∈ F) ∧
      ∃ l, (u.registries.reference handle name).1 = .reference l ∧
        ∀ F ∈ opened handle (families as), handle ∈ F → ∀ bs : List Action,
          ((u.act (.reference handle name)).run bs).Tracks (family F bs) name
            (fun env v j => (env.check (.reference l) v ⟨[], j⟩).1)
            (fun env c v j => (env.checkAt c .root v (Trail.enter l .root ⟨[], j⟩)).1) ∧
          ∀ k : DeclaredKey, ((u.act (.deferred handle name)).run bs).Tracks (family F bs) name
            (fun env v j => (env.check (.object [(k, (u.registries.deferred handle name).1)])
              (.object [(k.name, v)]) ⟨[], j⟩).1)
            (fun env c v j =>
              (env.checkAt c (Place.root.child (.key k.name)) v ⟨[], j⟩).1) := by
  intro u
  have hu : u.Reachable fun _ _ => True := Usage.reachable_run .start as
  have hcovers : (u.registries.locate handle).2.Covers (opened handle (families as)) :=
    (Usage.covers_run as).locate hu.tidy handle
  refine ⟨hcovers.all handle _ Registries.binds_locate, _, rfl, fun F hF hhandle bs => ?_⟩
  obtain ⟨i, hi⟩ := hcovers.shares F hF
  obtain rfl := Option.some.inj (Registries.binds_locate.symm.trans ((hi.mem_iff handle).1 hhandle))
  exact ⟨Usage.tracks_reference hu rfl hi bs, Usage.tracks_deferred hu name hi bs⟩

/-- The reference outlives the handle it was made through, as a clone is left, and not the clone.
That the same name is defined in the same way in a new registry of the first handle changes
nothing. -/
theorem item_follows_copy :
    let item : Descriptor := .any [.kind .string, .array (.ref "item")]
    let as : List Action := [.define "shop" "item" item, .share "shop" "copy"]
    let u := (Usage.empty.run as).act (.reference "shop" "item")
    let l : Lookup := ⟨3, .entry 1 "item"⟩
    let v : Value := .array [.string "pen", .array []]
    let after := u.run [.drop "shop", .drop "copy", .define "shop" "item" item]
    ["copy", "shop"] ∈ opened "shop" (families as) ∧ "shop" ∈ ["copy", "shop"] ∧
      family ["copy", "shop"] [.drop "shop"] = ["copy"] ∧
      (u.run [.drop "shop"]).registries.environment.accepts (.reference l) v = true ∧
      (after.registries.view "shop").contains "item" = true ∧
      after.registries.environment.accepts (.reference l) v = false := by
  intro item as u l v after
  have hmem : ["copy", "shop"] ∈ opened "shop" (families as) := by decide
  have hshop : "shop" ∈ ["copy", "shop"] := by decide
  have hcopy : family ["copy", "shop"] [.drop "shop"] = ["copy"] := by decide
  have hnone : family ["copy", "shop"] [.drop "shop", .drop "copy"] = [] := by decide
  obtain ⟨-, m, hm, hfollows⟩ := references_follow_families as "shop" "item"
  obtain rfl : l = m := Checker.reference.inj hm
  refine ⟨hmem, hshop, hcopy, ?_, by decide, ?_⟩
  · have hreach : (u.run [.drop "shop"]).Reachable Usage.Composes :=
      .act (.act (.act (.act .start trivial) trivial) trivial) trivial
    have htracks := (hfollows _ hmem hshop [.drop "shop"]).1
    rw [hcopy] at htracks
    exact (htracks.answers hreach "copy" List.mem_cons_self v []).trans (by decide)
  · have htracks := (hfollows _ hmem hshop [.drop "shop", .drop "copy"]).1
    have hafter : after = (u.run [.drop "shop", .drop "copy"]).run [.define "shop" "item" item] :=
      Usage.run_append u [.drop "shop", .drop "copy"] _
    rw [hafter]
    exact htracks.gone hnone _ v []

end DataShape
