import DataShape.Proofs.Registry.Usage

/-!
# Registries and their handles

Each handle leads to one registry (`Registries.Binds`), numbers are given to registries
once, and a registry without a handle is gone (`Registries.Tidy`). Every action keeps
this, so it holds at any time.

An action leaves a registry as it was unless it goes through a handle of it
(`registry_act_of_not_binds`), and most actions only add to the one they go through
(`registry_act_of_adds`).
-/

namespace DataShape

namespace Action

/-- The handles an action goes through, gives away or forgets. -/
def handles : Action → List String
  | register handle _ _ | define handle _ _ | remove handle _ | clear handle | get handle _
  | reference handle _ | deferred handle _ | compile handle _ | drop handle => [handle]
  | share handle other => [handle, other]

/-- Nothing is removed and no handle is lost. -/
def Adds : Action → Prop
  | remove _ _ | clear _ | share _ _ | drop _ => False
  | _ => True

end Action

namespace Registries

/-- The handle is one of the registry of this number. -/
def Binds (s : Registries) (handle : String) (i : Nat) : Prop :=
  Keyed.get? handle s.handles = some i

/-- Each handle is bound once, to a number that was given already, and each registry has a
handle. -/
structure Tidy (s : Registries) : Prop where
  single : (Keyed.keys s.handles).Nodup
  given : ∀ handle i, s.Binds handle i → i < s.next
  kept : ∀ i r, Keyed.get? i s.stores = some r → ∃ handle, s.Binds handle i

variable {s : Registries} {handle : String} {i j : Nat}

theorem registry_eq_empty (hs : s.Tidy) (hi : ∀ handle, ¬ s.Binds handle i) :
    s.registry i = .empty := by
  unfold registry
  cases hr : Keyed.get? i s.stores with
  | none => rfl
  | some r =>
    obtain ⟨handle, hbinds⟩ := hs.kept i r hr
    exact absurd hbinds (hi handle)

theorem view_of_binds (h : s.Binds handle i) : s.view handle = s.registry i := by
  rw [view, h]

/-! ## Finding the registry of a handle -/

/-- What a handle leads to once it has a registry. -/
theorem binds_locate : (s.locate handle).2.Binds handle (s.locate handle).1 := by
  unfold locate
  cases h : Keyed.get? handle s.handles with
  | some i => exact h
  | none => simp [Binds, Keyed.get?_put]

/-- No handle moves to or from a registry that was there before. -/
theorem binds_locate_iff (hi : i < s.next) (other : String) :
    (s.locate handle).2.Binds other i ↔ s.Binds other i := by
  unfold locate
  cases h : Keyed.get? handle s.handles with
  | some _ => exact Iff.rfl
  | none =>
    by_cases hother : handle = other
    · subst hother
      simp [Binds, Keyed.get?_put, h, Nat.ne_of_gt hi]
    · simp [Binds, Keyed.get?_put, hother]

theorem locate_eq_iff (hi : i < s.next) : (s.locate handle).1 = i ↔ s.Binds handle i := by
  rw [← binds_locate_iff hi]
  refine ⟨fun h => h ▸ binds_locate, fun h => ?_⟩
  exact Option.some.inj (binds_locate.symm.trans h)

theorem next_le_locate : s.next ≤ (s.locate handle).2.next := by
  unfold locate
  cases Keyed.get? handle s.handles <;> simp

theorem Tidy.locate (hs : s.Tidy) (handle : String) : (s.locate handle).2.Tidy := by
  unfold Registries.locate
  cases hnew : Keyed.get? handle s.handles with
  | some i => exact hs
  | none =>
    have hold : ∀ other i, s.Binds other i →
        Keyed.get? other (Keyed.put handle s.next s.handles) = some i := fun other i h => by
      rw [Keyed.get?_put, if_neg, h]
      rintro rfl
      exact nomatch hnew.symm.trans h
    refine ⟨Keyed.nodup_keys_put _ _ hs.single, fun other i h => ?_, fun i r hr => ?_⟩
    · rw [Binds, Keyed.get?_put] at h
      split at h
      · exact Option.some.inj h ▸ Nat.lt_succ_self _
      · exact Nat.lt_succ_of_lt (hs.given other i h)
    · rw [Keyed.get?_put] at hr
      split at hr
      · rename_i hi
        exact ⟨handle, by simp [Binds, Keyed.get?_put, hi]⟩
      · obtain ⟨other, h⟩ := hs.kept i r hr
        exact ⟨other, hold other i h⟩

/-- A new handle gets an empty registry, which is what was under its number before. -/
theorem registry_after_locate (hs : s.Tidy) (handle : String) (j : Nat) :
    (s.locate handle).2.registry j = s.registry j := by
  unfold locate
  cases Keyed.get? handle s.handles with
  | some i => rfl
  | none =>
    by_cases hj : s.next = j
    · subst hj
      have hfresh : ∀ other, ¬ s.Binds other s.next := fun other h =>
        Nat.lt_irrefl _ (hs.given other _ h)
      rw [registry_eq_empty hs hfresh]
      simp [registry, Keyed.get?_put]
    · simp [registry, Keyed.get?_put, hj]

/-! ## Writing registries and binding handles anew -/

theorem Tidy.store (hs : s.Tidy) (hi : s.Binds handle i) (r : Registry) : (s.store i r).Tidy := by
  refine ⟨hs.single, hs.given, fun j r' hr => ?_⟩
  rw [Registries.store, Keyed.get?_put] at hr
  split at hr
  · rename_i hj
    exact ⟨handle, hj ▸ hi⟩
  · exact hs.kept j r' hr

theorem Tidy.count (hs : s.Tidy) {n : Nat} (hn : s.next ≤ n) : Tidy { s with next := n } :=
  ⟨hs.single, fun handle i h => Nat.lt_of_lt_of_le (hs.given handle i h) hn, hs.kept⟩

theorem registry_store (r : Registry) :
    (s.store i r).registry j = if i = j then r else s.registry j := by
  rw [registry, store, Keyed.get?_put]
  split <;> rfl

/-- A registry stays as long as it has a handle. -/
theorem get?_sweep (hs : (Keyed.keys s.handles).Nodup) (i : Nat) [Decidable (∃ h, s.Binds h i)] :
    Keyed.get? i (sweep s).stores =
      if ∃ handle, s.Binds handle i then Keyed.get? i s.stores else none := by
  have hbound : (s.handles.any fun h => h.2 == i) = true ↔ ∃ handle, s.Binds handle i := by
    simp only [List.any_eq_true, Prod.exists, beq_iff_eq, Binds, Keyed.get?_eq_some_iff hs]
    constructor
    · rintro ⟨handle, _, h, rfl⟩
      exact ⟨handle, h⟩
    · rintro ⟨handle, h⟩
      exact ⟨handle, _, h, rfl⟩
  rw [sweep, Keyed.get?_filter fun k => s.handles.any fun h => h.2 == k]
  exact if_congr hbound rfl rfl

theorem tidy_sweep (hsingle : (Keyed.keys s.handles).Nodup)
    (hgiven : ∀ handle i, s.Binds handle i → i < s.next) : (sweep s).Tidy := by
  classical
  refine ⟨hsingle, hgiven, fun i r hr => ?_⟩
  rw [get?_sweep hsingle] at hr
  split at hr
  · assumption
  · cases hr

/-- Binding one handle anew leaves the registries of other handles as they were. -/
theorem registry_rebind (hs : s.Tidy) {handles : List (String × Nat)}
    (hsingle : (Keyed.keys handles).Nodup) {other : String}
    (hothers : ∀ handle, handle ≠ other →
      Keyed.get? handle handles = Keyed.get? handle s.handles)
    (hj : ¬ s.Binds other j) : (sweep { s with handles }).registry j = s.registry j := by
  classical
  rw [registry, get?_sweep hsingle]
  split
  · rfl
  · rename_i hlost
    refine (registry_eq_empty hs fun handle h => hlost ⟨handle, ?_⟩).symm
    have hne : handle ≠ other := by
      rintro rfl
      exact hj h
    exact (hothers handle hne).trans h

/-! ## Actions -/

theorem Tidy.act (hs : s.Tidy) (a : Action) : (s.act a).2.Tidy := by
  cases a with
  | register handle name c =>
    simp only [Registries.act, register]
    split
    · exact (hs.locate handle).store binds_locate _
    · exact hs.locate handle
  | define handle name d =>
    simp only [Registries.act, define]
    split
    · rename_i r n hr
      obtain ⟨-, -, -, rfl, -⟩ := Registry.define_eq_ok.1 hr
      exact ((hs.locate handle).store binds_locate _).count (Descriptor.numbered_compile _ d _).le
    · exact hs.locate handle
  | remove handle name => exact (hs.locate handle).store binds_locate _
  | clear handle => exact (hs.locate handle).store binds_locate _
  | get handle name => exact hs
  | reference handle name => exact (hs.locate handle).count (Nat.le_succ _)
  | deferred handle name => exact hs.locate handle
  | compile handle d => exact (hs.locate handle).count (Descriptor.numbered_compile _ d _).le
  | share handle other =>
    have hlocated := hs.locate handle
    simp only [Registries.act, share]
    split
    · exact hlocated
    · refine tidy_sweep (Keyed.nodup_keys_put _ _ hlocated.single) fun g i h => ?_
      rw [Binds, Keyed.get?_put] at h
      split at h
      · exact Option.some.inj h ▸ hlocated.given _ _ binds_locate
      · exact hlocated.given g i h
  | drop handle =>
    simp only [Registries.act, drop]
    split
    · exact hs
    · refine tidy_sweep (Keyed.nodup_keys_erase _ hs.single) fun g i h => ?_
      rw [Binds, Keyed.get?_erase] at h
      split at h
      · cases h
      · exact hs.given g i h

/-- An action that goes through none of its handles leaves a registry as it was. -/
theorem registry_act_of_not_binds (hs : s.Tidy) (hj : j < s.next) {a : Action}
    (h : ∀ handle ∈ a.handles, ¬ s.Binds handle j) : (s.act a).2.registry j = s.registry j := by
  have hne : ∀ handle, ¬ s.Binds handle j → (s.locate handle).1 ≠ j := fun handle h heq =>
    h ((locate_eq_iff hj).1 heq)
  have hstored : ∀ handle r, ¬ s.Binds handle j →
      ((s.locate handle).2.store (s.locate handle).1 r).registry j = s.registry j :=
    fun handle r h => by rw [registry_store, if_neg (hne handle h), registry_after_locate hs]
  cases a with
  | register handle name c =>
    simp only [Registries.act, register]
    split
    · exact hstored handle _ (h handle List.mem_cons_self)
    · exact registry_after_locate hs handle j
  | define handle name d =>
    simp only [Registries.act, define]
    split
    · exact hstored handle _ (h handle List.mem_cons_self)
    · exact registry_after_locate hs handle j
  | remove handle name => exact hstored handle _ (h handle List.mem_cons_self)
  | clear handle => exact hstored handle _ (h handle List.mem_cons_self)
  | get handle name => rfl
  | reference handle name => exact registry_after_locate hs handle j
  | deferred handle name => exact registry_after_locate hs handle j
  | compile handle d => exact registry_after_locate hs handle j
  | share handle other =>
    simp only [Registries.act, share]
    split
    · exact registry_after_locate hs handle j
    · have hlocated := hs.locate handle
      have hother : ¬ (s.locate handle).2.Binds other j := fun hbinds =>
        h other (by simp [Action.handles]) ((binds_locate_iff hj other).1 hbinds)
      rw [registry_rebind hlocated (Keyed.nodup_keys_put _ _ hlocated.single) (fun g hg => ?_)
        hother, registry_after_locate hs]
      rw [Keyed.get?_put, if_neg (Ne.symm hg)]
  | drop handle =>
    simp only [Registries.act, drop]
    split
    · rfl
    · refine registry_rebind hs (Keyed.nodup_keys_erase _ hs.single) (fun g hg => ?_)
        (h handle List.mem_cons_self)
      rw [Keyed.get?_erase, if_neg (Ne.symm hg)]

/-- An action that only adds leaves every registry as it was or takes it one step further. -/
theorem registry_act_of_adds (hs : s.Tidy) {a : Action} (ha : a.Adds) (j : Nat) :
    (s.act a).2.registry j = s.registry j ∨
      Registry.Step j a (s.registry j) ((s.act a).2.registry j) := by
  have hlocated := fun handle => registry_after_locate hs handle j
  cases a with
  | register handle name c =>
    simp only [Registries.act, register]
    split
    · rename_i r hr
      by_cases hj : (s.locate handle).1 = j
      · subst hj
        rw [registry_store, if_pos rfl, ← hlocated handle]
        exact Or.inr (.register hr)
      · rw [registry_store, if_neg hj]
        exact Or.inl (hlocated handle)
    · exact Or.inl (hlocated handle)
  | define handle name d =>
    simp only [Registries.act, define]
    split
    · rename_i r n hr
      by_cases hj : (s.locate handle).1 = j
      · subst hj
        have hstored : ((s.locate handle).2.store (s.locate handle).1 r).registry
            (s.locate handle).1 = r := by rw [registry_store, if_pos rfl]
        refine Or.inr ?_
        rw [← hlocated handle]
        exact .define (hr.trans (congrArg (fun r => Except.ok (r, n)) hstored.symm))
      · refine Or.inl (Eq.trans ?_ (hlocated handle))
        exact registry_store r |>.trans (if_neg hj)
    · exact Or.inl (hlocated handle)
  | get handle name => exact Or.inl rfl
  | reference handle name => exact Or.inl (hlocated handle)
  | deferred handle name => exact Or.inl (hlocated handle)
  | compile handle d => exact Or.inl (hlocated handle)
  | remove handle name | clear handle | share handle other | drop handle => exact ha.elim

theorem tidy_empty : empty.Tidy where
  single := by simp [empty]
  given handle i h := by
    rw [Binds, empty, Keyed.get?] at h
    split at h
    · exact Option.some.inj h ▸ Nat.one_pos
    · cases h
  kept i r h := by
    rw [empty, Keyed.get?] at h
    split at h
    · rename_i hi
      exact ⟨permanent, hi ▸ rfl⟩
    · cases h

end Registries

theorem Usage.Reachable.tidy {allowed : Usage → Action → Prop} {u : Usage}
    (hu : u.Reachable allowed) : u.registries.Tidy := by
  induction hu with
  | start => exact Registries.tidy_empty
  | act _ _ ih => exact ih.act _

end DataShape
