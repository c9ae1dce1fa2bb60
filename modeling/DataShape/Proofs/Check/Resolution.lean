import DataShape.Proofs.Check.Acceptance

/-!
# Asking by way of an address

A reference and a deferred property ask whatever is found at their address when they are
asked themselves (`check_reference`, `check_found`). A reference is in progress
meanwhile, which the checker behind it may notice if it has instruments in it. Without
instruments both give the answer that the checker gives by itself
(`check_reference_eq_any`, `check_found_eq_any`).
-/

namespace DataShape

namespace Environment

variable (env : Environment) (v : Value) (j : List Event)

/-- A reference asks the checker at its address, while it is in progress itself. -/
theorem check_reference (l : Lookup) :
    (env.check (.reference l) v ⟨[], j⟩).1 = (Keyed.get? l.address env).any fun c =>
      (env.checkAt c .root v (Trail.enter l .root ⟨[], j⟩)).1 := by
  have hstep := env.checkAt_eq_step (.reference l) .root v ⟨[], j⟩
  rw [check]
  simp only [Checker.step, Checker.guarded, asking, List.not_mem_nil, if_false] at hstep
  cases hc : Keyed.get? l.address env with
  | none =>
    simp only [hc] at hstep
    simp [Option.some.inj hstep]
  | some c =>
    simp only [hc] at hstep
    simp [Option.some.inj hstep]

/-- A deferred property asks the checker at its address about the field. -/
theorem check_found (k : DeclaredKey) (a : Address) :
    (env.check (.object [(k, .found none a)]) (.object [(k.name, v)]) ⟨[], j⟩).1 =
      (Keyed.get? a env).any fun c =>
        (env.checkAt c (Place.root.child (.key k.name)) v ⟨[], j⟩).1 := by
  have hstep := env.checkAt_eq_step (.object [(k, .found none a)]) .root (.object [(k.name, v)])
    ⟨[], j⟩
  rw [check]
  simp only [Checker.step, Checker.everyProperty, Keyed.get?, if_true, Checker.askProperty, asking]
    at hstep
  cases hc : Keyed.get? a env with
  | none =>
    simp only [hc] at hstep
    simp [Option.some.inj hstep]
  | some c =>
    simp only [hc, Trail.noteMade] at hstep
    cases hb : env.checkAt c (Place.root.child (.key k.name)) v ⟨[], j⟩ with
    | mk b t =>
      simp only [hb] at hstep
      cases b <;> simp_all

variable {env v j} {known : List Lookup} (hknown : Coherent known) (henv : env.BuiltFrom known)
include hknown henv

theorem any_accepts_iff (a : Address) :
    ((Keyed.get? a env).any fun c => env.accepts c v) = true ↔
      ∃ c, Keyed.get? a env = some c ∧ Accepts env c v := by
  rw [Option.any_eq_true]
  refine exists_congr fun c => and_congr_right fun hc => ?_
  exact check_iff_accepts hknown henv (henv _ (Keyed.mem_of_get? hc)) v []

/-- A reference gives the answer of the checker at its address. -/
theorem check_reference_eq_any {l : Lookup} (hl : l ∈ known) :
    (env.check (.reference l) v ⟨[], j⟩).1 =
      (Keyed.get? l.address env).any fun c => env.accepts c v := by
  have hc : (Checker.reference l).BuiltFrom known := ⟨rfl, List.cons_subset.2 ⟨hl, nofun⟩⟩
  rw [Bool.eq_iff_iff, any_accepts_iff hknown henv]
  exact (check_iff_accepts hknown henv hc v j).trans accepts_iff

/-- A deferred property gives the answer of the checker at its address. -/
theorem check_found_eq_any (k : DeclaredKey) (a : Address) :
    (env.check (.object [(k, .found none a)]) (.object [(k.name, v)]) ⟨[], j⟩).1 =
      (Keyed.get? a env).any fun c => env.accepts c v := by
  have hc : (Checker.object [(k, .found none a)]).BuiltFrom known := ⟨rfl, nofun⟩
  have hk : Keyed.get? k.name [(k.name, v)] = some v := by simp [Keyed.get?]
  rw [Bool.eq_iff_iff, any_accepts_iff hknown henv]
  refine (check_iff_accepts hknown henv hc _ j).trans (accepts_iff.trans ?_)
  simp [Rule, fieldRule_some hk, Property.fixed?]

end Environment

end DataShape
