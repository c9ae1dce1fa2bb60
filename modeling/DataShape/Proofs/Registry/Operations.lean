import DataShape.Registry.Basic

/-!
# Steps of one registry

When registering and defining succeed, and what is found afterwards. Both write one
name that was not registered, removing writes one that may be, and no other name
changes : an entry or a definition is looked up after a step as before it, except
under the name of the step.
-/

namespace DataShape.Registry

variable {r r' : Registry} {i n n' : Nat} {name : String} {c : Checker} {d : Descriptor}

theorem contains_eq_true : r.contains name = true ↔ ∃ c, r.get? name = some c :=
  Option.isSome_iff_exists

/-! ## Success -/

theorem register_eq_ok :
    r.register name c = .ok r' ↔ Text.isBlank name = false ∧ r.get? name = none ∧
      r' = { r with entries := Keyed.put name c r.entries } := by
  unfold register contains
  cases hblank : Text.isBlank name <;> cases hget : r.get? name <;> simp [eq_comm]

theorem define_eq_ok :
    r.define i n name d = .ok (r', n') ↔ r.cycle? name d = none ∧ Text.isBlank name = false ∧
      r.get? name = none ∧ n' = (d.compile i n).2 ∧
      r' = ⟨Keyed.put name (d.compile i n).1 r.entries, Keyed.put name d r.definitions⟩ := by
  unfold define
  cases hcycle : r.cycle? name d with
  | some names => simp
  | none =>
    cases hreg : r.register name (d.compile i n).1 with
    | error e =>
      have hno : ∀ r'', ¬ r.register name (d.compile i n).1 = .ok r'' := by simp [hreg]
      simp only [register_eq_ok] at hno
      simp only [hreg, reduceCtorEq, false_iff]
      exact fun ⟨_, hblank, hget, _⟩ => hno _ ⟨hblank, hget, rfl⟩
    | ok r'' =>
      obtain ⟨hblank, hget, rfl⟩ := register_eq_ok.1 hreg
      simp [hblank, hget, hreg, eq_comm, and_comm]

/-! ## What is found afterwards -/

theorem get?_of_register (h : r.register name c = .ok r') (x : String) :
    r'.get? x = if name = x then some c else r.get? x := by
  obtain ⟨-, -, rfl⟩ := register_eq_ok.1 h
  exact Keyed.get?_put ..

theorem definition?_of_register (h : r.register name c = .ok r') (x : String) :
    r'.definition? x = r.definition? x := by
  obtain ⟨-, -, rfl⟩ := register_eq_ok.1 h
  rfl

theorem get?_of_define (h : r.define i n name d = .ok (r', n')) (x : String) :
    r'.get? x = if name = x then some (d.compile i n).1 else r.get? x := by
  obtain ⟨-, -, -, -, rfl⟩ := define_eq_ok.1 h
  exact Keyed.get?_put ..

theorem definition?_of_define (h : r.define i n name d = .ok (r', n')) (x : String) :
    r'.definition? x = if name = x then some d else r.definition? x := by
  obtain ⟨-, -, -, -, rfl⟩ := define_eq_ok.1 h
  exact Keyed.get?_put ..

theorem get?_remove (x : String) :
    (r.remove name).get? x = if name = x then none else r.get? x :=
  Keyed.get?_erase ..

theorem definition?_remove (x : String) :
    (r.remove name).definition? x = if name = x then none else r.definition? x :=
  Keyed.get?_erase ..

end DataShape.Registry
