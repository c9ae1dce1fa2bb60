import DataShape.Proofs.Registry.Handles
import DataShape.Proofs.Registry.Numbering

/-!
# Growing registries

A name that is registered stays what it is while names are only added : registering and
defining refuse a name that is taken. So what could be found can be found again
(`Registries.extends_act`), and the rules of acceptance that held hold again, with more
checkers at more addresses (`Accepts.of_extends`).

The guard is no obstacle, although a new name may close a cycle that was open before. A
check gives what the rules say on either side (`check_iff_accepts`), and these know no
guard. So a checker goes on accepting what it accepted, whatever is registered later
(`accepts_after_registering`).
-/

namespace DataShape

/-! ## More checkers at more addresses -/

/-- What is found in the one environment is found in the other. -/
def Environment.Extends (env env' : Environment) : Prop :=
  ∀ a c, Keyed.get? a env = some c → Keyed.get? a env' = some c

section Extends

variable {env env' : Environment} (henv : env.Extends env')
include henv

theorem Property.fixed?_of_extends {p : Property} {c : Checker} (h : p.fixed? env = some c) :
    p.fixed? env' = some c := by
  cases p with
  | found label a => exact henv a c h
  | _ => exact h

theorem FieldRule.of_extends {R : Checker → Value → Prop} {fields : List (String × Value)}
    {k : DeclaredKey} {p : Property} (h : FieldRule (p.fixed? env) R fields k) :
    FieldRule (p.fixed? env') R fields k := by
  rcases h with ⟨v, c, hv, hc, h⟩ | h
  · exact Or.inl ⟨v, c, hv, Property.fixed?_of_extends henv hc, h⟩
  · exact Or.inr h

theorem Rule.of_extends {R : Checker → Value → Prop} {c : Checker} {v : Value}
    (h : Rule env R c v) : Rule env' R c v := by
  cases c with
  | object ps =>
    obtain ⟨fields, rfl, h⟩ := h
    exact ⟨fields, rfl, fun e he => (h e he).of_extends henv⟩
  | reference l =>
    obtain ⟨c, hc, h⟩ := h
    exact ⟨c, henv _ c hc, h⟩
  | _ => exact h

/-- What is accepted stays accepted when more can be found. -/
theorem Accepts.of_extends {c : Checker} {v : Value} (h : Accepts env c v) : Accepts env' c v :=
  h.of_closed fun _ _ h => accepts_iff.2 (h.of_extends henv)

end Extends

/-! ## Actions that only add -/

/-- A step that adds a name keeps the others. -/
theorem Registry.get?_of_step {i : Nat} {a : Action} {r r' : Registry} (ha : a.Adds)
    (h : Registry.Step i a r r') {name : String} {c : Checker} (hc : r.get? name = some c) :
    r'.get? name = some c := by
  have hnew : ∀ {x : String}, r.get? x = none → x ≠ name := by
    rintro x hx rfl
    exact nomatch hx.symm.trans hc
  cases h with
  | register hr =>
    obtain ⟨-, hnone, -⟩ := register_eq_ok.1 hr
    rw [get?_of_register hr, if_neg (hnew hnone), hc]
  | define hr =>
    obtain ⟨-, -, hnone, -⟩ := define_eq_ok.1 hr
    rw [get?_of_define hr, if_neg (hnew hnone), hc]
  | remove => exact ha.elim

/-- What can be found is found again after an action that only adds. -/
theorem Registries.extends_act {s : Registries} (hs : s.Tidy)
    (hdistinct : (Keyed.keys s.stores).Nodup) {a : Action} (ha : a.Adds) :
    s.environment.Extends (s.act a).2.environment := by
  intro x c hc
  obtain ⟨i, name, rfl⟩ := entry_of_get?_environment hc
  rw [get?_environment hdistinct] at hc
  rw [get?_environment ((follows_act s a).distinct hdistinct)]
  rcases registry_act_of_adds hs ha i with heq | hstep
  · rw [heq, hc]
  · exact Registry.get?_of_step ha hstep hc

namespace Usage

variable {u : Usage} {as : List Action}

theorem Reachable.extends_run (hu : u.Reachable Composes) (has : u.Allows Composes as)
    (hadds : ∀ a ∈ as, a.Adds) :
    u.registries.environment.Extends (u.run as).registries.environment := by
  induction as generalizing u with
  | nil => exact fun _ _ h => h
  | cons a as ih =>
    obtain ⟨ha, hrest⟩ := List.forall_mem_cons.1 hadds
    have hfirst := Registries.extends_act hu.tidy hu.distinct ha
    exact fun x c hc => ih (hu.act has.1) has.2 hrest x c (hfirst x c hc)

/-- References that are known stay known. -/
theorem Orderly.run {known : List Lookup} (h : u.Orderly known) (has : u.Allows Composes as) :
    ∃ known', known ⊆ known' ∧ (u.run as).Orderly known' := by
  refine has.run (P := fun u => ∃ known', known ⊆ known' ∧ u.Orderly known') ?_
    ⟨known, List.Subset.refl _, h⟩
  rintro u a ha ⟨known', hsub, h'⟩
  obtain ⟨ls, hls⟩ := h'.act ha
  exact ⟨ls ++ known', fun l hl => List.mem_append_right ls (hsub hl), hls⟩

end Usage

/-- A checker accepts what it accepted before, after any number of names were registered or defined,
with or without success, and whatever references were made meanwhile. -/
theorem accepts_after_registering {u : Usage} (hu : u.Reachable Usage.Composes)
    {as : List Action} (has : u.Allows Usage.Composes as) (hadds : ∀ a ∈ as, a.Adds) {c : Checker}
    (hc : c.BuiltFrom (u.run as).lookups) {v : Value}
    (h : u.registries.environment.accepts c v = true) :
    (u.run as).registries.environment.accepts c v = true := by
  obtain ⟨known, horderly⟩ := hu.orderly fun _ _ ha => ha
  obtain ⟨known', hsub, horderly'⟩ := horderly.run has
  have hcoherent := horderly'.registries.coherent
  have hbuilt := hc.mono horderly'.lookups_subset
  have hbefore : u.registries.environment.BuiltFrom known' := fun e he =>
    (horderly.registries.environment e he).mono hsub
  have haccepts := (check_iff_accepts hcoherent hbefore hbuilt v []).1 h
  exact (check_iff_accepts hcoherent horderly'.registries.environment hbuilt v []).2
    (haccepts.of_extends (hu.extends_run has hadds))

/-- The second name closes a cycle of references with the first, which it comes before. -/
theorem tree_accepts_after_registering :
    let tree : Lookup := ⟨1, .entry 0 "tree"⟩
    let leaf : Lookup := ⟨2, .entry 0 "leaf"⟩
    let u := ((Usage.empty.act (.reference "global" "tree")).act (.reference "global" "leaf")).act
      (.register "global" "tree"
        (.any [.reference leaf, .array (.reference tree), .primitive .null]))
    let as : List Action := [.register "global" "leaf" (.any [.reference tree, .literal "leaf"]),
      .register "global" "tree" (.primitive .number), .define "global" "root" (.ref "tree")]
    let c := Checker.object [(⟨"root"⟩, .direct (.reference tree)),
      (⟨"more?"⟩, .found none (.entry 0 "leaf"))]
    let v := Value.object [("root", .array [.null, .array []])]
    u.Reachable Usage.Composes ∧ u.Allows Usage.Composes as ∧ c.BuiltFrom (u.run as).lookups ∧
      u.registries.environment.accepts c v = true ∧
      (u.run as).registries.environment.accepts c v = true := by
  intro tree leaf u as c v
  have hu : u.Reachable Usage.Composes :=
    .act (.act (.act .start trivial) trivial) ⟨rfl, by decide⟩
  have has : u.Allows Usage.Composes as :=
    ⟨⟨rfl, by decide⟩, ⟨rfl, by decide⟩, trivial, trivial⟩
  have hadds : ∀ a ∈ as, a.Adds := by simp [as, Action.Adds]
  have hc : c.BuiltFrom (u.run as).lookups := ⟨rfl, by decide⟩
  have hv : u.registries.environment.accepts c v = true := by decide
  exact ⟨hu, has, hc, hv, accepts_after_registering hu has hadds hc hv⟩

end DataShape
