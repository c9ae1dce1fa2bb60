import DataShape.Proofs.Check.Observation

/-!
# Checks that find whatever they look for

A checker looks things up by itself in two ways : it is a reference, or it is an object with a
deferred property that leads to an address. If nothing is missing there (`Checker.Finds`), nor
for any checker that may be asked in turn (`Environment.Complete`), then nothing is missing in
the whole course of a check, whatever the value is and however long references lead from one
checker to the next (`Settles.finds`).
-/

namespace DataShape

open Relation

variable {env : Environment}

/-- There is a checker wherever this property leads, if it leads to an address at all. -/
def Property.Finds (env : Environment) (p : Property) : Prop :=
  ∀ label a, p = .found label a → ∃ c, Keyed.get? a env = some c

/-- There is a checker wherever this one looks by itself. -/
def Checker.Finds (env : Environment) : Checker → Prop
  | .object ps => ∀ e ∈ ps, e.2.Finds env
  | .reference l => ∃ c, Keyed.get? l.address env = some c
  | _ => True

/-- There is a checker wherever those that may be asked look. -/
def Environment.Complete (env : Environment) : Checker → Prop :=
  env.Everywhere (Checker.Finds env)

/-- A property finds its checker, and so do those that it asks. -/
def Property.Complete (env : Environment) (p : Property) : Prop :=
  p.Finds env ∧ ∀ j c, p.yields env j = some c → env.Complete c

/-- The checkers that a question is about find whatever they look for. -/
def Question.Complete (env : Environment) : Question → Prop
  | about c _ _ => env.Complete c
  | oneOf cs _ _ => ∀ c ∈ cs, env.Complete c
  | every c _ _ _ => env.Complete c
  | property p _ _ => p.Complete env
  | properties ps _ _ => ∀ e ∈ ps, e.2.Complete env

theorem Environment.Complete.properties {ps : List (DeclaredKey × Property)}
    (h : env.Complete (.object ps)) : ∀ e ∈ ps, e.2.Complete env :=
  fun e he => ⟨h.here e he, fun _ _ hc => inherited_everywhere h (.object he hc)⟩

/-- Something was found, if the event tells of a look at an address. -/
def Event.Found (env : Environment) : Event → Prop
  | entered l _ => ∃ c, Keyed.get? l.address env = some c
  | unresolved _ => False
  | _ => True

theorem Property.found_making (p : Property) : ∀ e ∈ p.making, e.Found env := by
  unfold Property.making
  split <;> simp [Event.Found]

theorem Property.Finds.found_failing {p : Property} (h : p.Finds env) {j : List Event}
    (hp : p.yields env j = none) : ∀ e ∈ p.failing, e.Found env := by
  rcases p.failing_eq with heq | ⟨label, a, rfl, -⟩
  · exact heq ▸ p.found_making
  · obtain ⟨c, hc⟩ := h label a rfl
    exact nomatch hc.symm.trans hp

/-- Where the question is about checkers that find whatever they look for, nothing is missing at any
time of the check. -/
theorem Settles.finds {q : Question} {t : Trail} {b : Bool} {es : List Event}
    (h : Settles env q t b es) (hq : q.Complete env) : ∀ e ∈ es, e.Found env := by
  have hasked : Inherited env env.Complete := Environment.inherited_everywhere
  induction h with
  | atSight | oneOf_nil | every_nil | properties_nil | properties_missing =>
    exact fun _ he => nomatch he
  | any _ ih => exact ih fun c hc => hasked hq (.any hc)
  | nullable _ _ ih => exact ih (hasked hq .nullable)
  | array _ ih => exact ih (hasked hq .array)
  | object _ ih => exact ih (Environment.Complete.properties hq)
  | watched _ ih =>
    have hinner := ih (hasked hq .watched)
    exact List.forall_mem_append.2 ⟨hinner, by simp [Event.Found]⟩
  | scripted | reentered _ => simp [Event.Found]
  | unresolved _ hl =>
    obtain ⟨c, hc⟩ := hq.here
    exact absurd (hc.symm.trans hl) (Option.some_ne_none c)
  | resolved _ hl _ ih =>
    have hinner := ih (hasked hq (.reference hl))
    refine List.forall_mem_cons.2 ⟨trivial, List.forall_mem_append.2 ⟨hinner, ?_⟩⟩
    exact List.forall_mem_singleton.2 ⟨_, hl⟩
  | oneOf_accepted _ ih => exact ih (hq _ List.mem_cons_self)
  | oneOf_next _ _ ih ihs =>
    obtain ⟨hc, hcs⟩ := List.forall_mem_cons.1 hq
    exact List.forall_mem_append.2 ⟨ihs hcs, ih hc⟩
  | every_rejected _ ih => exact ih hq
  | every_next _ _ ih ihs => exact List.forall_mem_append.2 ⟨ihs hq, ih hq⟩
  | yielded hp _ ih =>
    exact List.forall_mem_append.2 ⟨ih (hq.2 _ _ hp), Property.found_making _⟩
  | failing hp => exact hq.1.found_failing hp
  | properties_absent _ _ _ ih => exact ih (List.forall_mem_cons.1 hq).2
  | properties_rejected _ _ ih => exact ih (List.forall_mem_cons.1 hq).1
  | properties_next _ _ _ ih ihs =>
    obtain ⟨hp, hps⟩ := List.forall_mem_cons.1 hq
    exact List.forall_mem_append.2 ⟨ihs hps, ih hp⟩

end DataShape
