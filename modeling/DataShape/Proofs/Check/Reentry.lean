import DataShape.Proofs.Check.Acceptance

/-!
# Checks that need no guard

A reference leads to the references that the checker at its address asks about the
same value (`Leads`). A reference is reached again at the same place only round a cycle
of these : the references in progress for a place lead to the one that is asked next
(`Unwound`). Where there is no such cycle the guard turns nothing away
(`Settles.not_reentered`). Then the references in progress need not be known at all :
`askFreely` follows every reference without a look at them, ends nevertheless, and
gives the same answer (`Settles.answeredFreely`).
-/

namespace DataShape

/-! ## Which references lead to which -/

namespace Checker

mutual
/-- The references that are asked about the value the checker is asked about. -/
def openLookups : Checker → List Lookup
  | any cs => openLookupsAll cs
  | nullable c => openLookups c
  | reference l => [l]
  | watched _ c => openLookups c
  | _ => []

def openLookupsAll : List Checker → List Lookup
  | [] => []
  | c :: cs => openLookups c ++ openLookupsAll cs
end

end Checker

/-- The checker at the first address asks the second one about the same value. -/
def Leads (env : Environment) (a b : Address) : Prop :=
  ∃ c l, Keyed.get? a env = some c ∧ l ∈ c.openLookups ∧ b = l.address

/-- What is in progress for a place leads to these references. -/
def Unwound (env : Environment) (known : List Lookup) (ls : List Lookup) (place : Place)
    (stack : Stack) : Prop :=
  ∀ l ∈ ls, ∀ m ∈ known, (m.serial, place) ∈ stack →
    Relation.TransGen (Leads env) m.address l.address

theorem Unwound.append {env : Environment} {known ls ms : List Lookup} {place : Place}
    {stack : Stack} : Unwound env known (ls ++ ms) place stack ↔
      Unwound env known ls place stack ∧ Unwound env known ms place stack :=
  List.forall_mem_append

theorem Stack.ClearFrom.unwound {env : Environment} {known : List Lookup} {ls : List Lookup}
    {place : Place} {stack : Stack} (h : stack.ClearFrom place) :
    Unwound env known ls place stack :=
  fun _ _ _ _ hmem => absurd Place.covers_rfl (h _ hmem)

/-- What is in progress leads on through the reference that is entered. -/
theorem Unwound.enter {env : Environment} {known : List Lookup} (hknown : Coherent known)
    {l : Lookup} {c : Checker} {place : Place} {stack : Stack} (hl : l ∈ known)
    (hc : Keyed.get? l.address env = some c) (h : Unwound env known [l] place stack) :
    Unwound env known c.openLookups place ((l.serial, place) :: stack) := by
  intro k hk m hm hmem
  have hlead : Leads env l.address k.address := ⟨c, k, hc, hk, rfl⟩
  rcases List.mem_cons.1 hmem with heq | hmem
  · obtain rfl := hknown m hm l hl (congrArg Prod.fst heq)
    exact .single hlead
  · exact (h l List.mem_cons_self m hm hmem).tail hlead

/-- What is in progress leads to what the question asks about its place. -/
def Question.Unwinds (env : Environment) (known : List Lookup) (stack : Stack) : Question → Prop
  | about c place _ => stack.ClearBelow place ∧ Unwound env known c.openLookups place stack
  | oneOf cs place _ =>
    stack.ClearBelow place ∧ Unwound env known (Checker.openLookupsAll cs) place stack
  | property _ place _ => stack.ClearFrom place
  | every _ _ _ place => stack.ClearBelow place
  | properties _ _ place => stack.ClearBelow place

theorem not_reentered_making (p : Property) (l : Lookup) (place : Place) :
    Event.reentered l place ∉ p.making := by
  unfold Property.making
  split <;> simp

theorem not_reentered_failing (p : Property) (l : Lookup) (place : Place) :
    Event.reentered l place ∉ p.failing := by
  rcases p.failing_eq with h | ⟨_, _, _, h⟩ <;> simp [h, not_reentered_making]

theorem not_reentered_append {fs es : List Event} :
    (∀ l p, Event.reentered l p ∉ fs ++ es) ↔
      (∀ l p, Event.reentered l p ∉ fs) ∧ ∀ l p, Event.reentered l p ∉ es := by
  simp [forall_and]

/-- Without a cycle no reference is reached again while it is in progress for the same place. -/
theorem Settles.not_reentered {env : Environment} {known : List Lookup} (hknown : Coherent known)
    (hacyclic : ∀ a, ¬ Relation.TransGen (Leads env) a a) {q : Question} {t : Trail} {b : Bool}
    {es : List Event} (h : Settles env q t b es) (hq : q.All env (env.Covers known))
    (hstack : q.Unwinds env known t.active) (m : Lookup) (p : Place) :
    Event.reentered m p ∉ es := by
  have hasked : Inherited env (env.Covers known) := Environment.inherited_everywhere
  induction h with
  | atSight | oneOf_nil | every_nil | properties_nil | properties_missing => exact List.not_mem_nil
  | any _ ih => exact ih (fun c hc => hasked hq (.any hc)) hstack
  | nullable _ _ ih => exact ih (hasked hq .nullable) hstack
  | array _ ih => exact ih (hasked hq .array) hstack.1
  | object _ ih => exact ih (fun e he j c hc => hasked hq (.object he hc)) hstack.1
  | watched _ ih => simpa using ih (hasked hq .watched) hstack
  | scripted => simp
  | @reentered l place _ _ hmem =>
    -- The reference in progress would lead to itself.
    have hl : l ∈ known := hq.here l rfl
    exact absurd (hstack.2 l List.mem_cons_self l hl hmem) (hacyclic l.address)
  | unresolved _ _ => simp
  | resolved _ hl _ ih =>
    have hin := hstack.2.enter hknown (hq.here _ rfl) hl
    simpa using ih (hasked hq (.reference hl)) ⟨hstack.1.enter _, hin⟩
  | oneOf_accepted _ ih =>
    exact ih (hq _ List.mem_cons_self) ⟨hstack.1, (Unwound.append.1 hstack.2).1⟩
  | oneOf_next _ _ ih ihs =>
    obtain ⟨hc, hcs⟩ := List.forall_mem_cons.1 hq
    obtain ⟨huc, hucs⟩ := Unwound.append.1 hstack.2
    simpa [not_or] using ⟨ihs hcs ⟨hstack.1, hucs⟩, ih hc ⟨hstack.1, huc⟩⟩
  | @every_rejected _ i _ _ _ _ _ _ ih =>
    have hclear := Stack.ClearBelow.child hstack (.index i)
    exact ih hq ⟨hclear.clearBelow, hclear.unwound⟩
  | @every_next _ i _ _ _ _ _ _ _ _ _ ih ihs =>
    have hclear := Stack.ClearBelow.child hstack (.index i)
    simpa [not_or] using ⟨ihs hq hstack, ih hq ⟨hclear.clearBelow, hclear.unwound⟩⟩
  | yielded hp _ ih =>
    have hclear : Stack.ClearFrom _ _ := hstack
    have hc := ih (hq _ _ hp) ⟨hclear.clearBelow, hclear.unwound⟩
    simpa [not_or] using ⟨hc, not_reentered_making _ m p⟩
  | failing _ => exact not_reentered_failing _ m p
  | properties_absent _ _ _ ih => exact ih (List.forall_mem_cons.1 hq).2 hstack
  | properties_rejected _ _ ih =>
    exact ih (List.forall_mem_cons.1 hq).1 (Stack.ClearBelow.child hstack _)
  | properties_next _ _ _ ih ihs =>
    obtain ⟨hp, hps⟩ := List.forall_mem_cons.1 hq
    simpa [not_or] using ⟨ihs hps hstack, ih hp (Stack.ClearBelow.child hstack _)⟩

/-! ## Following every reference -/

namespace Checker

/-- Follows a reference without a look at those in progress. -/
def unguarded (env : Environment) (ask : Ask) : Refer := fun l place v t =>
  match Keyed.get? l.address env with
  | none => some (false, t.note (.unresolved l.address))
  | some c => ask c place v t

/-- Asks a checker with no guard, with at most `n` questions open at once. -/
def askFreely (env : Environment) : Nat → Ask
  | 0 => fun _ _ _ _ => none
  | n + 1 => step env (unguarded env (askFreely env n)) (askFreely env n)

end Checker

/-- With no guard the question is answered so, whatever is on the trail and by any bound that is
large enough. -/
def AnsweredFreely (env : Environment) (q : Question) (b : Bool) : Prop :=
  ∃ n, ∀ m, n ≤ m → ∀ t, ∃ t', q.eval env (Checker.askFreely env m) t = some (b, t')

/-- A checker is answered freely if its one step is, with the bound less one. -/
theorem answeredFreely_about {env : Environment} {c : Checker} {place : Place} {v : Value}
    {b : Bool} (h : ∃ n, ∀ m, n ≤ m → ∀ t, ∃ t',
      Checker.step env (Checker.unguarded env (Checker.askFreely env m)) (Checker.askFreely env m)
        c place v t = some (b, t')) : AnsweredFreely env (.about c place v) b := by
  obtain ⟨n, hn⟩ := h
  refine ⟨n + 1, fun m hm t => ?_⟩
  obtain ⟨m, rfl⟩ : ∃ k, m = k + 1 := ⟨m - 1, by omega⟩
  exact hn m (Nat.le_of_succ_le_succ hm) t

section Opens

variable {env : Environment} {q first rest : Question} {goOn b : Bool}

theorem AnsweredFreely.of_first (hq : Question.Opens env q first goOn rest) (hb : b ≠ goOn)
    (h : AnsweredFreely env first b) : AnsweredFreely env q b := by
  obtain ⟨n, hn⟩ := h
  refine ⟨n, fun m hm t => ?_⟩
  obtain ⟨t', ht⟩ := hn m hm t
  exact ⟨t', hq.eval_eq_some.2 (Or.inr ⟨hb, ht⟩)⟩

theorem AnsweredFreely.of_rest (hq : Question.Opens env q first goOn rest)
    (h : AnsweredFreely env first goOn) (hs : AnsweredFreely env rest b) :
    AnsweredFreely env q b := by
  obtain ⟨n, hn⟩ := h
  obtain ⟨k, hk⟩ := hs
  refine ⟨max n k, fun m hm t => ?_⟩
  obtain ⟨t', ht⟩ := hn m (le_trans (le_max_left ..) hm) t
  obtain ⟨t'', ht'⟩ := hk m (le_trans (le_max_right ..) hm) t'
  exact ⟨t'', hq.eval_eq_some.2 (Or.inl ⟨t', ht, ht'⟩)⟩

end Opens

/-- Where the guard turned nothing away, the answer is the one without it. -/
theorem Settles.answeredFreely {env : Environment} {known : List Lookup}
    (henv : env.BuiltFrom known) {q : Question} {t : Trail} {b : Bool} {es : List Event}
    (h : Settles env q t b es) (hq : q.BuiltFrom known)
    (hes : ∀ l p, Event.reentered l p ∉ es) : AnsweredFreely env q b := by
  induction h with
  | atSight h => exact answeredFreely_about ⟨0, fun _ _ t => ⟨t, step_of_atSight h⟩⟩
  | any _ ih | array _ ih | object _ ih => exact answeredFreely_about (ih hq hes)
  | @nullable c place v _ _ _ hv _ ih =>
    refine answeredFreely_about ?_
    cases v with
    | null => exact absurd rfl hv
    | _ => exact ih hq hes
  | watched _ _ => exact absurd hq.1 (List.cons_ne_nil _ _)
  | scripted => exact absurd hq.1 (List.cons_ne_nil _ _)
  | reentered _ => exact absurd List.mem_cons_self (hes _ _)
  | @unresolved l _ _ _ _ hl =>
    refine answeredFreely_about ⟨0, fun _ _ t => ⟨t.note (.unresolved l.address), ?_⟩⟩
    simp [Checker.step, Checker.unguarded, hl]
  | @resolved l place v t c b es _ hl _ ih =>
    obtain ⟨n, hn⟩ := ih (henv _ (Keyed.mem_of_get? hl)) fun m p hm =>
      hes m p (List.mem_cons_of_mem _ (List.mem_append_left _ hm))
    refine answeredFreely_about ⟨n, fun m hm t => ?_⟩
    obtain ⟨t', ht⟩ := hn m hm t
    refine ⟨t', ?_⟩
    simp only [Checker.step, Checker.unguarded, hl]
    exact ht
  | oneOf_nil | every_nil | properties_nil => exact ⟨0, fun _ _ t => ⟨t, rfl⟩⟩
  | oneOf_accepted _ ih =>
    exact .of_first Question.opens_oneOf (by decide) (ih (Question.builtFrom_oneOf_cons.1 hq).1 hes)
  | oneOf_next _ _ ih ihs =>
    obtain ⟨hqc, hqcs⟩ := Question.builtFrom_oneOf_cons.1 hq
    obtain ⟨hrest, hfirst⟩ := not_reentered_append.1 hes
    exact .of_rest Question.opens_oneOf (ih hqc hfirst) (ihs hqcs hrest)
  | every_rejected _ ih => exact .of_first Question.opens_every (by decide) (ih hq hes)
  | every_next _ _ ih ihs =>
    obtain ⟨hrest, hfirst⟩ := not_reentered_append.1 hes
    exact .of_rest Question.opens_every (ih hq hfirst) (ihs hq hrest)
  | @yielded p c place v _ _ _ hp _ ih =>
    obtain ⟨n, hn⟩ := ih (builtFrom_of_yields henv hp hq) (not_reentered_append.1 hes).1
    rw [hq.yields_eq] at hp
    refine ⟨n, fun m hm t => ?_⟩
    simpa [Question.eval, askProperty_eq, hq.yields_eq, hp] using hn m hm (t.after p.making)
  | @failing p _ _ _ hp =>
    rw [hq.yields_eq] at hp
    refine ⟨0, fun m _ t => ⟨t.after p.failing, ?_⟩⟩
    simp [Question.eval, askProperty_eq, hq.yields_eq, hp]
  | properties_missing hk ho =>
    exact ⟨0, fun m _ t => ⟨t, by simp [Question.eval_properties_none hk, ho]⟩⟩
  | properties_absent hk ho _ ih =>
    obtain ⟨n, hn⟩ := ih hq.tail hes
    refine ⟨n, fun m hm t => ?_⟩
    simpa [Question.eval_properties_none hk, ho] using hn m hm t
  | properties_rejected hk _ ih =>
    have hfirst := ih (Question.builtFrom_properties_cons.1 hq).1 hes
    exact .of_first (Question.opens_properties hk) (by decide) hfirst
  | properties_next hk _ _ ih ihs =>
    obtain ⟨hqp, hqps⟩ := Question.builtFrom_properties_cons.1 hq
    obtain ⟨hrest, hfirst⟩ := not_reentered_append.1 hes
    exact .of_rest (Question.opens_properties hk) (ih hqp hfirst) (ihs hqps hrest)

/-- Where no reference leads back to itself, a check follows no reference that is in progress for
the same place, and gives the answer it gives without the guard. -/
theorem checkAt_eq_askFreely {env : Environment} {known : List Lookup} (hknown : Coherent known)
    (henv : env.BuiltFrom known) (hacyclic : ∀ a, ¬ Relation.TransGen (Leads env) a a)
    {c : Checker} (hc : c.BuiltFrom known) (place : Place) (v : Value) {t : Trail}
    (ht : Stack.ClearFrom t.active place) :
    ∃ b es, env.checkAt c place v t = (b, t.after es) ∧ (∀ l p, Event.reentered l p ∉ es) ∧
      AnsweredFreely env (.about c place v) b := by
  obtain ⟨es, htrail, hs⟩ := env.settled_checkAt c place v t
  have hes := hs.not_reentered hknown hacyclic (hc.covers henv) ⟨ht.clearBelow, ht.unwound⟩
  exact ⟨_, es, Prod.ext rfl htrail, hes, hs.answeredFreely henv hc hes⟩

end DataShape
