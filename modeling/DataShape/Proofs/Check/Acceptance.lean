import DataShape.Proofs.Check.Termination
import Mathlib.Data.Nat.Find
import Mathlib.Order.FixedPoints

/-!
# What a check accepts

`Rule` says when a checker accepts a value in terms of what other checkers accept.
`Accepts` is the least relation closed under it. It knows no order of questions and no
references in progress : a reference accepts what the checker at its address accepts,
and a cycle of references that never goes into the value accepts nothing.

A check gives exactly this relation (`checkAt_iff_accepts`), although the guard answers
one question differently at different moments. It only ever rejects too much for a
reference in progress, and a reference that accepts a value does so without asking
itself about it again : take the least number of rule applications that suffice
(`AcceptsWithin`). A reference in progress needs more of them than the question that is
open (`Hopeless`), so none that the guard turns away was needed.
-/

namespace DataShape

/-! ## The rules of acceptance -/

/-- A declared property is there and accepted by the checker that it yields, or it is not there and
may be missing. -/
def FieldRule (yielded : Option Checker) (R : Checker → Value → Prop)
    (fields : List (String × Value)) (k : DeclaredKey) : Prop :=
  (∃ v c, Keyed.get? k.name fields = some v ∧ yielded = some c ∧ R c v) ∨
    Keyed.get? k.name fields = none ∧ k.isOptional = true

/-- A checker accepts a value by one rule, if `R` is what is accepted already. No rule is for
instruments, which answer and yield by the journal. -/
def Rule (env : Environment) (R : Checker → Value → Prop) : Checker → Value → Prop
  | .primitive p, v => p.accepts v = true
  | .literal expected, v => v = .string expected
  | .any cs, v => ∃ c ∈ cs, R c v
  | .nullable c, v => v = .null ∨ R c v
  | .array c, v => ∃ items, v = .array items ∧ ∀ w ∈ items, R c w
  | .object ps, v =>
    ∃ fields, v = .object fields ∧ ∀ e ∈ ps, FieldRule (e.2.fixed? env) R fields e.1
  | .reference l, v => ∃ c, Keyed.get? l.address env = some c ∧ R c v
  | .watched _ _, _ => False
  | .scripted _ _, _ => False

theorem FieldRule.mono {yielded : Option Checker} {R S : Checker → Value → Prop}
    (hRS : ∀ c v, R c v → S c v) {fields : List (String × Value)} {k : DeclaredKey}
    (h : FieldRule yielded R fields k) : FieldRule yielded S fields k := by
  rcases h with ⟨v, c, hv, hc, h⟩ | h
  · exact Or.inl ⟨v, c, hv, hc, hRS c v h⟩
  · exact Or.inr h

theorem Rule.mono {env : Environment} {R S : Checker → Value → Prop} (hRS : ∀ c v, R c v → S c v)
    {c : Checker} {v : Value} (h : Rule env R c v) : Rule env S c v := by
  cases c with
  | primitive p | literal expected => exact h
  | any cs =>
    obtain ⟨c, hc, h⟩ := h
    exact ⟨c, hc, hRS c v h⟩
  | nullable c => exact h.imp_right (hRS c v)
  | array c =>
    obtain ⟨items, rfl, h⟩ := h
    exact ⟨items, rfl, fun w hw => hRS c w (h w hw)⟩
  | object ps =>
    obtain ⟨fields, rfl, h⟩ := h
    exact ⟨fields, rfl, fun e he => (h e he).mono hRS⟩
  | reference l =>
    obtain ⟨c, hc, h⟩ := h
    exact ⟨c, hc, hRS c v h⟩
  | watched probe c | scripted probe answer => exact h

/-- The rules as a monotone map of relations. -/
def rules (env : Environment) : (Checker → Value → Prop) →o (Checker → Value → Prop) :=
  ⟨Rule env, fun _ _ hRS _ _ h => h.mono hRS⟩

/-- What is accepted : the least relation that is closed under the rules. -/
def Accepts (env : Environment) : Checker → Value → Prop :=
  OrderHom.lfp (rules env)

theorem accepts_iff {env : Environment} {c : Checker} {v : Value} :
    Accepts env c v ↔ Rule env (Accepts env) c v :=
  iff_of_eq (congrFun (congrFun (OrderHom.map_lfp (rules env)).symm c) v)

/-- Whatever is closed under the rules contains what is accepted. -/
theorem Accepts.of_closed {env : Environment} {R : Checker → Value → Prop}
    (hR : ∀ c v, Rule env R c v → R c v) {c : Checker} {v : Value} (h : Accepts env c v) : R c v :=
  OrderHom.lfp_le (rules env) hR c v h

/-! ## Counting applications of the rules -/

/-- What is accepted by a derivation of at most this height. -/
def AcceptsWithin (env : Environment) : Nat → Checker → Value → Prop
  | 0 => fun _ _ => False
  | n + 1 => Rule env (AcceptsWithin env n)

theorem AcceptsWithin.mono {env : Environment} :
    ∀ {m n : Nat}, m ≤ n → ∀ {c : Checker} {v : Value},
      AcceptsWithin env m c v → AcceptsWithin env n c v
  | 0, _, _, _, _, h => h.elim
  | _ + 1, _ + 1, hmn, _, _, h =>
    Rule.mono (fun _ _ => AcceptsWithin.mono (Nat.le_of_succ_le_succ hmn)) h

theorem AcceptsWithin.accepts {env : Environment} :
    ∀ {n : Nat} {c : Checker} {v : Value}, AcceptsWithin env n c v → Accepts env c v
  | 0, _, _, h => h.elim
  | _ + 1, _, _, h => accepts_iff.2 (Rule.mono (fun _ _ => AcceptsWithin.accepts) h)

/-- A derivation ends in a rule, and what the rule needs has lower derivations. -/
theorem AcceptsWithin.exists_rule {env : Environment} :
    ∀ {n : Nat} {c : Checker} {v : Value}, AcceptsWithin env n c v →
      ∃ m, m < n ∧ Rule env (AcceptsWithin env m) c v
  | 0, _, _, h => h.elim
  | n + 1, _, _, h => ⟨n, Nat.lt_succ_self n, h⟩

/-- Finitely many things that hold from some height on hold together from some height on. -/
theorem exists_height {α : Type} {P : Nat → α → Prop} (hP : ∀ m n a, m ≤ n → P m a → P n a) :
    ∀ {as : List α}, (∀ a ∈ as, ∃ n, P n a) → ∃ n, ∀ a ∈ as, P n a
  | [], _ => ⟨0, by simp⟩
  | a :: as, h => by
    obtain ⟨m, hm⟩ := h a List.mem_cons_self
    obtain ⟨n, hn⟩ := exists_height (P := P) hP fun b hb => h b (List.mem_cons_of_mem _ hb)
    refine ⟨max m n, List.forall_mem_cons.2 ⟨hP _ _ _ (le_max_left ..) hm, fun b hb => ?_⟩⟩
    exact hP _ _ _ (le_max_right ..) (hn b hb)

/-- What is accepted has a derivation of finite height : arrays have finitely many items and
objects finitely many declared properties. -/
theorem Accepts.exists_within {env : Environment} {c : Checker} {v : Value}
    (h : Accepts env c v) : ∃ n, AcceptsWithin env n c v := by
  refine h.of_closed (R := fun c v => ∃ n, AcceptsWithin env n c v) fun c v h => ?_
  cases c with
  | primitive p | literal expected => exact ⟨1, h⟩
  | any cs =>
    obtain ⟨c, hc, n, h⟩ := h
    exact ⟨n + 1, c, hc, h⟩
  | nullable c =>
    rcases h with h | ⟨n, h⟩
    · exact ⟨1, Or.inl h⟩
    · exact ⟨n + 1, Or.inr h⟩
  | array c =>
    obtain ⟨items, rfl, h⟩ := h
    obtain ⟨n, hn⟩ := exists_height (P := fun n w => AcceptsWithin env n c w)
      (fun _ _ _ hmn => AcceptsWithin.mono hmn) h
    exact ⟨n + 1, items, rfl, hn⟩
  | object ps =>
    obtain ⟨fields, rfl, h⟩ := h
    have hfield : ∀ e ∈ ps, ∃ n, FieldRule (e.2.fixed? env) (AcceptsWithin env n) fields e.1 := by
      intro e he
      rcases h e he with ⟨v, c, hv, hc, n, h⟩ | h
      · exact ⟨n, Or.inl ⟨v, c, hv, hc, h⟩⟩
      · exact ⟨0, Or.inr h⟩
    obtain ⟨n, hn⟩ := exists_height
      (P := fun n (e : DeclaredKey × Property) =>
        FieldRule (e.2.fixed? env) (AcceptsWithin env n) fields e.1)
      (fun _ _ _ hmn h => h.mono fun _ _ => AcceptsWithin.mono hmn) hfield
    exact ⟨n + 1, fields, rfl, hn⟩
  | reference l =>
    obtain ⟨c, hc, n, h⟩ := h
    exact ⟨n + 1, c, hc, h⟩
  | watched probe c | scripted probe answer => exact h.elim

/-! ## Questions -/

namespace Question

/-- The instruments in the checkers a question is about. -/
def probes : Question → List Probe
  | about c _ _ => c.probes
  | oneOf cs _ _ => Checker.probesAll cs
  | every c _ _ _ => c.probes
  | property p _ _ => Checker.probesProperty p
  | properties ps _ _ => Checker.probesProperties ps

/-- No instruments and no unknown references are asked. -/
def BuiltFrom (known : List Lookup) (q : Question) : Prop :=
  q.probes = [] ∧ q.lookups ⊆ known

/-- The answer is yes, if `R` is what is accepted. -/
def Holds (env : Environment) (R : Checker → Value → Prop) : Question → Prop
  | about c _ v => R c v
  | oneOf cs _ v => ∃ c ∈ cs, R c v
  | every c _ vs _ => ∀ v ∈ vs, R c v
  | property p _ v => ∃ c, p.fixed? env = some c ∧ R c v
  | properties ps fields _ => ∀ e ∈ ps, FieldRule (e.2.fixed? env) R fields e.1

theorem builtFrom_oneOf_cons {known : List Lookup} {c : Checker} {cs : List Checker}
    {place : Place} {v : Value} : (oneOf (c :: cs) place v).BuiltFrom known ↔
      (about c place v).BuiltFrom known ∧ (oneOf cs place v).BuiltFrom known := by
  simp only [BuiltFrom, probes, lookups, Checker.probesAll, Checker.lookupsAll,
    List.append_eq_nil_iff, List.append_subset]
  tauto

theorem builtFrom_properties_cons {known : List Lookup} {k : DeclaredKey} {p : Property}
    {ps : List (DeclaredKey × Property)} {fields : List (String × Value)} {place place' : Place}
    {v : Value} : (properties ((k, p) :: ps) fields place).BuiltFrom known ↔
      (property p place' v).BuiltFrom known ∧ (properties ps fields place).BuiltFrom known := by
  simp only [BuiltFrom, probes, lookups, Checker.probesProperties, Checker.lookupsProperties,
    List.append_eq_nil_iff, List.append_subset]
  tauto

theorem BuiltFrom.tail {known : List Lookup} {k : DeclaredKey} {p : Property}
    {ps : List (DeclaredKey × Property)} {fields : List (String × Value)} {place : Place}
    (h : (properties ((k, p) :: ps) fields place).BuiltFrom known) :
    (properties ps fields place).BuiltFrom known := by
  have hboth : (property p place .null).BuiltFrom known ∧
      (properties ps fields place).BuiltFrom known := builtFrom_properties_cons.1 h
  exact hboth.2

end Question

/-- All checkers that can be found are without instruments and their references known. -/
def Environment.BuiltFrom (env : Environment) (known : List Lookup) : Prop :=
  ∀ e ∈ env, e.2.BuiltFrom known

/-- A property without instruments yields the same each time. -/
theorem Question.BuiltFrom.yields_eq {known : List Lookup} {p : Property} {place : Place}
    {v : Value} (h : (Question.property p place v).BuiltFrom known) (env : Environment)
    (j : List Event) :
    p.yields env j = p.fixed? env := by
  cases p with
  | scripted probe yield => exact absurd h.1 (List.cons_ne_nil _ _)
  | _ => rfl

theorem builtFrom_of_yields {env : Environment} {known : List Lookup} (henv : env.BuiltFrom known)
    {p : Property} {c : Checker} {place : Place} {v : Value} {j : List Event}
    (hp : p.yields env j = some c) (h : (Question.property p place v).BuiltFrom known) :
    (Question.about c place v).BuiltFrom known := by
  rw [h.yields_eq] at hp
  cases p with
  | direct d | produced _ d =>
    obtain rfl := Option.some.inj hp
    exact h
  | barren _ | scripted _ _ => exact nomatch hp
  | found _ a => exact henv _ (Keyed.mem_of_get? hp)

theorem builtFrom_of_mem {known : List Lookup} {c : Checker} :
    ∀ {cs : List Checker}, c ∈ cs → (Checker.any cs).BuiltFrom known → c.BuiltFrom known
  | d :: ds, hmem, h => by
    have hboth : (Question.about d .root .null).BuiltFrom known ∧
        (Question.oneOf ds .root .null).BuiltFrom known := Question.builtFrom_oneOf_cons.1 h
    rcases List.mem_cons.1 hmem with rfl | hmem
    · exact hboth.1
    · exact builtFrom_of_mem hmem hboth.2

theorem builtFrom_of_mem_properties {known : List Lookup} {k : DeclaredKey} {p : Property} :
    ∀ {ps : List (DeclaredKey × Property)}, (k, p) ∈ ps → (Checker.object ps).BuiltFrom known →
      (Question.property p .root .null).BuiltFrom known
  | (l, q) :: ps, hmem, h => by
    have hboth : (Question.property q .root .null).BuiltFrom known ∧
        (Question.properties ps [] .root).BuiltFrom known :=
      Question.builtFrom_properties_cons.1 h
    rcases List.mem_cons.1 hmem with heq | hmem
    · obtain ⟨rfl, rfl⟩ := Prod.mk.inj heq
      exact hboth.1
    · exact builtFrom_of_mem_properties hmem hboth.2

/-- Without instruments there are none among the checkers that are asked. -/
theorem inherited_builtFrom {env : Environment} {known : List Lookup} (henv : env.BuiltFrom known) :
    Inherited env fun c => c.BuiltFrom known := by
  intro c d hc hask
  cases hask with
  | any hmem => exact builtFrom_of_mem hmem hc
  | nullable | array => exact hc
  | object hmem hp => exact builtFrom_of_yields henv hp (builtFrom_of_mem_properties hmem hc)
  | reference hd => exact henv _ (Keyed.mem_of_get? hd)
  | watched => exact absurd hc.1 (List.cons_ne_nil _ _)

theorem Checker.BuiltFrom.covers {env : Environment} {known : List Lookup} {c : Checker}
    (hc : c.BuiltFrom known) (henv : env.BuiltFrom known) : env.Covers known c := by
  refine (Environment.everywhere_of_inherited (inherited_builtFrom henv) hc).imp fun d hd l hl => ?_
  subst hl
  exact hd.2 List.mem_cons_self

/-- A field that is there is accepted if the property question about it is answered with yes. -/
theorem fieldRule_some {yielded : Option Checker} {R : Checker → Value → Prop}
    {fields : List (String × Value)} {k : DeclaredKey} {v : Value}
    (hk : Keyed.get? k.name fields = some v) :
    FieldRule yielded R fields k ↔ ∃ c, yielded = some c ∧ R c v := by
  simp [FieldRule, hk]

theorem fieldRule_none {yielded : Option Checker} {R : Checker → Value → Prop}
    {fields : List (String × Value)} {k : DeclaredKey} (hk : Keyed.get? k.name fields = none) :
    FieldRule yielded R fields k ↔ k.isOptional = true := by
  simp [FieldRule, hk]

/-- What a checker answers at sight is what the rules say, whatever else is accepted. -/
theorem rule_iff_of_atSight {env : Environment} {R : Checker → Value → Prop} {c : Checker}
    {v : Value} {b : Bool} (h : c.atSight v = some b) : Rule env R c v ↔ b = true := by
  cases c with
  | primitive p =>
    obtain rfl := Option.some.inj h
    exact Iff.rfl
  | literal expected =>
    cases v with
    | string s =>
      obtain rfl := Option.some.inj h
      simp [Rule]
    | _ =>
      obtain rfl := Option.some.inj h
      simp [Rule]
  | nullable c =>
    cases v with
    | null =>
      obtain rfl := Option.some.inj h
      simp [Rule]
    | _ => exact nomatch h
  | array c =>
    cases v with
    | array items => exact nomatch h
    | _ =>
      obtain rfl := Option.some.inj h
      simp [Rule]
  | object ps =>
    cases v with
    | object fields => exact nomatch h
    | _ =>
      obtain rfl := Option.some.inj h
      simp [Rule]
  | any cs | reference l | watched probe c | scripted probe answer => exact nomatch h

/-! ## Nothing is accepted without a reason -/

/-- A question that is answered with yes holds. -/
theorem Settles.holds {env : Environment} {known : List Lookup} (henv : env.BuiltFrom known)
    {q : Question} {t : Trail} {b : Bool} {es : List Event} (h : Settles env q t b es)
    (hq : q.BuiltFrom known) (hb : b = true) : q.Holds env (Accepts env) := by
  induction h with
  | atSight h => exact accepts_iff.2 ((rule_iff_of_atSight h).2 hb)
  | any _ ih => exact accepts_iff.2 (ih hq hb)
  | nullable _ _ ih => exact accepts_iff.2 (Or.inr (ih hq hb))
  | array _ ih => exact accepts_iff.2 ⟨_, rfl, ih hq hb⟩
  | object _ ih => exact accepts_iff.2 ⟨_, rfl, ih hq hb⟩
  | watched _ _ => exact absurd hq.1 (List.cons_ne_nil _ _)
  | scripted => exact absurd hq.1 (List.cons_ne_nil _ _)
  | reentered _ | unresolved _ _ | oneOf_nil | every_rejected _ _ | failing _
  | properties_missing _ _ | properties_rejected _ _ _ => exact nomatch hb
  | resolved _ hl _ ih =>
    exact accepts_iff.2 ⟨_, hl, ih (henv _ (Keyed.mem_of_get? hl)) hb⟩
  | oneOf_accepted _ ih =>
    exact ⟨_, List.mem_cons_self, ih (Question.builtFrom_oneOf_cons.1 hq).1 rfl⟩
  | oneOf_next _ _ _ ih =>
    obtain ⟨c, hc, h⟩ := ih (Question.builtFrom_oneOf_cons.1 hq).2 hb
    exact ⟨c, List.mem_cons_of_mem _ hc, h⟩
  | every_nil => exact fun v hv => nomatch hv
  | every_next _ _ ih ihs => exact List.forall_mem_cons.2 ⟨ih hq rfl, ihs hq hb⟩
  | yielded hp _ ih =>
    exact ⟨_, (hq.yields_eq env _).symm.trans hp, ih (builtFrom_of_yields henv hp hq) hb⟩
  | properties_nil => exact fun e he => nomatch he
  | properties_absent hk ho _ ih =>
    exact List.forall_mem_cons.2 ⟨(fieldRule_none hk).2 ho, ih hq.tail hb⟩
  | properties_next hk _ _ ih ihs =>
    obtain ⟨hp, hps⟩ := Question.builtFrom_properties_cons.1 hq
    exact List.forall_mem_cons.2 ⟨(fieldRule_some hk).2 (ih hp rfl), ihs hps hb⟩

/-! ## Nothing is rejected without a reason

The guard turns a question away if its reference is in progress for the same place. The stack is
arranged by places : while a question about a place is open, nothing is in progress about the
places inside it. -/

/-- The place is the other one or inside it. -/
def Place.Covers (p q : Place) : Prop :=
  p.steps <:+ q.steps

theorem Place.covers_rfl {p : Place} : p.Covers p :=
  List.suffix_rfl

theorem Place.Covers.of_child {p q : Place} {s : Step} (h : (p.child s).Covers q) : p.Covers q :=
  (List.suffix_cons s p.steps).trans h

theorem Place.not_child_covers (p : Place) (s : Step) : ¬ (p.child s).Covers p := by
  intro h
  have hlength : (s :: p.steps).length ≤ p.steps.length := h.length_le
  rw [List.length_cons] at hlength
  omega

namespace Stack

/-- Nothing is in progress about the place or inside it. -/
def ClearFrom (stack : Stack) (p : Place) : Prop :=
  ∀ e ∈ stack, ¬ p.Covers e.2

/-- Nothing is in progress inside the place. -/
def ClearBelow (stack : Stack) (p : Place) : Prop :=
  ∀ e ∈ stack, p.Covers e.2 → e.2 = p

theorem ClearFrom.clearBelow {stack : Stack} {p : Place} (h : stack.ClearFrom p) :
    stack.ClearBelow p :=
  fun e he hp => absurd hp (h e he)

theorem ClearBelow.child {stack : Stack} {p : Place} (h : stack.ClearBelow p) (s : Step) :
    stack.ClearFrom (p.child s) := by
  intro e he hcovers
  have hplace := h e he hcovers.of_child
  exact p.not_child_covers s (hplace ▸ hcovers)

theorem ClearBelow.enter {stack : Stack} {p : Place} (h : stack.ClearBelow p) (n : Nat) :
    ClearBelow ((n, p) :: stack) p :=
  List.forall_mem_cons.2 ⟨fun _ => rfl, h⟩

end Stack

/-- The serial number tells the known references apart. -/
def Coherent (known : List Lookup) : Prop :=
  ∀ l ∈ known, ∀ m ∈ known, l.serial = m.serial → l = m

/-- No reference in progress for the place accepts the value by a derivation of this height. -/
def Hopeless (env : Environment) (known : List Lookup) (n : Nat) (place : Place) (v : Value)
    (stack : Stack) : Prop :=
  ∀ l ∈ known, (l.serial, place) ∈ stack → ¬ AcceptsWithin env n (.reference l) v

theorem Hopeless.anti {env : Environment} {known : List Lookup} {m n : Nat} {place : Place}
    {v : Value} {stack : Stack} (hmn : m ≤ n) (h : Hopeless env known n place v stack) :
    Hopeless env known m place v stack :=
  fun l hl hmem hw => h l hl hmem (hw.mono hmn)

theorem Stack.ClearFrom.hopeless {env : Environment} {known : List Lookup} {n : Nat}
    {place : Place} {v : Value} {stack : Stack} (h : stack.ClearFrom place) :
    Hopeless env known n place v stack :=
  fun _ _ hmem _ => h _ hmem Place.covers_rfl

/-- A reference that accepts within some height keeps the stack hopeless for what it leads to, by
a shortest derivation : that of the checker it leads to is shorter still. -/
theorem Hopeless.enter {env : Environment} {known : List Lookup} (hknown : Coherent known)
    {n : Nat} {l : Lookup} {place : Place} {v : Value} {stack : Stack} (hl : l ∈ known)
    (h : Hopeless env known n place v stack) (hw : AcceptsWithin env n (.reference l) v) :
    ∃ m, Rule env (AcceptsWithin env m) (.reference l) v ∧
      Hopeless env known m place v ((l.serial, place) :: stack) := by
  classical
  have hex : ∃ m, AcceptsWithin env m (.reference l) v := ⟨n, hw⟩
  have hle : Nat.find hex ≤ n := Nat.find_le hw
  obtain ⟨m, hm, hrule⟩ := (Nat.find_spec hex).exists_rule
  refine ⟨m, hrule, fun k hk hmem hkw => ?_⟩
  rcases List.mem_cons.1 hmem with heq | hmem
  · obtain rfl := hknown k hk l hl (congrArg Prod.fst heq)
    exact Nat.find_min hex hm hkw
  · exact h k hk hmem (hkw.mono (Nat.le_trans (Nat.le_of_lt hm) hle))

/-- The stack does not stand in the way of a derivation of this height. -/
def Question.Fits (env : Environment) (known : List Lookup) (n : Nat) (stack : Stack) :
    Question → Prop
  | about _ place v => stack.ClearBelow place ∧ Hopeless env known n place v stack
  | oneOf _ place v => stack.ClearBelow place ∧ Hopeless env known n place v stack
  | property _ place v => stack.ClearBelow place ∧ Hopeless env known n place v stack
  | every _ _ _ place => stack.ClearBelow place
  | properties _ _ place => stack.ClearBelow place

/-- A question that holds is answered with yes, if the stack does not stand in the way. -/
theorem Settles.complete {env : Environment} {known : List Lookup} (hknown : Coherent known)
    (henv : env.BuiltFrom known) {q : Question} {t : Trail} {b : Bool} {es : List Event}
    (h : Settles env q t b es) {n : Nat} (hq : q.BuiltFrom known)
    (hfit : q.Fits env known n t.active) (hw : q.Holds env (AcceptsWithin env n)) : b = true := by
  -- For every height, since a reference goes on with the height of its shortest derivation.
  induction h generalizing n with
  | atSight h =>
    obtain ⟨m, -, hw⟩ := hw.exists_rule
    exact (rule_iff_of_atSight h).1 hw
  | any _ ih =>
    obtain ⟨m, hm, hw⟩ := hw.exists_rule
    exact ih hq ⟨hfit.1, hfit.2.anti (Nat.le_of_lt hm)⟩ hw
  | nullable hv _ ih =>
    obtain ⟨m, hm, hw⟩ := hw.exists_rule
    exact ih hq ⟨hfit.1, hfit.2.anti (Nat.le_of_lt hm)⟩ (hw.resolve_left hv)
  | array _ ih =>
    obtain ⟨m, -, items, heq, hw⟩ := hw.exists_rule
    obtain rfl := Value.array.inj heq
    exact ih hq hfit.1 hw
  | object _ ih =>
    obtain ⟨m, -, fields, heq, hw⟩ := hw.exists_rule
    obtain rfl := Value.object.inj heq
    exact ih hq hfit.1 hw
  | watched _ _ => exact absurd hq.1 (List.cons_ne_nil _ _)
  | scripted => exact absurd hq.1 (List.cons_ne_nil _ _)
  | reentered hmem => exact absurd hw (hfit.2 _ (hq.2 List.mem_cons_self) hmem)
  | unresolved _ hl =>
    obtain ⟨m, -, c, hc, -⟩ := hw.exists_rule
    exact nomatch hl.symm.trans hc
  | resolved _ hl _ ih =>
    obtain ⟨m, ⟨c, hc, hw⟩, hopeless⟩ := hfit.2.enter hknown (hq.2 List.mem_cons_self) hw
    obtain rfl := Option.some.inj (hl.symm.trans hc)
    exact ih (henv _ (Keyed.mem_of_get? hl)) ⟨hfit.1.enter _, hopeless⟩ hw
  | oneOf_nil =>
    obtain ⟨c, hc, -⟩ := hw
    exact nomatch hc
  | oneOf_accepted _ _ | every_nil | properties_nil => rfl
  | oneOf_next _ _ ih ihs =>
    obtain ⟨hqc, hqcs⟩ := Question.builtFrom_oneOf_cons.1 hq
    obtain ⟨d, hd, hw⟩ := hw
    rcases List.mem_cons.1 hd with rfl | hd
    · exact nomatch ih hqc hfit hw
    · exact ihs hqcs hfit ⟨d, hd, hw⟩
  | @every_rejected _ i _ _ _ _ _ _ ih =>
    -- Nothing is in progress inside the array yet, so the item may have any derivation.
    have hclear := Stack.ClearBelow.child hfit (.index i)
    exact ih hq ⟨hclear.clearBelow, hclear.hopeless⟩ (hw _ List.mem_cons_self)
  | every_next _ _ _ ihs => exact ihs hq hfit fun w hw' => hw w (List.mem_cons_of_mem _ hw')
  | yielded hp _ ih =>
    obtain ⟨c, hc, hw⟩ := hw
    obtain rfl := Option.some.inj (hp.symm.trans ((hq.yields_eq env _).trans hc))
    exact ih (builtFrom_of_yields henv hp hq) hfit hw
  | failing hp =>
    obtain ⟨c, hc, -⟩ := hw
    exact nomatch hp.symm.trans ((hq.yields_eq env _).trans hc)
  | properties_missing hk ho =>
    have hfield := hw _ List.mem_cons_self
    rw [fieldRule_none hk, ho] at hfield
    exact nomatch hfield
  | properties_absent _ _ _ ih =>
    exact ih hq.tail hfit fun e he => hw e (List.mem_cons_of_mem _ he)
  | @properties_rejected k _ _ _ _ _ _ _ hk _ ih =>
    obtain ⟨hp, -⟩ := Question.builtFrom_properties_cons.1 hq
    have hclear := Stack.ClearBelow.child hfit (.key k.name)
    have hfield := hw _ List.mem_cons_self
    rw [fieldRule_some hk] at hfield
    exact ih hp ⟨hclear.clearBelow, hclear.hopeless⟩ hfield
  | properties_next _ _ _ _ ihs =>
    exact ihs hq.tail hfit fun e he => hw e (List.mem_cons_of_mem _ he)

/-- A check answers yes exactly if the checker accepts the value, whatever is in progress about
other places and places around it. -/
theorem checkAt_iff_accepts {env : Environment} {known : List Lookup} (hknown : Coherent known)
    (henv : env.BuiltFrom known) {c : Checker} (hc : c.BuiltFrom known) (place : Place) (v : Value)
    {t : Trail} (ht : Stack.ClearFrom t.active place) :
    (env.checkAt c place v t).1 = true ↔ Accepts env c v := by
  obtain ⟨es, -, hs⟩ := env.settled_checkAt c place v t
  refine ⟨hs.holds henv hc, fun h => ?_⟩
  obtain ⟨n, hn⟩ := h.exists_within
  exact hs.complete hknown henv hc ⟨ht.clearBelow, ht.hopeless⟩ hn

/-- The same for a check that starts with nothing in progress. -/
theorem check_iff_accepts {env : Environment} {known : List Lookup} (hknown : Coherent known)
    (henv : env.BuiltFrom known) {c : Checker} (hc : c.BuiltFrom known) (v : Value)
    (j : List Event) : (env.check c v ⟨[], j⟩).1 = true ↔ Accepts env c v :=
  checkAt_iff_accepts hknown henv hc .root v fun _ he => nomatch he

end DataShape
