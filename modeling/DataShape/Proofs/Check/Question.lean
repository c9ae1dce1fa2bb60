import DataShape.Checker.Check
import Mathlib.Logic.Relation

/-!
# Questions and their answers

A check is a recursion with bounds, through helpers that walk lists. `Settles` is the relation
behind it : what a question leads to, with no bound. There is one rule for each thing that can
happen, and each rule names the events it adds to the journal. Answers are found by the rules alone
(`faithful_askDown`), so what holds of every check is proved by one induction on `Settles`.

A question leaves the references in progress as they were and adds to the journal. The relation has
this built in : it gives the events only, and `Trail.after` puts them on the trail.

What a checker may ask (`Asks`) does not depend on the moment, so a producer that yields by the
journal counts with all it may ever yield. A property of checkers that is passed on to what they may
ask holds for all that a question is about (`Question.All`).
-/

namespace DataShape

/-- What may be asked during a check. The place is that of the value, or of the array or object
whose parts are asked about. -/
inductive Question where
  | about (c : Checker) (place : Place) (v : Value)
  /-- Does one of the checkers accept the value ? -/
  | oneOf (cs : List Checker) (place : Place) (v : Value)
  /-- Does the checker accept the items, of which the first has this index ? -/
  | every (c : Checker) (i : Nat) (vs : List Value) (place : Place)
  | property (p : Property) (place : Place) (v : Value)
  | properties (ps : List (DeclaredKey × Property)) (fields : List (String × Value))
      (place : Place)

/-- The trail once these events happened, with the references in progress as before. -/
def Trail.after (t : Trail) (es : List Event) : Trail :=
  ⟨t.active, es ++ t.journal⟩

@[simp] theorem Trail.after_nil (t : Trail) : t.after [] = t :=
  rfl

@[simp] theorem Trail.active_after (t : Trail) (es : List Event) : (t.after es).active = t.active :=
  rfl

@[simp] theorem Trail.journal_after (t : Trail) (es : List Event) :
    (t.after es).journal = es ++ t.journal :=
  rfl

@[simp] theorem Trail.after_after (t : Trail) (es fs : List Event) :
    (t.after es).after fs = t.after (fs ++ es) := by
  simp [Trail.after]

@[simp] theorem Trail.active_enter (t : Trail) (l : Lookup) (place : Place) :
    (t.enter l place).active = (l.serial, place) :: t.active :=
  rfl

namespace Property

/-- The checker that a property is asked with each time. -/
def fixed? (env : Environment) : Property → Option Checker
  | direct c => some c
  | produced _ c => some c
  | barren _ => none
  | found _ a => Keyed.get? a env
  | scripted _ _ => none

/-- The checker that a property is asked with after these events. -/
def yields (env : Environment) (j : List Event) : Property → Option Checker
  | scripted _ yield => yield j
  | p => p.fixed? env

/-- What is yielded does not depend on the journal. -/
def isFixed : Property → Bool
  | scripted _ _ => false
  | _ => true

theorem yields_of_isFixed {p : Property} (h : p.isFixed = true) (env : Environment)
    (j : List Event) : p.yields env j = p.fixed? env := by
  cases p with
  | scripted probe yield => exact nomatch h
  | _ => rfl

/-- The events of running a producer. -/
def making : Property → List Event
  | produced (some s) _ | barren (some s) | found (some s) _ => [.made s]
  | scripted probe _ => [.made probe.label]
  | _ => []

/-- The events of a property that has no checker to be asked. -/
def failing : Property → List Event
  | found label a => .unresolved a :: (found label a).making
  | p => p.making

theorem failing_eq (p : Property) :
    p.failing = p.making ∨
      ∃ label a, p = .found label a ∧ p.failing = .unresolved a :: p.making := by
  cases p with
  | found label a => exact Or.inr ⟨label, a, rfl, rfl⟩
  | _ => exact Or.inl rfl

end Property

namespace Checker

/-- The answer that a checker gives without a further question. -/
def atSight : Checker → Value → Option Bool
  | primitive p, v => some (p.accepts v)
  | literal expected, .string s => some (s == expected)
  | literal _, _ => some false
  | nullable _, .null => some true
  | array _, .array _ => none
  | array _, _ => some false
  | object _, .object _ => none
  | object _, _ => some false
  | _, _ => none

end Checker

/-- The answer to a question on a trail and the events meanwhile, the latest first. -/
inductive Settles (env : Environment) : Question → Trail → Bool → List Event → Prop where
  | atSight {c place v t b} (h : c.atSight v = some b) : Settles env (.about c place v) t b []
  | any {cs place v t b es} (h : Settles env (.oneOf cs place v) t b es) :
      Settles env (.about (.any cs) place v) t b es
  | nullable {c place v t b es} (hv : v ≠ .null) (h : Settles env (.about c place v) t b es) :
      Settles env (.about (.nullable c) place v) t b es
  | array {c place vs t b es} (h : Settles env (.every c 0 vs place) t b es) :
      Settles env (.about (.array c) place (.array vs)) t b es
  | object {ps place fields t b es} (h : Settles env (.properties ps fields place) t b es) :
      Settles env (.about (.object ps) place (.object fields)) t b es
  | watched {probe c place v t b es}
      (h : Settles env (.about c place v) (t.after [.asked probe v.kind]) b es) :
      Settles env (.about (.watched probe c) place v) t b (es ++ [.asked probe v.kind])
  | scripted {probe answer place v t} :
      Settles env (.about (.scripted probe answer) place v) t (answer t.journal)
        [.asked probe v.kind]
  | reentered {l place v t} (h : (l.serial, place) ∈ t.active) :
      Settles env (.about (.reference l) place v) t false [.reentered l place]
  | unresolved {l place v t} (h : (l.serial, place) ∉ t.active)
      (hl : Keyed.get? l.address env = none) :
      Settles env (.about (.reference l) place v) t false
        [.left l place, .unresolved l.address, .entered l place]
  | resolved {l place v t c b es} (h : (l.serial, place) ∉ t.active)
      (hl : Keyed.get? l.address env = some c)
      (hc : Settles env (.about c place v) (t.enter l place) b es) :
      Settles env (.about (.reference l) place v) t b (.left l place :: (es ++ [.entered l place]))
  | oneOf_nil {place v t} : Settles env (.oneOf [] place v) t false []
  | oneOf_accepted {c cs place v t es} (h : Settles env (.about c place v) t true es) :
      Settles env (.oneOf (c :: cs) place v) t true es
  | oneOf_next {c cs place v t b es fs} (h : Settles env (.about c place v) t false es)
      (hs : Settles env (.oneOf cs place v) (t.after es) b fs) :
      Settles env (.oneOf (c :: cs) place v) t b (fs ++ es)
  | every_nil {c i place t} : Settles env (.every c i [] place) t true []
  | every_rejected {c i v vs place t es}
      (h : Settles env (.about c (place.child (.index i)) v) t false es) :
      Settles env (.every c i (v :: vs) place) t false es
  | every_next {c i v vs place t b es fs}
      (h : Settles env (.about c (place.child (.index i)) v) t true es)
      (hs : Settles env (.every c (i + 1) vs place) (t.after es) b fs) :
      Settles env (.every c i (v :: vs) place) t b (fs ++ es)
  | yielded {p c place v t b es} (hp : p.yields env t.journal = some c)
      (h : Settles env (.about c place v) (t.after p.making) b es) :
      Settles env (.property p place v) t b (es ++ p.making)
  | failing {p place v t} (hp : p.yields env t.journal = none) :
      Settles env (.property p place v) t false p.failing
  | properties_nil {fields place t} : Settles env (.properties [] fields place) t true []
  | properties_missing {k p ps fields place t} (hk : Keyed.get? k.name fields = none)
      (ho : k.isOptional = false) : Settles env (.properties ((k, p) :: ps) fields place) t false []
  | properties_absent {k p ps fields place t b es} (hk : Keyed.get? k.name fields = none)
      (ho : k.isOptional = true) (hs : Settles env (.properties ps fields place) t b es) :
      Settles env (.properties ((k, p) :: ps) fields place) t b es
  | properties_rejected {k p ps fields place v t es} (hk : Keyed.get? k.name fields = some v)
      (h : Settles env (.property p (place.child (.key k.name)) v) t false es) :
      Settles env (.properties ((k, p) :: ps) fields place) t false es
  | properties_next {k p ps fields place v t b es fs} (hk : Keyed.get? k.name fields = some v)
      (h : Settles env (.property p (place.child (.key k.name)) v) t true es)
      (hs : Settles env (.properties ps fields place) (t.after es) b fs) :
      Settles env (.properties ((k, p) :: ps) fields place) t b (fs ++ es)

namespace Question

/-- The references in the checkers a question is about. -/
def lookups : Question → List Lookup
  | about c _ _ => c.lookups
  | oneOf cs _ _ => Checker.lookupsAll cs
  | every c _ _ _ => c.lookups
  | property p _ _ => Checker.lookupsProperty p
  | properties ps _ _ => Checker.lookupsProperties ps

/-! ## Answering questions by asking checkers -/

/-- The answer to a question, if checkers are asked by `ask`. -/
def eval (env : Environment) (ask : Ask) : Question → Trail → Answer
  | about c place v => ask c place v
  | oneOf cs place v => Checker.firstAccepting (fun c => ask c place v) cs
  | every c i vs place => Checker.everyItem (fun s => ask c (place.child s)) i vs
  | property p place v => Checker.askProperty env ask p place v
  | properties ps fields place =>
    Checker.everyProperty (fun p s => Checker.askProperty env ask p (place.child s)) fields ps

end Question

/-- The property question, with the kinds of property taken together. -/
theorem askProperty_eq (env : Environment) (ask : Ask) (p : Property) (place : Place) (v : Value)
    (t : Trail) : Checker.askProperty env ask p place v t =
      match p.yields env t.journal with
      | some c => ask c place v (t.after p.making)
      | none => some (false, t.after p.failing) := by
  cases p with
  | direct c => rfl
  | produced label c => cases label <;> rfl
  | barren label => cases label <;> rfl
  | found label a =>
    cases h : Keyed.get? a env <;> cases label <;>
      simp [Checker.askProperty, Property.yields, Property.fixed?, h] <;> rfl
  | scripted probe yield =>
    cases h : yield t.journal <;> simp [Checker.askProperty, Property.yields, h] <;> rfl

/-! ## What may be asked -/

/-- A checker may ask the other one, about the same value or about a part of it. -/
inductive Asks (env : Environment) : Checker → Checker → Prop where
  | any {cs c} (h : c ∈ cs) : Asks env (.any cs) c
  | nullable {c} : Asks env (.nullable c) c
  | array {c} : Asks env (.array c) c
  | object {ps k p j c} (h : (k, p) ∈ ps) (hp : p.yields env j = some c) : Asks env (.object ps) c
  | reference {l c} (h : Keyed.get? l.address env = some c) : Asks env (.reference l) c
  | watched {probe c} : Asks env (.watched probe c) c

/-- What holds of all that a checker may ask, if it holds of the checker. -/
def Inherited (env : Environment) (P : Checker → Prop) : Prop :=
  ∀ ⦃c d⦄, P c → Asks env c d → P d

namespace Environment

/-- This holds of the checker and of all that it leads to. -/
def Everywhere (env : Environment) (P : Checker → Prop) (c : Checker) : Prop :=
  ∀ d, Relation.ReflTransGen (Asks env) c d → P d

variable {env : Environment} {P Q : Checker → Prop} {c : Checker}

theorem Everywhere.here (h : env.Everywhere P c) : P c :=
  h c .refl

theorem inherited_everywhere : Inherited env (env.Everywhere P) :=
  fun _ _ h hd e he => h e (.head hd he)

/-- Among checkers that ask none but each other a checker leads to no other. -/
theorem everywhere_of_inherited (hP : Inherited env P) (hc : P c) : env.Everywhere P c := by
  intro d hd
  induction hd with
  | refl => exact hc
  | tail _ hask ih => exact hP ih hask

theorem Everywhere.imp (h : env.Everywhere P c) (hPQ : ∀ d, P d → Q d) : env.Everywhere Q c :=
  fun d hd => hPQ d (h d hd)

end Environment

/-- All checkers that a question is about are of this kind. -/
def Question.All (env : Environment) (P : Checker → Prop) : Question → Prop
  | about c _ _ => P c
  | oneOf cs _ _ => ∀ c ∈ cs, P c
  | every c _ _ _ => P c
  | property p _ _ => ∀ j c, p.yields env j = some c → P c
  | properties ps _ _ => ∀ e ∈ ps, ∀ j c, e.2.yields env j = some c → P c

theorem Question.all_of_forall {env : Environment} {P : Checker → Prop} (h : ∀ c, P c)
    (q : Question) : q.All env P := by
  cases q <;> simp [Question.All, h]

/-- All references in the checkers that can be found are known. -/
def Environment.Within (env : Environment) (known : List Lookup) : Prop :=
  ∀ e ∈ env, e.2.lookups ⊆ known

theorem Environment.Within.get? {env : Environment} {known : List Lookup} (h : env.Within known)
    {a : Address} {c : Checker} (hc : Keyed.get? a env = some c) : c.lookups ⊆ known :=
  h _ (Keyed.mem_of_get? hc)

theorem lookups_of_fixed? {env : Environment} {known : List Lookup} (henv : env.Within known)
    {p : Property} {c : Checker} (hp : p.fixed? env = some c)
    (h : Checker.lookupsProperty p ⊆ known) : c.lookups ⊆ known := by
  cases p with
  | direct d | produced _ d =>
    obtain rfl := Option.some.inj hp
    exact h
  | barren _ | scripted _ _ => exact nomatch hp
  | found _ a => exact henv.get? hp

/-! ## Questions with several parts -/

namespace Question

/-- The question asks the first one, and goes on with the rest if its answer is `goOn`. -/
def Opens (env : Environment) (q first : Question) (goOn : Bool) (rest : Question) : Prop :=
  ∀ ask t, q.eval env ask t = (first.eval env ask t).bind fun r =>
    if r.1 = goOn then rest.eval env ask r.2 else some r

variable {env : Environment}

theorem opens_oneOf {c : Checker} {cs : List Checker} {place : Place} {v : Value} :
    Opens env (oneOf (c :: cs) place v) (about c place v) false (oneOf cs place v) := by
  intro ask t
  simp only [eval, Checker.firstAccepting]
  rcases ask c place v t with _ | ⟨_ | _, t'⟩ <;> rfl

theorem opens_every {c : Checker} {i : Nat} {v : Value} {vs : List Value} {place : Place} :
    Opens env (every c i (v :: vs) place) (about c (place.child (.index i)) v) true
      (every c (i + 1) vs place) := by
  intro ask t
  simp only [eval, Checker.everyItem]
  rcases ask c (place.child (.index i)) v t with _ | ⟨_ | _, t'⟩ <;> rfl

section Properties

variable {k : DeclaredKey} {p : Property} {ps : List (DeclaredKey × Property)}
  {fields : List (String × Value)} {place : Place}

theorem opens_properties {v : Value} (hk : Keyed.get? k.name fields = some v) :
    Opens env (properties ((k, p) :: ps) fields place) (property p (place.child (.key k.name)) v)
      true (properties ps fields place) := by
  intro ask t
  simp only [eval, Checker.everyProperty, hk]
  rcases Checker.askProperty env ask p (place.child (.key k.name)) v t with _ | ⟨_ | _, t'⟩ <;> rfl

/-- A property that is not there. -/
theorem eval_properties_none {ask : Ask} {t : Trail} (hk : Keyed.get? k.name fields = none) :
    (properties ((k, p) :: ps) fields place).eval env ask t =
      if k.isOptional then (properties ps fields place).eval env ask t else some (false, t) := by
  simp only [eval, Checker.everyProperty, hk]

end Properties

/-- The first answer goes on and the rest gives the answer, or the first answer is the answer. -/
theorem Opens.eval_eq_some {q first rest : Question} {goOn : Bool}
    (h : Opens env q first goOn rest) {ask : Ask} {t : Trail} {r : Bool × Trail} :
    q.eval env ask t = some r ↔
      (∃ t', first.eval env ask t = some (goOn, t') ∧ rest.eval env ask t' = some r) ∨
        r.1 ≠ goOn ∧ first.eval env ask t = some r := by
  rw [h, Option.bind_eq_some_iff]
  constructor
  · rintro ⟨⟨b, t'⟩, hfirst, hr⟩
    by_cases hb : b = goOn
    · subst hb
      exact Or.inl ⟨t', hfirst, by rwa [if_pos rfl] at hr⟩
    · rw [if_neg hb] at hr
      obtain rfl := Option.some.inj hr
      exact Or.inr ⟨hb, hfirst⟩
  · rintro (⟨t', hfirst, hr⟩ | ⟨hb, hfirst⟩)
    · exact ⟨_, hfirst, by rwa [if_pos rfl]⟩
    · exact ⟨r, hfirst, if_neg hb⟩

end Question

/-! ## The rules are sound for the recursion -/

variable {env : Environment}

/-- The answer and the trail follow the rules. -/
def Settled (env : Environment) (q : Question) (t : Trail) (r : Bool × Trail) : Prop :=
  ∃ es, r.2 = t.after es ∧ Settles env q t r.1 es

/-- All answers of `ask` follow the rules. -/
def Faithful (env : Environment) (ask : Ask) : Prop :=
  ∀ ⦃c place v t r⦄, ask c place v t = some r → Settled env (.about c place v) t r

section Faithful

variable {ask : Ask} (hask : Faithful env ask)
include hask

theorem settled_oneOf {place : Place} {v : Value} :
    ∀ {cs : List Checker} {t : Trail} {r : Bool × Trail},
      (Question.oneOf cs place v).eval env ask t = some r → Settled env (.oneOf cs place v) t r
  | [], t, r, h => by
    obtain rfl := Option.some.inj h
    exact ⟨[], rfl, .oneOf_nil⟩
  | c :: cs, t, (b, t'), h => by
    rcases Question.opens_oneOf.eval_eq_some.1 h with ⟨t'', hc, hcs⟩ | ⟨hb, hc⟩
    · obtain ⟨es, rfl, hs⟩ := hask hc
      obtain ⟨fs, hr, hs'⟩ := settled_oneOf hcs
      exact ⟨fs ++ es, hr.trans (t.after_after es fs), .oneOf_next hs hs'⟩
    · obtain rfl : b = true := eq_true_of_ne_false hb
      obtain ⟨es, hr, hs⟩ := hask hc
      exact ⟨es, hr, .oneOf_accepted hs⟩

theorem settled_every {c : Checker} {place : Place} :
    ∀ {vs : List Value} {i : Nat} {t : Trail} {r : Bool × Trail},
      (Question.every c i vs place).eval env ask t = some r → Settled env (.every c i vs place) t r
  | [], i, t, r, h => by
    obtain rfl := Option.some.inj h
    exact ⟨[], rfl, .every_nil⟩
  | v :: vs, i, t, (b, t'), h => by
    rcases Question.opens_every.eval_eq_some.1 h with ⟨t'', hc, hvs⟩ | ⟨hb, hc⟩
    · obtain ⟨es, rfl, hs⟩ := hask hc
      obtain ⟨fs, hr, hs'⟩ := settled_every hvs
      exact ⟨fs ++ es, hr.trans (t.after_after es fs), .every_next hs hs'⟩
    · obtain rfl : b = false := eq_false_of_ne_true hb
      obtain ⟨es, hr, hs⟩ := hask hc
      exact ⟨es, hr, .every_rejected hs⟩

theorem settled_property {p : Property} {place : Place} {v : Value} {t : Trail} {r : Bool × Trail}
    (h : Checker.askProperty env ask p place v t = some r) :
    Settled env (.property p place v) t r := by
  rw [askProperty_eq] at h
  cases hp : p.yields env t.journal with
  | none =>
    rw [hp] at h
    obtain rfl := Option.some.inj h
    exact ⟨p.failing, rfl, .failing hp⟩
  | some c =>
    rw [hp] at h
    obtain ⟨es, hr, hs⟩ := hask h
    exact ⟨es ++ p.making, by simp [hr], .yielded hp hs⟩

theorem settled_properties {fields : List (String × Value)} {place : Place} :
    ∀ {ps : List (DeclaredKey × Property)} {t : Trail} {r : Bool × Trail},
      (Question.properties ps fields place).eval env ask t = some r →
        Settled env (.properties ps fields place) t r
  | [], t, r, h => by
    obtain rfl := Option.some.inj h
    exact ⟨[], rfl, .properties_nil⟩
  | (k, p) :: ps, t, (b, t'), h => by
    cases hk : Keyed.get? k.name fields with
    | none =>
      rw [Question.eval_properties_none hk] at h
      cases ho : k.isOptional with
      | true =>
        rw [ho, if_pos rfl] at h
        obtain ⟨es, hr, hs⟩ := settled_properties h
        exact ⟨es, hr, .properties_absent hk ho hs⟩
      | false =>
        rw [ho, if_neg Bool.false_ne_true] at h
        cases h
        exact ⟨[], rfl, .properties_missing hk ho⟩
    | some v =>
      rcases (Question.opens_properties hk).eval_eq_some.1 h with ⟨t'', hp, hps⟩ | ⟨hb, hp⟩
      · obtain ⟨es, rfl, hs⟩ := settled_property hask hp
        obtain ⟨fs, hr, hs'⟩ := settled_properties hps
        exact ⟨fs ++ es, hr.trans (t.after_after es fs), .properties_next hk hs hs'⟩
      · obtain rfl : b = false := eq_false_of_ne_true hb
        obtain ⟨es, hr, hs⟩ := settled_property hask hp
        exact ⟨es, hr, .properties_rejected hk hs⟩

/-- A reference that is followed under the guard. -/
theorem settled_reference {l : Lookup} {place : Place} {v : Value} {t : Trail} {r : Bool × Trail}
    (h : Checker.guarded env ask l place v t = some r) :
    Settled env (.about (.reference l) place v) t r := by
  rw [Checker.guarded] at h
  by_cases hmem : (l.serial, place) ∈ t.active
  · rw [if_pos hmem] at h
    obtain rfl := Option.some.inj h
    exact ⟨_, rfl, .reentered hmem⟩
  · rw [if_neg hmem] at h
    cases hl : Keyed.get? l.address env with
    | none =>
      simp only [hl] at h
      obtain rfl := Option.some.inj h
      exact ⟨_, rfl, .unresolved hmem hl⟩
    | some c =>
      simp only [hl] at h
      cases hc : ask c place v (t.enter l place) with
      | none => simp [hc] at h
      | some a =>
        obtain ⟨b, t'⟩ := a
        simp only [hc] at h
        obtain rfl := Option.some.inj h
        obtain ⟨es, rfl, hs⟩ := hask hc
        exact ⟨_, by simp [Trail.leave, Trail.after, Trail.enter], .resolved hmem hl hs⟩

theorem faithful_step :
    Faithful env (Checker.step env (Checker.guarded env ask) ask) := by
  intro c place v t r h
  cases c with
  | primitive p =>
    obtain rfl := Option.some.inj h
    exact ⟨[], rfl, .atSight rfl⟩
  | literal expected =>
    cases v <;>
    · obtain rfl := Option.some.inj h
      exact ⟨[], rfl, .atSight rfl⟩
  | any cs =>
    obtain ⟨es, hr, hs⟩ := settled_oneOf hask h
    exact ⟨es, hr, .any hs⟩
  | nullable c =>
    by_cases hv : v = .null
    · subst hv
      obtain rfl := Option.some.inj h
      exact ⟨[], rfl, .atSight rfl⟩
    · have h' : ask c place v t = some r := by
        cases v <;> first | exact h | exact absurd rfl hv
      obtain ⟨es, hr, hs⟩ := hask h'
      exact ⟨es, hr, .nullable hv hs⟩
  | array c =>
    cases v with
    | array vs =>
      obtain ⟨es, hr, hs⟩ := settled_every hask h
      exact ⟨es, hr, .array hs⟩
    | _ =>
      obtain rfl := Option.some.inj h
      exact ⟨[], rfl, .atSight rfl⟩
  | object ps =>
    cases v with
    | object fields =>
      obtain ⟨es, hr, hs⟩ := settled_properties hask h
      exact ⟨es, hr, .object hs⟩
    | _ =>
      obtain rfl := Option.some.inj h
      exact ⟨[], rfl, .atSight rfl⟩
  | reference l => exact settled_reference hask h
  | watched probe c =>
    obtain ⟨es, hr, hs⟩ := hask h
    exact ⟨es ++ [.asked probe v.kind], by simpa [Trail.after, Trail.note] using hr, .watched hs⟩
  | scripted probe answer =>
    obtain rfl := Option.some.inj h
    exact ⟨_, rfl, .scripted⟩

end Faithful

theorem faithful_split {env : Environment} {here deeper : Ask} {depth : Nat}
    (hhere : Faithful env here) (hdeeper : Faithful env deeper) :
    Faithful env (Checker.split depth here deeper) := by
  intro c place v t r hr
  rw [Checker.split] at hr
  split at hr
  · exact hhere hr
  · exact hdeeper hr

theorem faithful_askAt {env : Environment} {deeper : Ask} (h : Faithful env deeper) (depth : Nat) :
    ∀ n : Nat, Faithful env (Checker.askAt env deeper depth n)
  | 0 => fun _ _ _ _ _ h => nomatch h
  | n + 1 => faithful_step (faithful_split (faithful_askAt h depth n) h)

/-- Whatever bound is used, an answer is one the rules give. -/
theorem faithful_askDown {env : Environment} : ∀ d : Nat, Faithful env (Checker.askDown env d)
  | 0 => fun _ _ _ _ _ h => nomatch h
  | d + 1 => fun _ _ _ _ _ h => faithful_askAt (faithful_askDown d) _ _ h

end DataShape
