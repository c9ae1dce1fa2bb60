import DataShape.Proofs.Check.Answer
import Mathlib.Data.List.Dedup

/-!
# The references in progress

The references in progress change when one is entered or left, and both are events.
So the journal tells what the stack was at each moment of a check : `stackAfter`
replays events on the stack before them. A check leaves the stack as it was
(`Settles.stackAfter_eq`), and what entering a reference under the guard keeps holds
at every moment of it (`Settles.throughout`). The stack of a check holds no reference
twice for one place (`Settles.stack_proper`).

The replay is what the guard looks at : on the trail of every question that is asked in
the course of a check (`Poses`) the references in progress are those that the journal
tells (`Settles.askedDuring`).
-/

namespace DataShape

open Relation

/-- The references in progress, the innermost first, with the places they are about. -/
abbrev Stack := List (Nat × Place)

/-- The stack after an event. -/
def Event.track : Event → Stack → Stack
  | entered l place, stack => (l.serial, place) :: stack
  | left _ _, stack => stack.tail
  | _, stack => stack

/-- The stack after events, the latest event first. -/
def stackAfter (stack : Stack) (es : List Event) : Stack :=
  es.foldr Event.track stack

@[simp] theorem stackAfter_nil (stack : Stack) : stackAfter stack [] = stack :=
  rfl

@[simp] theorem stackAfter_cons (stack : Stack) (e : Event) (es : List Event) :
    stackAfter stack (e :: es) = e.track (stackAfter stack es) :=
  rfl

@[simp] theorem stackAfter_append (stack : Stack) (fs es : List Event) :
    stackAfter stack (fs ++ es) = stackAfter (stackAfter stack es) fs := by
  simp [stackAfter]

/-- Running a producer enters and leaves nothing. -/
@[simp] theorem stackAfter_making (stack : Stack) (p : Property) :
    stackAfter stack p.making = stack := by
  unfold Property.making
  split <;> rfl

@[simp] theorem stackAfter_failing (stack : Stack) (p : Property) :
    stackAfter stack p.failing = stack := by
  rcases p.failing_eq with h | ⟨_, a, _, h⟩ <;> simp [h, Event.track]

variable {env : Environment} {q : Question} {t : Trail} {b : Bool} {es : List Event}

/-- Once a question is settled the stack is what it was before. -/
theorem Settles.stackAfter_eq (h : Settles env q t b es) : stackAfter t.active es = t.active := by
  induction h with
  | atSight | oneOf_nil | every_nil | properties_nil | properties_missing => rfl
  | any _ ih | nullable _ _ ih | array _ ih | object _ ih | oneOf_accepted _ ih
  | every_rejected _ ih | properties_absent _ _ _ ih | properties_rejected _ _ ih => exact ih
  | watched _ ih => simpa [Event.track] using ih
  | scripted | reentered _ | unresolved _ _ => simp [Event.track]
  | resolved _ _ _ ih =>
    simp only [Trail.active_enter] at ih
    simp [Event.track, ih]
  | oneOf_next _ _ ih ihs | every_next _ _ ih ihs | properties_next _ _ _ ih ihs =>
    simp only [Trail.active_after] at ihs
    simp [ih, ihs]
  | yielded _ _ ih => simpa using ih
  | failing _ => simp

/-! ## Every moment -/

/-- What holds of the stack before the events and after each of them. -/
def Throughout (P : Stack → Prop) (stack : Stack) (es : List Event) : Prop :=
  ∀ earlier, earlier <:+ es → P (stackAfter stack earlier)

theorem throughout_nil {P : Stack → Prop} {stack : Stack} :
    Throughout P stack [] ↔ P stack := by
  simp [Throughout]

theorem throughout_cons {P : Stack → Prop} {stack : Stack} {e : Event} {es : List Event} :
    Throughout P stack (e :: es) ↔ P (stackAfter stack (e :: es)) ∧ Throughout P stack es := by
  simp [Throughout, List.suffix_cons_iff, or_imp, forall_and]

theorem throughout_append {P : Stack → Prop} {stack stack' : Stack} {fs es : List Event}
    (hes : Throughout P stack es) (hstack : stackAfter stack es = stack')
    (hfs : Throughout P stack' fs) : Throughout P stack (fs ++ es) := by
  subst hstack
  induction fs with
  | nil => exact hes
  | cons f fs ih =>
    rw [throughout_cons] at hfs
    exact throughout_cons.2 ⟨by simpa using hfs.1, ih hfs.2⟩

/-- Events that leave the stack alone. -/
theorem throughout_of_track {P : Stack → Prop} {stack : Stack} {es : List Event} (hP : P stack)
    (h : ∀ e ∈ es, ∀ s : Stack, e.track s = s) : Throughout P stack es := by
  induction es with
  | nil => exact throughout_nil.2 hP
  | cons e es ih =>
    have hes := ih fun f hf => h f (List.mem_cons_of_mem _ hf)
    refine throughout_cons.2 ⟨?_, hes⟩
    rw [stackAfter_cons, h e List.mem_cons_self]
    exact hes es List.suffix_rfl

theorem throughout_making {P : Stack → Prop} {stack : Stack} (hP : P stack) (p : Property) :
    Throughout P stack p.making := by
  refine throughout_of_track hP fun e he s => ?_
  unfold Property.making at he
  split at he <;> simp_all [Event.track]

theorem throughout_failing {P : Stack → Prop} {stack : Stack} (hP : P stack) (p : Property) :
    Throughout P stack p.failing := by
  have hmaking := throughout_making hP p
  rcases p.failing_eq with h | ⟨_, a, _, h⟩ <;> rw [h]
  · exact hmaking
  · exact throughout_cons.2 ⟨by simpa [Event.track] using hP, hmaking⟩

/-- If entering a reference under the guard keeps `P`, it holds at every moment of a check. The
references are among the checkers that may be asked. -/
theorem Settles.throughout {P : Stack → Prop} {S : Checker → Prop} (hS : Inherited env S)
    (hP : ∀ l, S (.reference l) → ∀ (place : Place) (stack : Stack), (l.serial, place) ∉ stack →
      P stack → P ((l.serial, place) :: stack))
    (h : Settles env q t b es) (hq : q.All env S) (ht : P t.active) :
    Throughout P t.active es := by
  induction h with
  | atSight | oneOf_nil | every_nil | properties_nil | properties_missing =>
    exact throughout_nil.2 ht
  | any _ ih => exact ih (fun c hc => hS hq (.any hc)) ht
  | nullable _ _ ih => exact ih (hS hq .nullable) ht
  | array _ ih => exact ih (hS hq .array) ht
  | object _ ih => exact ih (fun e he j c hc => hS hq (.object he hc)) ht
  | watched _ ih =>
    exact throughout_append (throughout_of_track ht (by simp [Event.track])) rfl
      (ih (hS hq .watched) ht)
  | scripted | reentered _ => exact throughout_of_track ht (by simp [Event.track])
  | @unresolved l place v t hmem hl =>
    have hin : P ((l.serial, place) :: t.active) := hP l hq place _ hmem ht
    simpa [throughout_cons, throughout_nil, Event.track] using ⟨ht, hin, ht⟩
  | @resolved l place v t c b es hmem hl hc ih =>
    have hin : P ((l.serial, place) :: t.active) := hP l hq place _ hmem ht
    have hstack := hc.stackAfter_eq
    simp only [Trail.active_enter] at hstack
    have hentered : Throughout P t.active [.entered l place] :=
      throughout_cons.2 ⟨by simpa [Event.track] using hin, throughout_nil.2 ht⟩
    have hinner := throughout_append hentered rfl (ih (hS hq (.reference hl)) hin)
    refine throughout_cons.2 ⟨?_, hinner⟩
    simpa [Event.track, hstack] using ht
  | oneOf_accepted _ ih => exact ih (hq _ List.mem_cons_self) ht
  | oneOf_next h _ ih ihs =>
    obtain ⟨hc, hcs⟩ := List.forall_mem_cons.1 hq
    exact throughout_append (ih hc ht) h.stackAfter_eq (ihs hcs ht)
  | every_rejected _ ih => exact ih hq ht
  | every_next h _ ih ihs => exact throughout_append (ih hq ht) h.stackAfter_eq (ihs hq ht)
  | @yielded p _ _ _ t _ _ hp _ ih =>
    exact throughout_append (throughout_making ht p) (stackAfter_making _ p) (ih (hq _ _ hp) ht)
  | failing _ => exact throughout_failing ht _
  | properties_absent _ _ _ ih => exact ih (List.forall_mem_cons.1 hq).2 ht
  | properties_rejected _ _ ih => exact ih (List.forall_mem_cons.1 hq).1 ht
  | properties_next _ h _ ih ihs =>
    obtain ⟨hp, hps⟩ := List.forall_mem_cons.1 hq
    exact throughout_append (ih hp ht) h.stackAfter_eq (ihs hps ht)

/-! ## Questions on the way -/

/-- A question on a trail asks another one on its trail. What comes after the first part of a
question is asked on the trail that this part leaves. -/
inductive Poses (env : Environment) : Question × Trail → Question × Trail → Prop where
  | any {cs place v t} : Poses env (.about (.any cs) place v, t) (.oneOf cs place v, t)
  | nullable {c place v t} (hv : v ≠ .null) :
      Poses env (.about (.nullable c) place v, t) (.about c place v, t)
  | array {c place vs t} :
      Poses env (.about (.array c) place (.array vs), t) (.every c 0 vs place, t)
  | object {ps place fields t} :
      Poses env (.about (.object ps) place (.object fields), t) (.properties ps fields place, t)
  | watched {probe c place v t} :
      Poses env (.about (.watched probe c) place v, t)
        (.about c place v, t.note (.asked probe v.kind))
  | reference {l place v t c} (h : (l.serial, place) ∉ t.active)
      (hl : Keyed.get? l.address env = some c) :
      Poses env (.about (.reference l) place v, t) (.about c place v, t.enter l place)
  | oneOf_first {c cs place v t} : Poses env (.oneOf (c :: cs) place v, t) (.about c place v, t)
  | oneOf_rest {c cs place v t es} (h : Settles env (.about c place v) t false es) :
      Poses env (.oneOf (c :: cs) place v, t) (.oneOf cs place v, t.after es)
  | every_first {c i v vs place t} :
      Poses env (.every c i (v :: vs) place, t) (.about c (place.child (.index i)) v, t)
  | every_rest {c i v vs place t es}
      (h : Settles env (.about c (place.child (.index i)) v) t true es) :
      Poses env (.every c i (v :: vs) place, t) (.every c (i + 1) vs place, t.after es)
  | property {p c place v t} (hp : p.yields env t.journal = some c) :
      Poses env (.property p place v, t) (.about c place v, t.after p.making)
  | properties_first {k p ps fields place v t} (hk : Keyed.get? k.name fields = some v) :
      Poses env (.properties ((k, p) :: ps) fields place, t)
        (.property p (place.child (.key k.name)) v, t)
  | properties_absent {k p ps fields place t} (hk : Keyed.get? k.name fields = none)
      (ho : k.isOptional = true) :
      Poses env (.properties ((k, p) :: ps) fields place, t) (.properties ps fields place, t)
  | properties_rest {k p ps fields place v t es} (hk : Keyed.get? k.name fields = some v)
      (h : Settles env (.property p (place.child (.key k.name)) v) t true es) :
      Poses env (.properties ((k, p) :: ps) fields place, t)
        (.properties ps fields place, t.after es)

/-- These events happened since, and the references in progress are those that they tell. -/
def Trail.Replays (t : Trail) (es : List Event) (t' : Trail) : Prop :=
  t'.journal = es ++ t.journal ∧ t'.active = stackAfter t.active es

theorem Trail.Replays.trans {t t' t'' : Trail} {es fs : List Event} (h : t.Replays es t')
    (h' : t'.Replays fs t'') : t.Replays (fs ++ es) t'' := by
  refine ⟨?_, ?_⟩
  · rw [h'.1, h.1, List.append_assoc]
  · rw [h'.2, h.2, stackAfter_append]

theorem Trail.replays_nil (t : Trail) : t.Replays [] t :=
  ⟨rfl, rfl⟩

theorem Trail.replays_enter (t : Trail) (l : Lookup) (place : Place) :
    t.Replays [.entered l place] (t.enter l place) :=
  ⟨rfl, rfl⟩

theorem Settles.replays (h : Settles env q t b es) : t.Replays es (t.after es) :=
  ⟨rfl, h.stackAfter_eq.symm⟩

/-- The question is asked and answered in the course of these events. -/
def AskedDuring (env : Environment) (t : Trail) (es : List Event) (y : Question × Trail) : Prop :=
  ∃ earlier b fs, t.Replays earlier y.2 ∧ Settles env y.1 y.2 b fs ∧ fs ++ earlier <:+ es

theorem AskedDuring.now (h : Settles env q t b es) : AskedDuring env t es (q, t) :=
  ⟨[], b, es, t.replays_nil, h, by simp⟩

theorem AskedDuring.later {t' : Trail} {earlier all : List Event} (hreplays : t.Replays earlier t')
    (h : Settles env q t' b es) (hall : es ++ earlier <:+ all) : AskedDuring env t all (q, t') :=
  ⟨earlier, b, es, hreplays, h, hall⟩

/-- A question with several parts is answered by the first part, or by the rest after it. -/
def InParts (env : Environment) (first : Question) (goOn : Bool) (rest : Question) (t : Trail)
    (b : Bool) (es : List Event) : Prop :=
  b ≠ goOn ∧ Settles env first t b es ∨
    ∃ fs gs, Settles env first t goOn fs ∧ Settles env rest (t.after fs) b gs ∧ es = gs ++ fs

theorem Settles.inParts_oneOf {c : Checker} {cs : List Checker} {place : Place} {v : Value}
    (h : Settles env (.oneOf (c :: cs) place v) t b es) :
    InParts env (.about c place v) false (.oneOf cs place v) t b es := by
  cases h with
  | oneOf_accepted h => exact Or.inl ⟨Bool.false_ne_true.symm, h⟩
  | oneOf_next h hs => exact Or.inr ⟨_, _, h, hs, rfl⟩

theorem Settles.inParts_every {c : Checker} {i : Nat} {v : Value} {vs : List Value} {place : Place}
    (h : Settles env (.every c i (v :: vs) place) t b es) :
    InParts env (.about c (place.child (.index i)) v) true (.every c (i + 1) vs place) t b es := by
  cases h with
  | every_rejected h => exact Or.inl ⟨Bool.false_ne_true, h⟩
  | every_next h hs => exact Or.inr ⟨_, _, h, hs, rfl⟩

theorem Settles.inParts_properties {k : DeclaredKey} {p : Property}
    {ps : List (DeclaredKey × Property)} {fields : List (String × Value)} {place : Place}
    {v : Value} (hk : Keyed.get? k.name fields = some v)
    (h : Settles env (.properties ((k, p) :: ps) fields place) t b es) :
    InParts env (.property p (place.child (.key k.name)) v) true (.properties ps fields place) t b
      es := by
  cases h with
  | properties_missing hk' _ => exact absurd (hk.symm.trans hk') (Option.some_ne_none _)
  | properties_absent hk' _ _ => exact absurd (hk.symm.trans hk') (Option.some_ne_none _)
  | properties_rejected hk' h =>
    obtain rfl := Option.some.inj (hk.symm.trans hk')
    exact Or.inl ⟨Bool.false_ne_true, h⟩
  | properties_next hk' h hs =>
    obtain rfl := Option.some.inj (hk.symm.trans hk')
    exact Or.inr ⟨_, _, h, hs, rfl⟩

section Parts

variable {first rest : Question} {goOn : Bool}

theorem InParts.askedDuring_first (h : InParts env first goOn rest t b es) :
    AskedDuring env t es (first, t) := by
  rcases h with ⟨-, h⟩ | ⟨fs, gs, h, -, rfl⟩
  · exact .now h
  · exact .later t.replays_nil h (by simp)

/-- There is one answer to the first part, so if it goes on the rest is asked. -/
theorem InParts.askedDuring_rest (h : InParts env first goOn rest t b es) {fs : List Event}
    (hfirst : Settles env first t goOn fs) : AskedDuring env t es (rest, t.after fs) := by
  rcases h with ⟨hb, h⟩ | ⟨fs, gs, h, hs, rfl⟩
  · exact absurd (hfirst.unique h).1.symm hb
  · obtain ⟨-, rfl⟩ := hfirst.unique h
    exact .later h.replays hs List.suffix_rfl

end Parts

/-- What a question asks is answered in the course of its own answer. -/
theorem Poses.askedDuring {x y : Question × Trail} (hxy : Poses env x y)
    (h : Settles env x.1 x.2 b es) : AskedDuring env x.2 es y := by
  cases hxy with
  | any =>
    cases h with
    | any h => exact .now h
    | atSight h => exact nomatch h
  | @nullable _ _ v _ hv =>
    cases h with
    | nullable _ h => exact .now h
    | atSight h =>
      cases v with
      | null => exact absurd rfl hv
      | _ => exact nomatch h
  | array =>
    cases h with
    | array h => exact .now h
    | atSight h => exact nomatch h
  | object =>
    cases h with
    | object h => exact .now h
    | atSight h => exact nomatch h
  | watched =>
    cases h with
    | watched h => exact .later ⟨rfl, rfl⟩ h List.suffix_rfl
    | atSight h => exact nomatch h
  | reference hmem hl =>
    cases h with
    | resolved _ hl' h =>
      obtain rfl := Option.some.inj (hl.symm.trans hl')
      exact .later (Trail.replays_enter ..) h (List.suffix_cons ..)
    | reentered h => exact absurd h hmem
    | unresolved _ hl' => exact absurd (hl.symm.trans hl') (Option.some_ne_none _)
    | atSight h => exact nomatch h
  | oneOf_first => exact h.inParts_oneOf.askedDuring_first
  | oneOf_rest hfirst => exact h.inParts_oneOf.askedDuring_rest hfirst
  | every_first => exact h.inParts_every.askedDuring_first
  | every_rest hfirst => exact h.inParts_every.askedDuring_rest hfirst
  | @property p _ _ _ t hp =>
    cases h with
    | yielded hp' h =>
      obtain rfl := Option.some.inj (hp.symm.trans hp')
      exact .later ⟨rfl, (stackAfter_making t.active p).symm⟩ h List.suffix_rfl
    | failing hp' => exact absurd (hp.symm.trans hp') (Option.some_ne_none _)
  | properties_first hk => exact (h.inParts_properties hk).askedDuring_first
  | properties_absent hk ho =>
    cases h with
    | properties_absent _ _ h => exact .now h
    | properties_missing _ ho' => exact nomatch ho.symm.trans ho'
    | properties_rejected hk' _ => exact absurd (hk'.symm.trans hk) (Option.some_ne_none _)
    | properties_next hk' _ _ => exact absurd (hk'.symm.trans hk) (Option.some_ne_none _)
  | properties_rest hk hfirst => exact (h.inParts_properties hk).askedDuring_rest hfirst

/-- On the trail of every question that is asked on the way, the references in progress are those
that the journal tells. -/
theorem Settles.askedDuring {x y : Question × Trail} (h : Settles env x.1 x.2 b es)
    (hxy : ReflTransGen (Poses env) x y) : AskedDuring env x.2 es y := by
  induction hxy with
  | refl => exact .now h
  | tail _ hyz ih =>
    obtain ⟨earlier, b', fs, hreplays, hs, hsuffix⟩ := ih
    obtain ⟨later, b'', gs, hreplays', hs', rest, rfl⟩ := hyz.askedDuring hs
    refine .later (hreplays.trans hreplays') hs' (List.IsSuffix.trans ⟨rest, ?_⟩ hsuffix)
    simp

/-! ## The size of the stack -/

/-- No reference stands on the stack twice for one place. -/
theorem Settles.stack_nodup (h : Settles env q t b es) (ht : t.active.Nodup) :
    Throughout List.Nodup t.active es :=
  h.throughout (S := fun _ => True) (fun _ _ _ _ => trivial)
    (fun _ _ _ _ hmem hs => List.nodup_cons.2 ⟨hmem, hs⟩)
    (Question.all_of_forall (fun _ => trivial) q) ht

/-- No reference stands on the stack twice for one place, and all are known. -/
def Stack.Proper (known : List Lookup) (stack : Stack) : Prop :=
  stack.Nodup ∧ ∀ e ∈ stack, e.1 ∈ known.map Lookup.serial

/-- All references that may be asked are known. -/
def Environment.Covers (env : Environment) (known : List Lookup) : Checker → Prop :=
  env.Everywhere fun c => ∀ l, c = .reference l → l ∈ known

theorem Settles.stack_proper {known : List Lookup} (h : Settles env q t b es)
    (hq : q.All env (env.Covers known)) (ht : Stack.Proper known t.active) :
    Throughout (Stack.Proper known) t.active es := by
  refine h.throughout Environment.inherited_everywhere
    (fun l hl place stack hmem hs => ⟨?_, fun e he => ?_⟩) hq ht
  · exact List.nodup_cons.2 ⟨hmem, hs.1⟩
  · rcases List.mem_cons.1 he with rfl | he
    · exact List.mem_map_of_mem (hl.here l rfl)
    · exact hs.2 e he

/-- For one place the stack holds at most as many references as there are. -/
theorem Stack.Proper.length_filter_le {known : List Lookup} {stack : Stack}
    (h : Stack.Proper known stack) (place : Place) :
    (stack.filter (·.2 = place)).length ≤ (known.map Lookup.serial).dedup.length := by
  have hplace : ∀ e ∈ stack.filter (·.2 = place), e = (e.1, place) := fun e he =>
    Prod.ext rfl (by simpa using (List.mem_filter.1 he).2)
  have hnodup : ((stack.filter (·.2 = place)).map Prod.fst).Nodup := by
    refine List.Nodup.map_on (fun e he f hf hef => ?_) (h.1.filter _)
    rw [hplace e he, hplace f hf, hef]
  have hsub : (stack.filter (·.2 = place)).map Prod.fst ⊆ (known.map Lookup.serial).dedup := by
    intro n hn
    obtain ⟨e, he, rfl⟩ := List.mem_map.1 hn
    exact List.mem_dedup.2 (h.2 e (List.mem_filter.1 he).1)
  simpa using hnodup.length_le_of_subset hsub

end DataShape
