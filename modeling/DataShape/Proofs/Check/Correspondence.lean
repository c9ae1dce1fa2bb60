import DataShape.Proofs.Check.Acceptance
import Mathlib.Data.List.Forall2

/-!
# Two checks in step

Two checks may differ in the numbers that tell their references apart, in the place where the value
stands, in what is in progress around that place, and in what happened before (`Correspondence`).
The checkers that are asked have to correspond to each other, one question at a time : this is
asked of a relation as a whole (`Correspondence.Simulates`), so checkers may lead to themselves.

Then both checks go through corresponding questions. A reference is in progress in the one exactly
if its counterpart is in the other (`Correspondence.Trails.mem_iff`), since what else is in progress
there is about other places. So the guard turns the same questions away, the answers are the same,
and the references in progress are afterwards what they were (`Correspondence.agrees_ask`). The
cases are those of one question (`Correspondence.sameAnswer_step`), and the induction is on the
bound of the recursion.
-/

namespace DataShape

/-! ## Places seen from elsewhere -/

namespace Place

/-- The place that is reached from `q` by the steps that lead to `p`. -/
def join (q p : Place) : Place :=
  ⟨p.depth + q.depth, p.steps ++ q.steps, by rw [List.length_append, p.depth_eq, q.depth_eq]⟩

theorem ext_steps {p p' : Place} (h : p.steps = p'.steps) : p = p' := by
  obtain ⟨d, steps, hd⟩ := p
  obtain ⟨d', steps', hd'⟩ := p'
  obtain rfl : steps = steps' := h
  obtain rfl : d = d' := hd.trans hd'.symm
  rfl

@[simp] theorem join_root (q : Place) : q.join .root = q :=
  ext_steps (List.nil_append _)

@[simp] theorem root_join (p : Place) : root.join p = p :=
  ext_steps (List.append_nil _)

theorem join_child (q p : Place) (s : Step) : q.join (p.child s) = (q.join p).child s :=
  ext_steps (List.cons_append ..)

theorem join_inj {q p p' : Place} : q.join p = q.join p' ↔ p = p' := by
  refine ⟨fun h => ext_steps ?_, fun h => h ▸ rfl⟩
  exact List.append_cancel_right (congrArg Place.steps h)

end Place

/-! ## What corresponds -/

/-- The same happened, but for the numbers of references and the place of the value. -/
inductive EventsMatch (serials : Nat → Nat → Prop) (origin : Place) : Event → Event → Prop where
  | asked {probe kind} : EventsMatch serials origin (.asked probe kind) (.asked probe kind)
  | made {label} : EventsMatch serials origin (.made label) (.made label)
  | entered {l m place} (h : serials l.serial m.serial) (ha : l.address = m.address) :
      EventsMatch serials origin (.entered l place) (.entered m (origin.join place))
  | left {l m place} (h : serials l.serial m.serial) (ha : l.address = m.address) :
      EventsMatch serials origin (.left l place) (.left m (origin.join place))
  | reentered {l m place} (h : serials l.serial m.serial) (ha : l.address = m.address) :
      EventsMatch serials origin (.reentered l place) (.reentered m (origin.join place))
  | unresolved {a} : EventsMatch serials origin (.unresolved a) (.unresolved a)

/-- How a check corresponds to another one. -/
structure Correspondence where
  /-- The numbers of references that stand for each other. -/
  serials : Nat → Nat → Prop
  /-- Where the other check has the root. -/
  origin : Place
  /-- What the other check has in progress besides. -/
  below : Stack
  /-- The journals that instruments answer and yield alike by. -/
  journals : List Event → List Event → Prop
  one_to_one : ∀ {a b a' b'}, serials a b → serials a' b' → (a = a' ↔ b = b')
  note : ∀ {e e' j j'}, EventsMatch serials origin e e' → journals j j' →
    journals (e :: j) (e' :: j')

namespace Correspondence

variable (K : Correspondence)

/-- Nothing else is in progress about the place or inside it. -/
def Clear (place : Place) : Prop :=
  K.below.ClearFrom (K.origin.join place)

/-- The references in progress stand for each other one by one, above what is there besides. -/
structure Trails (t t' : Trail) : Prop where
  active : ∃ above, t'.active = above ++ K.below ∧
    List.Forall₂ (fun e e' => K.serials e.1 e'.1 ∧ e'.2 = K.origin.join e.2) t.active above
  journals : K.journals t.journal t'.journal

/-- Since these trails, corresponding things happened and nothing is in progress that was not. -/
structure Continues (t t' u u' : Trail) : Prop where
  active_eq : u.active = t.active
  active_eq' : u'.active = t'.active
  journals : K.journals u.journal u'.journal

/-- The answers are the same, or there is none to either question. -/
abbrev SameAnswer (t t' : Trail) : Answer → Answer → Prop :=
  Option.Rel fun r r' => r.1 = r'.1 ∧ K.Continues t t' r.2 r'.2

/-- Properties under one key that yield corresponding checkers by corresponding journals. -/
structure Entries (env : Environment) (R : Checker → Checker → Prop)
    (e f : DeclaredKey × Property) : Prop where
  key_eq : e.1 = f.1
  yields : ∀ j j', K.journals j j' → Option.Rel R (e.2.yields env j) (f.2.yields env j')
  making_eq : e.2.making = f.2.making
  failing_eq : e.2.failing = f.2.failing

/-- The checkers ask corresponding ones. -/
inductive Matches (env : Environment) (R : Checker → Checker → Prop) :
    Checker → Checker → Prop where
  | primitive {p} : Matches env R (.primitive p) (.primitive p)
  | literal {s} : Matches env R (.literal s) (.literal s)
  | any {cs ds} (h : List.Forall₂ R cs ds) : Matches env R (.any cs) (.any ds)
  | nullable {c d} (h : R c d) : Matches env R (.nullable c) (.nullable d)
  | array {c d} (h : R c d) : Matches env R (.array c) (.array d)
  | object {ps qs} (h : List.Forall₂ (K.Entries env R) ps qs) :
      Matches env R (.object ps) (.object qs)
  | reference {l m} (h : K.serials l.serial m.serial) (ha : l.address = m.address)
      (hc : ∀ c, Keyed.get? l.address env = some c → R c c) :
      Matches env R (.reference l) (.reference m)
  | watched {probe c d} (h : R c d) : Matches env R (.watched probe c) (.watched probe d)
  | scripted {probe f g} (h : ∀ j j', K.journals j j' → f j = g j') :
      Matches env R (.scripted probe f) (.scripted probe g)

/-- Related checkers ask related ones, and so on. -/
def Simulates (env : Environment) (R : Checker → Checker → Prop) : Prop :=
  ∀ c d, R c d → K.Matches env R c d

variable {K}

/-! ## Trails -/

section Trails

variable {t t' u u' : Trail} {l m : Lookup} {place : Place}

theorem Clear.child (h : K.Clear place) (s : Step) : K.Clear (place.child s) := by
  intro e he hcovers
  rw [Place.join_child] at hcovers
  exact h e he hcovers.of_child

/-- A reference is in progress in the one check exactly if its counterpart is in the other. -/
theorem Trails.mem_iff (ht : K.Trails t t') {n n' : Nat} (hn : K.serials n n')
    (hclear : K.Clear place) : (n', K.origin.join place) ∈ t'.active ↔ (n, place) ∈ t.active := by
  obtain ⟨above, hactive, habove⟩ := ht.active
  have hbelow : (n', K.origin.join place) ∉ K.below := fun h => hclear _ h Place.covers_rfl
  rw [hactive, List.mem_append, or_iff_left hbelow]
  generalize t.active = stack at habove ⊢
  clear hactive
  induction habove with
  | nil => exact iff_of_false List.not_mem_nil List.not_mem_nil
  | @cons e e' stack above he _ ih =>
    have hhead : (n', K.origin.join place) = e' ↔ (n, place) = e := by
      rw [Prod.ext_iff, Prod.ext_iff, he.2, Place.join_inj, K.one_to_one hn he.1]
    exact List.mem_cons.trans ((or_congr hhead ih).trans List.mem_cons.symm)

theorem Trails.enter (ht : K.Trails t t') (hn : K.serials l.serial m.serial)
    (ha : l.address = m.address) (place : Place) :
    K.Trails (t.enter l place) (t'.enter m (K.origin.join place)) := by
  obtain ⟨above, hactive, habove⟩ := ht.active
  refine ⟨⟨(m.serial, K.origin.join place) :: above, ?_, .cons ⟨hn, rfl⟩ habove⟩,
    K.note (.entered hn ha) ht.journals⟩
  exact congrArg ((m.serial, K.origin.join place) :: ·) hactive

theorem Trails.continues (ht : K.Trails t t') : K.Continues t t' t t' :=
  ⟨rfl, rfl, ht.journals⟩

theorem Continues.trails (h : K.Continues t t' u u') (ht : K.Trails t t') : K.Trails u u' :=
  ⟨h.active_eq ▸ h.active_eq' ▸ ht.active, h.journals⟩

theorem Continues.trans {w w' : Trail} (h : K.Continues t t' u u') (h' : K.Continues u u' w w') :
    K.Continues t t' w w' :=
  ⟨h'.active_eq.trans h.active_eq, h'.active_eq'.trans h.active_eq', h'.journals⟩

theorem SameAnswer.trans {a a' : Answer} (h : K.Continues t t' u u') (ha : K.SameAnswer u u' a a') :
    K.SameAnswer t t' a a' := by
  cases ha with
  | none => exact .none
  | some hr => exact .some ⟨hr.1, h.trans hr.2⟩

theorem journals_making {j j' : List Event} (h : K.journals j j') (p : Property) :
    K.journals (p.making ++ j) (p.making ++ j') := by
  unfold Property.making
  split <;> first | exact K.note .made h | exact h

theorem journals_failing {j j' : List Event} (h : K.journals j j') (p : Property) :
    K.journals (p.failing ++ j) (p.failing ++ j') := by
  have hmaking := journals_making h p
  rcases p.failing_eq with heq | ⟨_, _, _, heq⟩ <;> rw [heq]
  · exact hmaking
  · exact K.note .unresolved hmaking

end Trails

/-! ## Questions -/

/-- The questions are answered the same on corresponding trails. -/
def Agrees (K : Correspondence) (env : Environment) (ask : Ask) (x x' : Question) : Prop :=
  ∀ ⦃t t'⦄, K.Trails t t' → K.SameAnswer t t' (x.eval env ask t) (x'.eval env ask t')

section Agrees

variable {env : Environment} {ask : Ask} {R : Checker → Checker → Prop}

theorem Agrees.of_opens {x first rest x' first' rest' : Question} {goOn : Bool}
    (hx : Question.Opens env x first goOn rest) (hx' : Question.Opens env x' first' goOn rest')
    (hfirst : K.Agrees env ask first first') (hrest : K.Agrees env ask rest rest') :
    K.Agrees env ask x x' := by
  intro t t' ht
  rw [hx, hx']
  have hanswer := hfirst ht
  generalize first.eval env ask t = a at hanswer ⊢
  generalize first'.eval env ask t' = a' at hanswer ⊢
  cases hanswer with
  | none => exact .none
  | @some r r' hr =>
    simp only [Option.bind_some, ← hr.1]
    by_cases hgo : r.1 = goOn
    · rw [if_pos hgo, if_pos hgo]
      exact SameAnswer.trans hr.2 (hrest (hr.2.trails ht))
    · rw [if_neg hgo, if_neg hgo]
      exact .some hr

theorem agrees_oneOf {place : Place} {v : Value} {cs ds : List Checker}
    (h : List.Forall₂ (fun c d => K.Agrees env ask (.about c place v)
      (.about d (K.origin.join place) v)) cs ds) :
    K.Agrees env ask (.oneOf cs place v) (.oneOf ds (K.origin.join place) v) := by
  induction h with
  | nil => exact fun _ _ ht => .some ⟨rfl, ht.continues⟩
  | cons hcd _ ih => exact .of_opens Question.opens_oneOf Question.opens_oneOf hcd ih

theorem agrees_every {c d : Checker} {place : Place}
    (h : ∀ s v, K.Agrees env ask (.about c (place.child s) v)
      (.about d (K.origin.join (place.child s)) v)) :
    ∀ {vs : List Value} {i : Nat},
      K.Agrees env ask (.every c i vs place) (.every d i vs (K.origin.join place))
  | [], _ => fun _ _ ht => .some ⟨rfl, ht.continues⟩
  | v :: vs, i => by
    have hfirst := h (.index i) v
    rw [Place.join_child] at hfirst
    exact .of_opens Question.opens_every Question.opens_every hfirst (agrees_every h)

theorem agrees_property {e f : DeclaredKey × Property} (hef : K.Entries env R e f) {place : Place}
    {v : Value} (h : ∀ c d, R c d → K.Agrees env ask (.about c place v)
      (.about d (K.origin.join place) v)) :
    K.Agrees env ask (.property e.2 place v) (.property f.2 (K.origin.join place) v) := by
  intro t t' ht
  simp only [Question.eval, askProperty_eq, ← hef.making_eq, ← hef.failing_eq]
  have hyields := hef.yields _ _ ht.journals
  generalize e.2.yields env t.journal = a at hyields ⊢
  generalize f.2.yields env t'.journal = a' at hyields ⊢
  cases hyields with
  | none => exact .some ⟨rfl, rfl, rfl, journals_failing ht.journals e.2⟩
  | @some c d hcd =>
    have hmade : K.Continues t t' (t.after e.2.making) (t'.after e.2.making) :=
      ⟨rfl, rfl, journals_making ht.journals e.2⟩
    exact SameAnswer.trans hmade (h c d hcd (hmade.trails ht))

theorem agrees_properties {place : Place} {fields : List (String × Value)}
    (h : ∀ c d, R c d → ∀ s v, K.Agrees env ask (.about c (place.child s) v)
      (.about d (K.origin.join (place.child s)) v))
    {ps qs : List (DeclaredKey × Property)} (hpq : List.Forall₂ (K.Entries env R) ps qs) :
    K.Agrees env ask (.properties ps fields place)
      (.properties qs fields (K.origin.join place)) := by
  induction hpq with
  | nil => exact fun _ _ ht => .some ⟨rfl, ht.continues⟩
  | @cons e f ps qs hef _ ih =>
    obtain ⟨k, p⟩ := e
    obtain ⟨k', q⟩ := f
    obtain rfl : k = k' := hef.key_eq
    cases hk : Keyed.get? k.name fields with
    | none =>
      intro t t' ht
      rw [Question.eval_properties_none hk, Question.eval_properties_none hk]
      cases k.isOptional with
      | true => exact ih ht
      | false => exact .some ⟨rfl, ht.continues⟩
    | some v =>
      have hfirst := agrees_property hef fun c d hcd => h c d hcd (.key k.name) v
      rw [Place.join_child] at hfirst
      exact .of_opens (Question.opens_properties hk) (Question.opens_properties hk) hfirst ih

/-- The guard turns the same questions away. -/
theorem sameAnswer_guarded {l m : Lookup} {place : Place} {v : Value}
    (hn : K.serials l.serial m.serial) (ha : l.address = m.address) (hclear : K.Clear place)
    (h : ∀ c, Keyed.get? l.address env = some c →
      K.Agrees env ask (.about c place v) (.about c (K.origin.join place) v))
    {t t' : Trail} (ht : K.Trails t t') :
    K.SameAnswer t t' (Checker.guarded env ask l place v t)
      (Checker.guarded env ask m (K.origin.join place) v t') := by
  have hentered := ht.enter hn ha place
  simp only [Checker.guarded, ht.mem_iff hn hclear, ← ha]
  split
  · exact .some ⟨rfl, rfl, rfl, K.note (.reentered hn ha) ht.journals⟩
  · cases hl : Keyed.get? l.address env with
    | none =>
      exact .some ⟨rfl, rfl, rfl, K.note (.left hn ha) (K.note .unresolved hentered.journals)⟩
    | some c =>
      have hanswer := h c hl hentered
      simp only [Question.eval] at hanswer ⊢
      generalize ask c place v (t.enter l place) = a at hanswer ⊢
      generalize ask c (K.origin.join place) v (t'.enter m (K.origin.join place)) = a' at hanswer ⊢
      cases hanswer with
      | none => exact Option.Rel.none
      | some hr =>
        obtain ⟨hb, hactive, hactive', hjournals⟩ := hr
        exact Option.Rel.some ⟨hb, congrArg List.tail hactive, congrArg List.tail hactive',
          K.note (.left hn ha) hjournals⟩

/-- One question about corresponding checkers is answered the same, if those about the checkers that
they ask are. -/
theorem sameAnswer_step {c d : Checker} (hcd : K.Matches env R c d)
    (h : ∀ c d, R c d → ∀ place v, K.Clear place →
      K.Agrees env ask (.about c place v) (.about d (K.origin.join place) v))
    {place : Place} (hclear : K.Clear place) (v : Value) {t t' : Trail} (ht : K.Trails t t') :
    K.SameAnswer t t' (Checker.step env (Checker.guarded env ask) ask c place v t)
      (Checker.step env (Checker.guarded env ask) ask d (K.origin.join place) v t') := by
  cases hcd with
  | primitive => exact .some ⟨rfl, ht.continues⟩
  | literal => cases v <;> exact .some ⟨rfl, ht.continues⟩
  | any hall => exact agrees_oneOf (hall.imp fun c d hcd => h c d hcd place v hclear) ht
  | nullable hcd =>
    cases v with
    | null => exact .some ⟨rfl, ht.continues⟩
    | _ => exact h _ _ hcd place _ hclear ht
  | array hcd =>
    cases v with
    | array items => exact agrees_every (fun s v => h _ _ hcd _ v (hclear.child s)) ht
    | _ => exact .some ⟨rfl, ht.continues⟩
  | object hall =>
    cases v with
    | object fields =>
      exact agrees_properties (fun c d hcd s v => h c d hcd _ v (hclear.child s)) hall ht
    | _ => exact .some ⟨rfl, ht.continues⟩
  | reference hn ha hc =>
    exact sameAnswer_guarded hn ha hclear (fun c hl => h c c (hc c hl) place v hclear) ht
  | @watched probe _ _ hcd =>
    have hnoted : K.Continues t t' (t.note (.asked probe v.kind)) (t'.note (.asked probe v.kind)) :=
      ⟨rfl, rfl, K.note .asked ht.journals⟩
    exact SameAnswer.trans hnoted (h _ _ hcd place v hclear (hnoted.trails ht))
  | scripted hanswer =>
    exact .some ⟨hanswer _ _ ht.journals, rfl, rfl, K.note .asked ht.journals⟩

/-- Corresponding checkers answer the same within any bound. -/
theorem agrees_ask (hR : K.Simulates env R) :
    ∀ (n : Nat) (c d : Checker), R c d → ∀ place v, K.Clear place →
      K.Agrees env (Checker.ask env n) (.about c place v) (.about d (K.origin.join place) v)
  | 0, _, _, _ => fun _ _ _ _ _ _ => .none
  | n + 1, c, d, hcd => fun _ v hclear _ _ ht =>
    sameAnswer_step (hR c d hcd) (agrees_ask hR n) hclear v ht

/-- Corresponding checkers answer the same, and both leave in progress what was. -/
theorem checkAt_agrees (hR : K.Simulates env R) {c d : Checker} (hcd : R c d) {place : Place}
    (hclear : K.Clear place) (v : Value) {t t' : Trail} (ht : K.Trails t t') :
    (env.checkAt c place v t).1 = (env.checkAt d (K.origin.join place) v t').1 ∧
      K.Continues t t' (env.checkAt c place v t).2
        (env.checkAt d (K.origin.join place) v t').2 := by
  obtain ⟨n, hn⟩ := (env.ends c place v t).ask_eq
  obtain ⟨m, hm⟩ := (env.ends d (K.origin.join place) v t').ask_eq
  have hanswer := agrees_ask hR (max n m) c d hcd place v hclear ht
  simp only [Question.eval, hn _ (Nat.le_max_left n m), hm _ (Nat.le_max_right n m)] at hanswer
  cases hanswer with
  | some hr => exact hr

end Agrees

end Correspondence

end DataShape
