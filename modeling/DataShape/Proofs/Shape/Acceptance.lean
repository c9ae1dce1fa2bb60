import DataShape.Proofs.Check.Acceptance
import DataShape.Proofs.Check.Isolation
import DataShape.Proofs.Shape.Declarations

/-!
# What the checker of a shape accepts

The properties of an object are asked about in turn, each on the trail that those in front of it
left (`Environment.checkAt_object_append`). So the object is accepted exactly if each of them is
satisfied when its turn comes (`Environment.checkAt_object_iff`), whatever the checkers are. Where
nothing answers or yields by the journal, each is satisfied in its turn if it is in a check by
itself (`Environment.accepts_object_iff`). The properties of a shape are those that
were declared last, under each of the declared keys (`shapes_are_dictionaries`).
-/

namespace DataShape

variable {env : Environment}

/-- The properties in front come first, and if one of them fails the others are not asked about. -/
theorem Question.opens_properties_append (qs : List (DeclaredKey × Property))
    (fields : List (String × Value)) (place : Place) :
    ∀ ps : List (DeclaredKey × Property), Opens env (properties (ps ++ qs) fields place)
      (properties ps fields place) true (properties qs fields place)
  | [] => fun _ _ => rfl
  | (k, p) :: ps => by
    intro ask t
    have hrest := opens_properties_append qs fields place ps ask
    cases hk : Keyed.get? k.name fields with
    | none =>
      rw [List.cons_append, eval_properties_none hk, eval_properties_none hk]
      cases k.isOptional with
      | true => exact hrest t
      | false => rfl
    | some v =>
      rw [List.cons_append, opens_properties hk, opens_properties hk, Option.bind_assoc]
      refine Option.bind_congr fun r _ => ?_
      by_cases hr : r.1 = true
      · rw [if_pos hr, if_pos hr]
        exact hrest r.2
      · rw [if_neg hr, if_neg hr, Option.bind_some, if_neg hr]

theorem Question.eval_properties_singleton {fields : List (String × Value)} {place : Place}
    {k : DeclaredKey} {p : Property} {v : Value} (hk : Keyed.get? k.name fields = some v)
    (ask : Ask) (t : Trail) : (properties [(k, p)] fields place).eval env ask t =
      (property p (place.child (.key k.name)) v).eval env ask t := by
  rw [opens_properties hk]
  rcases (property p (place.child (.key k.name)) v).eval env ask t with _ | ⟨_ | _, t'⟩ <;> rfl

namespace Environment

theorem eval_properties_asking (ps : List (DeclaredKey × Property))
    (fields : List (String × Value)) (place : Place) (t : Trail) :
    (Question.properties ps fields place).eval env env.asking t =
      some (env.checkAt (.object ps) place (.object fields) t) :=
  (env.checkAt_eq_step (.object ps) place (.object fields) t).symm

variable {fields : List (String × Value)} {place : Place} {t : Trail}

theorem checkAt_object_append (ps qs : List (DeclaredKey × Property)) :
    (env.checkAt (.object (ps ++ qs)) place (.object fields) t).1 = true ↔
      (env.checkAt (.object ps) place (.object fields) t).1 = true ∧
        (env.checkAt (.object qs) place (.object fields)
          (env.checkAt (.object ps) place (.object fields) t).2).1 = true := by
  have hopens : Question.Opens env (.properties (ps ++ qs) fields place)
      (.properties ps fields place) true (.properties qs fields place) :=
    Question.opens_properties_append qs fields place ps
  have happend := hopens env.asking t
  simp only [eval_properties_asking, Option.bind_some] at happend
  by_cases hps : (env.checkAt (.object ps) place (.object fields) t).1 = true
  · rw [if_pos hps] at happend
    rw [Option.some.inj happend, and_iff_right hps]
  · rw [if_neg hps] at happend
    rw [Option.some.inj happend]
    exact iff_of_false hps fun h => hps h.1

/-- A single property is satisfied by the rule, with checks that begin once its producer ran. -/
theorem checkAt_object_singleton (k : DeclaredKey) (p : Property) :
    (env.checkAt (.object [(k, p)]) place (.object fields) t).1 = true ↔
      FieldRule (p.yields env t.journal) (fun c w =>
        (env.checkAt c (place.child (.key k.name)) w (t.after p.making)).1 = true) fields k := by
  have hall := env.eval_properties_asking [(k, p)] fields place t
  cases hk : Keyed.get? k.name fields with
  | none =>
    rw [Question.eval_properties_none hk] at hall
    rw [fieldRule_none hk]
    cases ho : k.isOptional <;>
    · rw [ho] at hall
      rw [← Option.some.inj hall]
  | some v =>
    rw [Question.eval_properties_singleton hk, Question.eval, askProperty_eq] at hall
    rw [fieldRule_some hk]
    cases hp : p.yields env t.journal with
    | none =>
      rw [hp] at hall
      rw [← Option.some.inj hall]
      simp
    | some c =>
      rw [hp] at hall
      rw [← Option.some.inj hall]
      simp

/-- Each property is satisfied, with the checker that it yields on the trail that the check of those
in front of it left. -/
def SatisfiedInTurn (env : Environment) (fields : List (String × Value)) (place : Place) (t : Trail)
    (ps : List (DeclaredKey × Property)) : Prop :=
  ∀ pre k p post, ps = pre ++ (k, p) :: post →
    let t' := (env.checkAt (.object pre) place (.object fields) t).2
    FieldRule (p.yields env t'.journal) (fun c w =>
      (env.checkAt c (place.child (.key k.name)) w (t'.after p.making)).1 = true) fields k

theorem checkAt_object_iff_inTurn (ps : List (DeclaredKey × Property)) :
    (env.checkAt (.object ps) place (.object fields) t).1 = true ↔
      env.SatisfiedInTurn fields place t ps := by
  induction ps using List.reverseRecOn with
  | nil =>
    have hall := env.eval_properties_asking [] fields place t
    refine iff_of_true (congrArg Prod.fst (Option.some.inj hall)).symm fun pre k p post heq => ?_
    exact absurd heq.symm (List.append_ne_nil_of_right_ne_nil pre (List.cons_ne_nil _ post))
  | append_singleton ps e ih =>
    obtain ⟨k, p⟩ := e
    rw [checkAt_object_append, checkAt_object_singleton, ih]
    constructor
    · rintro ⟨hps, hp⟩ pre k' p' post heq
      rcases List.eq_nil_or_concat' post with rfl | ⟨post, e, rfl⟩
      · obtain ⟨rfl, hlast⟩ := List.append_inj' heq rfl
        obtain ⟨rfl, rfl⟩ := Prod.mk.inj (List.singleton_inj.1 hlast)
        exact hp
      · rw [← List.cons_append, ← List.append_assoc] at heq
        exact hps pre k' p' post (List.append_inj' heq rfl).1
    · intro h
      refine ⟨fun pre k' p' post heq => h pre k' p' (post ++ [(k, p)]) ?_, h ps k p [] rfl⟩
      rw [heq, List.append_assoc, List.cons_append]

/-- Nothing but an object is accepted, and an object if its properties are satisfied in turn. -/
theorem checkAt_object_iff {ps : List (DeclaredKey × Property)} {v : Value} :
    (env.checkAt (.object ps) place v t).1 = true ↔
      ∃ fields, v = .object fields ∧ env.SatisfiedInTurn fields place t ps := by
  have hstep := env.checkAt_eq_step (.object ps) place v t
  cases v with
  | object fields => simp [checkAt_object_iff_inTurn]
  | _ =>
    rw [Option.some.inj hstep]
    exact iff_of_false Bool.false_ne_true fun ⟨_, heq, _⟩ => nomatch heq

/-- The rule looks at the checker that is yielded only. -/
theorem fieldRule_congr {yielded : Option Checker} {R S : Checker → Value → Prop} {k : DeclaredKey}
    (h : ∀ c, yielded = some c → ∀ w, R c w ↔ S c w) :
    FieldRule yielded R fields k ↔ FieldRule yielded S fields k := by
  refine or_congr_left (exists₂_congr fun w c => and_congr_right fun _ => ?_)
  exact and_congr_right fun hc => h c hc w

/-- The property yields the same each time, and if that is a checker it is a steady one. -/
def SteadyAt (env : Environment) (p : Property) : Prop :=
  p.isFixed = true ∧ ∀ c, p.fixed? env = some c → env.Steady c

/-- If all checkers of the properties are steady, each may be asked by itself. -/
theorem accepts_object_iff {ps : List (DeclaredKey × Property)}
    (hps : ∀ e ∈ ps, env.SteadyAt e.2) {v : Value} :
    env.accepts (.object ps) v = true ↔ ∃ fields, v = .object fields ∧
      ∀ k p, (k, p) ∈ ps →
        FieldRule (p.fixed? env) (fun c w => env.accepts c w = true) fields k := by
  refine checkAt_object_iff.trans (exists_congr fun fields => and_congr_right fun _ => ?_)
  have halone : ∀ (pre : List (DeclaredKey × Property)) k p, (k, p) ∈ ps →
      let t' := (env.checkAt (.object pre) .root (.object fields) .empty).2
      (FieldRule (p.yields env t'.journal) (fun c w =>
          (env.checkAt c (Place.root.child (.key k.name)) w (t'.after p.making)).1 = true)
        fields k ↔ FieldRule (p.fixed? env) (fun c w => env.accepts c w = true) fields k) := by
    intro pre k p hmem t'
    obtain ⟨hfixed, hsteady⟩ := hps _ hmem
    rw [Property.yields_of_isFixed hfixed]
    refine fieldRule_congr fun c hc w => ?_
    obtain ⟨es, htrail, -⟩ := env.settled_checkAt (.object pre) .root (.object fields) .empty
    have hactive : (t'.after p.making).active = [] := congrArg Trail.active htrail
    rw [checkAt_eq_accepts (hsteady c hc) _ _ hactive]
  constructor
  · intro h k p hmem
    obtain ⟨pre, post, heq⟩ := List.append_of_mem hmem
    exact (halone pre k p hmem).1 (h pre k p post heq)
  · intro h pre k p post heq
    have hmem : (k, p) ∈ ps := heq ▸ List.mem_append_right _ List.mem_cons_self
    exact (halone pre k p hmem).2 (h k p hmem)

theorem steady_primitive (p : Primitive) : env.Steady (.primitive p) := by
  refine (everywhere_of_inherited (P := (· = .primitive p)) (fun c d hc hask => ?_) rfl).imp ?_
  · subst hc
    exact nomatch hask
  · rintro _ rfl
    exact ⟨trivial, nofun⟩

theorem accepts_primitive (p : Primitive) (v : Value) :
    env.accepts (.primitive p) v = p.accepts v :=
  congrArg Prod.fst (Option.some.inj (env.checkAt_eq_step (.primitive p) .root v .empty))

end Environment

/-- However a shape is made by collecting pairs and by calls one after the other, it is a dictionary
of what was declared, in the order of the keys. Its checker accepts the objects that have, under
every declared key, the property declared for it last : in turn, if checkers answer or producers
yield by what was asked before, and else each by itself. -/
theorem shapes_are_dictionaries (pairs : List (String × Property)) (calls : List Shape.Call) :
    let s := Shape.build pairs calls
    let ds := Shape.declarations pairs calls
    s.Dictionary ds ∧
    (∀ (env : Environment) place v t, (env.checkAt (.ofShape s) place v t).1 = true ↔
      ∃ fields, v = .object fields ∧ env.SatisfiedInTurn fields place t s.properties) ∧
    ∀ env : Environment,
      (∀ k p, Keyed.LastIn ds k p → env.SteadyAt p) →
        ∀ v, env.accepts (.ofShape s) v = true ↔ ∃ fields, v = .object fields ∧
          ∀ k p, Keyed.LastIn ds k p →
            FieldRule (p.fixed? env) (fun c w => env.accepts c w = true) fields k := by
  intro s ds
  have hdict : s.Dictionary ds := Shape.dictionary_build pairs calls
  refine ⟨hdict, fun env place v t => env.checkAt_object_iff, fun env hsteady v => ?_⟩
  have hps : ∀ e ∈ s.properties, env.SteadyAt e.2 := fun e he =>
    hsteady e.1 e.2 ((hdict.mem_iff e.1 e.2).1 he)
  rw [Checker.ofShape, env.accepts_object_iff hps]
  simp only [hdict.mem_iff]

/-- A key is declared again and keeps its place, and both keys of one property have to hold, so no
object is accepted : what stands under the name would be a boolean and a string. -/
theorem redeclared_key_keeps_place :
    let string := Checker.primitive .string
    let boolean := Checker.primitive .boolean
    let pairs := [("a", Property.direct string)]
    let calls := [Shape.Call.field "b?" boolean, .lazy "a" boolean, .insert "a?" (.direct string)]
    let s := Shape.build pairs calls
    s.keys = [⟨"a"⟩, ⟨"b?"⟩, ⟨"a?"⟩] ∧ s.fields = [("a", false), ("b", true), ("a", true)] ∧
      (s.insert "a" (.barren none)).1 = some (.produced none boolean) ∧
      ∀ v, ¬ Environment.accepts [] (.ofShape s) v = true := by
  intro string boolean pairs calls s
  obtain ⟨hdict, -, haccepts⟩ := shapes_are_dictionaries pairs calls
  have ha : Keyed.LastIn (Shape.declarations pairs calls) ⟨"a"⟩ (.produced none boolean) :=
    ⟨[_, _], [_], rfl, by decide⟩
  have hiff := haccepts [] fun k p hlast => by
    have hmem := hlast.mem
    simp only [Shape.declarations, pairs, calls, List.map_cons, List.map_nil, List.cons_append,
      List.nil_append, List.mem_cons, List.not_mem_nil, or_false, Prod.mk.injEq] at hmem
    rcases hmem with ⟨-, rfl⟩ | ⟨-, rfl⟩ | ⟨-, rfl⟩ | ⟨-, rfl⟩ <;>
    · refine ⟨rfl, fun c hc => ?_⟩
      obtain rfl := Option.some.inj hc
      exact Environment.steady_primitive _
  refine ⟨by decide, by decide, (hdict.insert_some "a" _ _).2 ha, fun v hv => ?_⟩
  obtain ⟨fields, -, hrule⟩ := (hiff v).1 hv
  have hname : DeclaredKey.name ⟨"a?"⟩ = DeclaredKey.name ⟨"a"⟩ := by decide
  rcases hrule ⟨"a"⟩ (.produced none boolean) ha with ⟨w, c, hw, hc, hbool⟩ | ⟨-, hoptional⟩
  · obtain rfl := Option.some.inj hc
    rcases hrule ⟨"a?"⟩ (.direct string) ⟨[_, _, _], [], rfl, List.not_mem_nil⟩ with
      ⟨w', c', hw', hc', hstring⟩ | ⟨hnone, -⟩
    · obtain rfl := Option.some.inj hc'
      rw [hname, hw] at hw'
      obtain rfl := Option.some.inj hw'
      rw [Environment.accepts_primitive] at hbool hstring
      cases w with
      | bool b => exact nomatch hstring
      | _ => exact nomatch hbool
    · rw [hname, hw] at hnone
      exact nomatch hnone
  · exact absurd hoptional (by decide)

end DataShape
