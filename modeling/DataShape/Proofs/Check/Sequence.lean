import DataShape.Proofs.Check.Observation
import DataShape.Proofs.Check.Plan
import DataShape.Proofs.Shape.Declarations

/-!
# The order of questions

What a checker without references may have to ask about a value is a plan
(`Environment.plan`). A union has its alternatives in turn as long as they reject, an
array its items and an object its declared properties as long as they are accepted. A
field that is not there leaves nothing to ask, nor does a value of another kind, and the
producer of a deferred property is noted right before what the checker it yields asks. If
it yields by the journal, the plan goes on with any checker that it may yield.

A check is a run of the plan (`Settles.runs`). So it asks what is due, in the order of
the plan, whatever the instruments in it answer and the producers yield, and be it that
they go by all that was asked before (`check_in_turn`).
-/

namespace DataShape

open Relation

/-- Some events noted first, the latest of them in front of the list. -/
def Plan.noting (es : List Event) (p : Plan) : Plan :=
  es.foldl (fun p e => .notes e p) p

theorem Plan.Runs.noting {p : Plan} {j : List Event} {b : Bool} :
    ∀ {es fs : List Event}, p.Runs (es ++ j) b fs → (p.noting es).Runs j b (fs ++ es)
  | [], fs, h => by rwa [List.append_nil]
  | e :: es, fs, h => by
    have hrest : (Plan.notes e p).Runs (es ++ j) b (fs ++ [e]) := h.notes
    have hall := hrest.noting
    rwa [List.append_assoc] at hall

namespace Environment

/-- What a checker may have to ask about a value, references apart. -/
def plan (env : Environment) (c : Checker) (v : Value) : Plan :=
  match c with
  | .primitive p => .settled (p.accepts v)
  | .literal expected =>
    match v with
    | .string s => .settled (s == expected)
    | _ => .settled false
  | .any cs => .inTurn false (cs.map fun c => env.plan c v)
  | .nullable c =>
    match v with
    | .null => .settled true
    | v => env.plan c v
  | .array c =>
    match v with
    | .array items => .inTurn true (items.map fun w => env.plan c w)
    | _ => .settled false
  | .object ps =>
    match v with
    | .object fields => .inTurn true (ps.map fun e =>
      match _hw : Keyed.get? e.1.name fields with
      | none => .settled e.1.isOptional
      | some w =>
        match e.2 with
        | .scripted probe yield => .makes (.made probe.label) yield fun
          | none => .settled false
          | some c => env.plan c w
        | p =>
          match p.fixed? env with
          | none => .noting p.failing (.settled false)
          | some c => .noting p.making (env.plan c w))
    | _ => .settled false
  | .reference _ => .settled false
  | .watched probe c => .notes (.asked probe v.kind) (env.plan c v)
  | .scripted probe answer => .asks (.asked probe v.kind) answer
termination_by (v.depth, c.size)
decreasing_by
  · rename_i hc
    exact Prod.Lex.right _ (Nat.lt_succ_of_le (Checker.size_le_sizeAll hc))
  · exact Prod.Lex.right _ (Nat.lt_succ_self _)
  · rename_i hw
    exact Prod.Lex.left _ _ (Nat.lt_succ_of_le (Value.depth_le_depthItems hw))
  · have hmem := Keyed.mem_of_get? _hw
    exact Prod.Lex.left _ _ (Nat.lt_succ_of_le (Value.depth_le_depthFields hmem))
  · have hmem := Keyed.mem_of_get? _hw
    exact Prod.Lex.left _ _ (Nat.lt_succ_of_le (Value.depth_le_depthFields hmem))
  · exact Prod.Lex.right _ (Nat.lt_succ_self _)

/-- What is asked about a field that is there. -/
def fieldPlan (env : Environment) (p : Property) (w : Value) : Plan :=
  match p with
  | .scripted probe yield => .makes (.made probe.label) yield fun
    | none => .settled false
    | some c => env.plan c w
  | p =>
    match p.fixed? env with
    | none => .noting p.failing (.settled false)
    | some c => .noting p.making (env.plan c w)

/-- What is asked for a declared property. -/
def entryPlan (env : Environment) (fields : List (String × Value)) (e : DeclaredKey × Property) :
    Plan :=
  match Keyed.get? e.1.name fields with
  | none => .settled e.1.isOptional
  | some w => env.fieldPlan e.2 w

variable {env : Environment} {v : Value}

theorem entryPlan_none {fields : List (String × Value)} {k : DeclaredKey} {p : Property}
    (hk : Keyed.get? k.name fields = none) :
    env.entryPlan fields (k, p) = .settled k.isOptional := by
  rw [entryPlan, hk]

theorem entryPlan_some {fields : List (String × Value)} {k : DeclaredKey} {p : Property} {w : Value}
    (hk : Keyed.get? k.name fields = some w) :
    env.entryPlan fields (k, p) = env.fieldPlan p w := by
  rw [entryPlan, hk]

theorem fieldPlan_of_isFixed {p : Property} (hp : p.isFixed = true) (w : Value) :
    env.fieldPlan p w =
      match p.fixed? env with
      | none => .noting p.failing (.settled false)
      | some c => .noting p.making (env.plan c w) := by
  cases p with
  | scripted probe yield => exact nomatch hp
  | _ => rfl

theorem plan_of_atSight {c : Checker} {b : Bool} (h : c.atSight v = some b) :
    env.plan c v = .settled b := by
  rw [plan.eq_def]
  cases c with
  | primitive p =>
    obtain rfl := Option.some.inj h
    rfl
  | any cs | reference l | watched probe c | scripted probe answer => exact nomatch h
  | literal expected =>
    cases v <;>
    · obtain rfl := Option.some.inj h
      rfl
  | nullable c =>
    cases v with
    | null =>
      obtain rfl := Option.some.inj h
      rfl
    | _ => exact nomatch h
  | array c =>
    cases v with
    | array items => exact nomatch h
    | _ =>
      obtain rfl := Option.some.inj h
      rfl
  | object ps =>
    cases v with
    | object fields => exact nomatch h
    | _ =>
      obtain rfl := Option.some.inj h
      rfl

theorem plan_any (cs : List Checker) :
    env.plan (.any cs) v = .inTurn false (cs.map fun c => env.plan c v) := by
  rw [plan]

theorem plan_nullable {c : Checker} (hv : v ≠ .null) :
    env.plan (.nullable c) v = env.plan c v := by
  rw [plan]
  exact hv

theorem plan_array (c : Checker) (items : List Value) :
    env.plan (.array c) (.array items) = .inTurn true (items.map fun w => env.plan c w) := by
  rw [plan]

theorem plan_object (ps : List (DeclaredKey × Property)) (fields : List (String × Value)) :
    env.plan (.object ps) (.object fields) = .inTurn true (ps.map (env.entryPlan fields)) := by
  rw [plan]
  refine congrArg _ (List.map_congr_left fun e _ => ?_)
  obtain ⟨k, p⟩ := e
  cases hk : Keyed.get? k.name fields with
  | none => rw [entryPlan_none hk]
  | some w =>
    rw [entryPlan_some hk]
    cases p <;> rfl

theorem plan_watched (probe : Probe) (c : Checker) :
    env.plan (.watched probe c) v = .notes (.asked probe v.kind) (env.plan c v) := by
  rw [plan]

theorem plan_scripted (probe : Probe) (answer : List Event → Bool) :
    env.plan (.scripted probe answer) v = .asks (.asked probe v.kind) answer := by
  rw [plan]

end Environment

/-! ## Checks are runs -/

/-- No reference is asked, however far the checker leads. -/
def Environment.Free (env : Environment) : Checker → Prop :=
  env.Everywhere fun c => ∀ l, c ≠ .reference l

/-- What is asked about a field that is there, for what its property yields. -/
theorem Environment.runs_fieldPlan {env : Environment} {p : Property} {w : Value} {j : List Event}
    {b : Bool} {es : List Event}
    (hnone : p.yields env j = none → b = false ∧ es = p.failing)
    (hsome : ∀ c, p.yields env j = some c →
      ∃ fs, (env.plan c w).Runs (p.making ++ j) b fs ∧ es = fs ++ p.making) :
    (env.fieldPlan p w).Runs j b es := by
  by_cases hp : p.isFixed = true
  · rw [fieldPlan_of_isFixed hp]
    rw [Property.yields_of_isFixed hp] at hnone hsome
    cases hc : p.fixed? env with
    | none =>
      obtain ⟨rfl, rfl⟩ := hnone hc
      exact Plan.runs_settled.noting
    | some c =>
      obtain ⟨fs, hruns, rfl⟩ := hsome c hc
      exact hruns.noting
  · cases p with
    | scripted probe yield =>
      cases hc : yield j with
      | none =>
        obtain ⟨rfl, rfl⟩ := hnone hc
        refine (Plan.Runs.makes ?_ : Plan.Runs _ j false ([] ++ [.made probe.label]))
        rw [hc]
        exact Plan.runs_settled
      | some c =>
        obtain ⟨fs, hruns, rfl⟩ := hsome c hc
        refine Plan.Runs.makes ?_
        rw [hc]
        exact hruns
    | _ => exact absurd rfl hp

namespace Question

/-- What is asked to answer a question. -/
def plan (env : Environment) : Question → Plan
  | about c _ v => env.plan c v
  | oneOf cs _ v => .inTurn false (cs.map fun c => env.plan c v)
  | every c _ vs _ => .inTurn true (vs.map fun w => env.plan c w)
  | property p _ v => env.fieldPlan p v
  | properties ps fields _ => .inTurn true (ps.map (env.entryPlan fields))

end Question

/-- The questions are asked and answered as planned. -/
theorem Settles.runs {env : Environment} {q : Question} {t : Trail} {b : Bool} {es : List Event}
    (h : Settles env q t b es) (hq : q.All env env.Free) : (q.plan env).Runs t.journal b es := by
  have hasked : Inherited env env.Free := Environment.inherited_everywhere
  induction h with
  | atSight h =>
    rw [Question.plan, Environment.plan_of_atSight h]
    exact Plan.runs_settled
  | any _ ih =>
    rw [Question.plan, Environment.plan_any]
    exact ih fun c hc => hasked hq (.any hc)
  | nullable hv _ ih =>
    rw [Question.plan, Environment.plan_nullable hv]
    exact ih (hasked hq .nullable)
  | array _ ih =>
    rw [Question.plan, Environment.plan_array]
    exact ih (hasked hq .array)
  | object _ ih =>
    rw [Question.plan, Environment.plan_object]
    exact ih fun e he j c hc => hasked hq (.object he hc)
  | watched _ ih =>
    rw [Question.plan, Environment.plan_watched]
    exact (ih (hasked hq .watched)).notes
  | scripted =>
    rw [Question.plan, Environment.plan_scripted]
    exact Plan.runs_asks
  | reentered _ | unresolved _ _ | resolved _ _ _ _ => exact absurd rfl (hq.here _)
  | oneOf_nil | every_nil | properties_nil => exact Plan.runs_nil
  | oneOf_accepted _ ih =>
    have hfirst := ih (hq _ List.mem_cons_self)
    exact hfirst.stop
  | oneOf_next _ _ ih ihs =>
    obtain ⟨hc, hcs⟩ := List.forall_mem_cons.1 hq
    exact (ih hc).next (ihs hcs)
  | every_rejected _ ih =>
    have hfirst := ih hq
    exact hfirst.stop
  | every_next _ _ ih ihs => exact (ih hq).next (ihs hq)
  | yielded hp _ ih =>
    refine Environment.runs_fieldPlan (fun h => nomatch hp.symm.trans h) fun d hd => ?_
    obtain rfl := Option.some.inj (hp.symm.trans hd)
    exact ⟨_, ih (hq _ _ hp), rfl⟩
  | failing hp =>
    exact Environment.runs_fieldPlan (fun _ => ⟨rfl, rfl⟩) fun c hc => nomatch hp.symm.trans hc
  -- A property that is not there has its answer already.
  | properties_missing hk ho =>
    rw [Question.plan, List.map_cons, Environment.entryPlan_none hk, ho]
    exact Plan.runs_settled.stop
  | properties_absent hk ho _ ih =>
    rw [Question.plan, List.map_cons, Environment.entryPlan_none hk, ho]
    have hrest := Plan.runs_settled.next (ih (List.forall_mem_cons.1 hq).2)
    rwa [List.append_nil] at hrest
  | properties_rejected hk _ ih =>
    rw [Question.plan, List.map_cons, Environment.entryPlan_some hk]
    have hfirst := ih (List.forall_mem_cons.1 hq).1
    exact hfirst.stop
  | properties_next hk _ _ ih ihs =>
    obtain ⟨hp, hps⟩ := List.forall_mem_cons.1 hq
    rw [Question.plan, List.map_cons, Environment.entryPlan_some hk]
    exact (ih hp).next (ihs hps)

/-- A check without references goes through the plan of the checker. What happens is what is due
there, in the order of the plan, each instrument answers and each producer yields by all that
happened before, and the answer of the check is the value of the plan for these answers. Other
answers where nothing is asked would make no difference. The properties of an object come in the
order of their first declaration. -/
theorem check_in_turn (s : Session) {c : Checker} (hc : s.environment.Free c) (v : Value) :
    let p := s.environment.plan c v
    (∃ α : Answers, Plan.Answered α s.journal (p.log α) ∧
      s.check c v = ((p.value α, (p.log α).map Visit.event),
        { s with journal := ((p.log α).map Visit.event).reverse ++ s.journal }) ∧
      ∀ β : Answers, Plan.Agree α β (p.log α) →
        p.value β = p.value α ∧ p.log β = p.log α) ∧
    ∀ ps, (Shape.ofList ps).keys = (ps.map fun p => DeclaredKey.mk p.1).eraseDups := by
  intro p
  obtain ⟨es, ht, hs⟩ := s.environment.settled_checkAt c .root v ⟨[], s.journal⟩
  obtain ⟨α, hanswered, hvalue, hes⟩ := hs.runs hc
  refine ⟨⟨α, hanswered, ?_, fun β h => Plan.value_eq_of_agree p h⟩, Shape.keys_ofList⟩
  have hcheck : s.environment.check c v ⟨[], s.journal⟩ = (p.value α, ⟨[], es ++ s.journal⟩) :=
    Prod.ext hvalue.symm ht
  have hevents : (p.log α).map Visit.event = es.reverse := List.reverse_eq_iff.1 hes
  simp [Session.check, hcheck, hevents]

/-- One leaf stands in several places and answers by how often it was asked. One producer stands in
two places and yields first a union and then an array. The leaf is not asked about null, nor for the
property that is not there, the producer of which does not run, nor for the last property, as the
second item was rejected. -/
theorem shared_leaf_in_turn :
    let probe : Probe := ⟨7, "leaf"⟩
    let leaf := Session.script probe [false, true, false]
    let maker := Property.scripted ⟨8, "maker"⟩ fun j =>
      if .made "maker" ∈ j then some (.array (.nullable leaf)) else some (.any [leaf, leaf])
    let c := Checker.object [(⟨"a"⟩, maker), (⟨"b?"⟩, .produced (some "b") leaf), (⟨"c"⟩, maker),
      (⟨"d"⟩, .found (some "d") (.slot "leaf"))]
    let s : Session := ⟨.empty, [("leaf", leaf)], []⟩
    let v := Value.object [("a", .bool true), ("c", .array [.null, .string ""]), ("d", .null)]
    let p := s.environment.plan c v
    s.environment.Free c ∧ ∃ α : Answers, Plan.Answered α [] (p.log α) ∧ p.value α = false ∧
      (p.log α).map Visit.event = [.made "maker", .asked probe .boolean, .asked probe .boolean,
        .made "maker", .asked probe .string] := by
  intro probe leaf maker c s v p
  have hinherited : Inherited s.environment fun d => d = leaf ∨ d = .nullable leaf ∨
      d = .array (.nullable leaf) ∨ d = .any [leaf, leaf] ∨ d = c := by
    have hmaker : ∀ {env : Environment} {j e}, maker.yields env j = some e →
        e = .array (.nullable leaf) ∨ e = .any [leaf, leaf] := by
      intro env j e he
      simp only [maker, Property.yields] at he
      split at he
      · exact Or.inl (Option.some.inj he).symm
      · exact Or.inr (Option.some.inj he).symm
    rintro d e (rfl | rfl | rfl | rfl | rfl) hask
    · rw [show leaf = .scripted _ _ from rfl] at hask
      cases hask
    · cases hask
      exact Or.inl rfl
    · cases hask
      exact Or.inr (Or.inl rfl)
    · cases hask with
      | any hmem => exact Or.inl (by simpa using hmem)
    · rw [show c = .object [_, _, _, _] from rfl] at hask
      cases hask with
      | object hmem hp =>
        simp only [List.mem_cons, List.not_mem_nil, or_false, Prod.mk.injEq] at hmem
        rcases hmem with ⟨-, rfl⟩ | ⟨-, rfl⟩ | ⟨-, rfl⟩ | ⟨-, rfl⟩
        · exact Or.inr (Or.inr ((hmaker hp).imp_right Or.inl))
        · exact Or.inl (Option.some.inj hp).symm
        · exact Or.inr (Or.inr ((hmaker hp).imp_right Or.inl))
        · exact Or.inl (Option.some.inj hp).symm
  have hfree : s.environment.Free c := by
    refine (Environment.everywhere_of_inherited hinherited (by simp)).imp ?_
    rintro d (rfl | rfl | rfl | rfl | rfl) l <;> simp [leaf, c, Session.script]
  obtain ⟨⟨α, hanswered, hcheck, -⟩, -⟩ := check_in_turn s hfree v
  have hrun : (s.check c v).1 = (false, [.made "maker", .asked probe .boolean,
      .asked probe .boolean, .made "maker", .asked probe .string]) := by decide
  rw [hcheck] at hrun
  obtain ⟨hvalue, hlog⟩ := Prod.mk.inj hrun
  exact ⟨hfree, α, hanswered, hvalue, hlog⟩

end DataShape
