import DataShape.Proofs.Check.Correspondence
import DataShape.Proofs.Check.Observation

/-!
# Checks by themselves

A check leaves in progress what was when it began, and it looks only for references that are in
progress about its value or a part of it. So where there are none of these, it goes as if nothing
was in progress : the same answer is given and the same events happen
(`Environment.checkAt_of_clearFrom`).

Only scripted checkers and producers read the journal. A checker that leads to none of them
(`Environment.Steady`) answers the same whatever happened before, and wherever the value stands :
the check of a part of a value, with no reference in progress, answers as the check of that part by
itself does (`Environment.checkAt_eq_accepts`). Checks that ran earlier leave events in the journal
and nothing in progress (`Trail.active_through`), so no check depends on them.

All of this is one check seen in another (`Correspondence`), with each checker in the place of
itself.

Main statement : `checks_isolated`.
-/

namespace DataShape

open Relation

/-- No checker that may be asked answers by the journal, and no producer that may run yields by
it. -/
def Environment.Steady (env : Environment) : Checker → Prop :=
  env.Everywhere fun c => c.IsFixed ∧ ∀ probe answer, c ≠ .scripted probe answer

namespace Correspondence

/-- The same check where more is in progress. -/
def above (below : Stack) : Correspondence where
  serials := Eq
  origin := .root
  below := below
  journals := Eq
  one_to_one h h' := by rw [h, h']
  note he hj := by
    rw [hj]
    refine congrArg (· :: _) ?_
    cases he with
    | asked | made | unresolved => rfl
    | @entered l m _ h ha | @left l m _ h ha | @reentered l m _ h ha =>
      obtain rfl : l = m := by
        cases l
        cases m
        exact Lookup.mk.injEq .. ▸ ⟨h, ha⟩
      rw [Place.root_join]

/-- The check of a value that stands elsewhere, where more is in progress and anything may have
happened. -/
def elsewhere (origin : Place) (below : Stack) : Correspondence where
  serials := Eq
  origin := origin
  below := below
  journals _ _ := True
  one_to_one h h' := by rw [h, h']
  note _ _ := trivial

/-- A checker stands for itself if those that it asks do. -/
theorem matches_self {K : Correspondence} {env : Environment} {R : Checker → Checker → Prop}
    {c : Checker} (hserials : ∀ l, c = .reference l → K.serials l.serial l.serial)
    (hR : ∀ d, Asks env c d → R d d)
    (hyields : ∀ ps, c = .object ps → ∀ e ∈ ps, ∀ j j', K.journals j j' →
      e.2.yields env j = e.2.yields env j')
    (hscripted : ∀ probe answer, c = .scripted probe answer →
      ∀ j j', K.journals j j' → answer j = answer j') : K.Matches env R c c := by
  cases c with
  | primitive p => exact .primitive
  | literal s => exact .literal
  | any cs => exact .any (List.forall₂_same.2 fun d hd => hR d (.any hd))
  | nullable d => exact .nullable (hR d .nullable)
  | array d => exact .array (hR d .array)
  | object ps =>
    refine .object (List.forall₂_same.2 fun e he => ⟨rfl, fun j j' hj => ?_, rfl, rfl⟩)
    rw [← hyields ps rfl e he j j' hj]
    cases hd : e.2.yields env j with
    | none => exact .none
    | some d => exact .some (hR d (.object he hd))
  | reference l => exact .reference (hserials l rfl) rfl fun d hd => hR d (.reference hd)
  | watched probe d => exact .watched (hR d .watched)
  | scripted probe answer => exact .scripted (hscripted probe answer rfl)

theorem simulates_above (below : Stack) (env : Environment) : (above below).Simulates env Eq := by
  rintro c d rfl
  exact matches_self (fun _ _ => rfl) (fun _ _ => rfl)
    (fun _ _ e _ _ _ hj => congrArg (e.2.yields env ·) hj)
    fun _ answer _ _ _ hj => congrArg answer hj

theorem simulates_elsewhere (origin : Place) (below : Stack) (env : Environment) :
    (elsewhere origin below).Simulates env fun c d => c = d ∧ env.Steady c := by
  rintro c d ⟨rfl, hc⟩
  refine matches_self (fun _ _ => rfl)
    (fun d hd => ⟨rfl, Environment.inherited_everywhere hc hd⟩) ?_ ?_
  · rintro ps rfl e he j j' -
    have hfixed : e.2.isFixed = true := hc.here.1 e he
    rw [Property.yields_of_isFixed hfixed, Property.yields_of_isFixed hfixed]
  · exact fun probe answer heq => absurd heq (hc.here.2 probe answer)

end Correspondence

namespace Environment

variable {env : Environment} {c : Checker} {place : Place}

/-- A steady checker answers the same wherever the value stands and whatever happened before. What
is in progress besides has to be about other places. -/
theorem checkAt_eq_of_steady (hc : env.Steady c) {origin : Place} {below : Stack}
    (hclear : below.ClearFrom (origin.join place)) (v : Value) {t t' : Trail} (ht : t.active = [])
    (ht' : t'.active = below) :
    (env.checkAt c (origin.join place) v t').1 = (env.checkAt c place v t).1 := by
  refine (Correspondence.checkAt_agrees (Correspondence.simulates_elsewhere origin below env)
    ⟨rfl, hc⟩ hclear v ⟨⟨[], ?_, ?_⟩, trivial⟩).1.symm
  · exact ht'
  · rw [ht]
    exact .nil

/-- With no reference in progress a steady checker answers as it does in a check of its own. -/
theorem checkAt_eq_accepts (hc : env.Steady c) (place : Place) (v : Value) {t : Trail}
    (ht : t.active = []) : (env.checkAt c place v t).1 = env.accepts c v := by
  have hclear : Stack.ClearFrom [] (place.join .root) := fun e he => nomatch he
  have hanswer := checkAt_eq_of_steady hc hclear v (t := .empty) rfl ht
  rwa [Place.join_root] at hanswer

/-- What is in progress about other places makes no difference. -/
theorem checkAt_of_clearFrom (env : Environment) (c : Checker) (v : Value) {stack : Stack}
    (hclear : stack.ClearFrom place) (j : List Event) :
    (env.checkAt c place v ⟨stack, j⟩).1 = (env.checkAt c place v ⟨[], j⟩).1 ∧
      (env.checkAt c place v ⟨stack, j⟩).2.journal =
        (env.checkAt c place v ⟨[], j⟩).2.journal := by
  have hplace : (Correspondence.above stack).Clear place := by
    rwa [Correspondence.Clear, Correspondence.above, Place.root_join]
  have htrails : (Correspondence.above stack).Trails ⟨[], j⟩ ⟨stack, j⟩ :=
    ⟨⟨[], rfl, .nil⟩, rfl⟩
  obtain ⟨hanswer, -, -, hjournals⟩ := Correspondence.checkAt_agrees
    (Correspondence.simulates_above stack env) rfl hplace v htrails
  rw [Correspondence.above, Place.root_join] at hanswer hjournals
  exact ⟨hanswer.symm, hjournals.symm⟩

end Environment

/-! ## Earlier checks -/

/-- A check with all that it depends on but the trail. -/
structure Inquiry where
  environment : Environment
  checker : Checker
  place : Place
  value : Value

/-- The trail after these checks in turn. -/
def Trail.through (earlier : List Inquiry) (t : Trail) : Trail :=
  earlier.foldl (fun t q => (q.environment.checkAt q.checker q.place q.value t).2) t

/-- Checks leave in progress what was when they began. -/
theorem Trail.active_through (earlier : List Inquiry) (t : Trail) :
    (t.through earlier).active = t.active := by
  induction earlier generalizing t with
  | nil => rfl
  | cons q earlier ih =>
    obtain ⟨es, htrail, -⟩ := q.environment.settled_checkAt q.checker q.place q.value t
    exact (ih _).trans ((congrArg active htrail).trans (active_after t es))

/-- A check ends with what was in progress when it began, whatever its answer and whether references
were turned away. If none of that is about the value or a part of it, the check goes as it does with
nothing in progress. So earlier checks make no difference to its answer, unless a checker is asked
that answers by the journal or a producer runs that yields by it. -/
theorem checks_isolated (env : Environment) (c : Checker) (place : Place) (v : Value)
    (stack : Stack) (j : List Event) :
    ∃ answer es,
      env.Ends c place v ⟨stack, j⟩ (answer, ⟨stack, es ++ j⟩) ∧
      (stack.ClearFrom place → env.checkAt c place v ⟨[], j⟩ = (answer, ⟨[], es ++ j⟩)) ∧
      ∀ earlier : List Inquiry, (Trail.through earlier ⟨stack, j⟩).active = stack ∧
        (stack.ClearFrom place → env.Steady c →
          (env.checkAt c place v (Trail.through earlier ⟨stack, j⟩)).1 = answer) := by
  obtain ⟨es, htrail, -⟩ := env.settled_checkAt c place v ⟨stack, j⟩
  have hchecked : env.checkAt c place v ⟨stack, j⟩ =
      ((env.checkAt c place v ⟨stack, j⟩).1, ⟨stack, es ++ j⟩) := Prod.ext rfl htrail
  refine ⟨(env.checkAt c place v ⟨stack, j⟩).1, es, hchecked ▸ env.ends c place v ⟨stack, j⟩,
    fun hclear => ?_, fun earlier => ⟨Trail.active_through earlier _, fun hclear hc => ?_⟩⟩
  · obtain ⟨hanswer, hjournal⟩ := env.checkAt_of_clearFrom c v hclear j
    obtain ⟨fs, htrail', -⟩ := env.settled_checkAt c place v ⟨[], j⟩
    rw [htrail, htrail'] at hjournal
    obtain rfl := List.append_cancel_right hjournal
    exact Prod.ext hanswer.symm htrail'
  · have hclear' : stack.ClearFrom (Place.root.join place) := by rwa [Place.root_join]
    have hactive : (Trail.mk stack j).active = stack := rfl
    have hearlier := env.checkAt_eq_of_steady hc hclear' v (t := .empty) rfl
      (Trail.active_through earlier ⟨stack, j⟩)
    have hfirst := env.checkAt_eq_of_steady hc hclear' v (t := .empty) rfl hactive
    rw [Place.root_join] at hearlier hfirst
    exact hearlier.trans hfirst.symm

/-- A reference that asks itself is in progress about a whole object when a field of it is checked,
after an earlier check of the object was turned away. -/
theorem field_checked_in_progress :
    let l : Lookup := ⟨1, .entry 0 "loop"⟩
    let env : Environment := [(.entry 0 "loop", .reference l)]
    let c := Checker.any [.reference l, .primitive .null]
    let field := Place.root.child (.key "a")
    let whole := Value.object [("a", .null)]
    let stack : Stack := [(1, .root)]
    stack.ClearFrom field ∧ env.Steady c ∧
      (env.checkAt (.reference l) .root whole ⟨[], []⟩).1 = false ∧
      (env.checkAt c field .null (Trail.through [⟨env, .reference l, .root, whole⟩]
        ⟨stack, []⟩)).1 = true := by
  intro l env c field whole stack
  have hclear : stack.ClearFrom field := by
    rintro e he hcovers
    obtain rfl := List.mem_singleton.1 he
    exact Place.not_child_covers .root (.key "a") hcovers
  have hsteady : env.Steady c := by
    have hinherited : Inherited env fun d => d = c ∨ d = .reference l ∨ d = .primitive .null := by
      rintro d e (heq | rfl | rfl) hask
      · rw [heq, show c = .any [_, _] from rfl] at hask
        cases hask with
        | any hmem => exact Or.inr (by simpa using hmem)
      · cases hask with
        | reference hfound => exact Or.inr (Or.inl (Option.some.inj hfound).symm)
      · exact nomatch hask
    refine (Environment.everywhere_of_inherited hinherited (Or.inl rfl)).imp fun d hd => ?_
    rcases hd with rfl | rfl | rfl <;> exact ⟨trivial, by simp [c]⟩
  obtain ⟨answer, es, -, hempty, hearlier⟩ := checks_isolated env c field .null stack []
  have hanswer : true = answer := by
    have hchecked : (env.checkAt c field .null ⟨[], []⟩).1 = true := by decide
    rw [← hchecked, hempty hclear]
  exact ⟨hclear, hsteady, by decide, ((hearlier _).2 hclear hsteady).trans hanswer.symm⟩

end DataShape
