import DataShape.Proofs.Check.Question

/-!
# Answers by one bound

The bounds of a check start again on each level of the value, since a producer may
yield any checker. With one bound for all questions (`Checker.ask`) no question says
in advance how large it has to be. But what the rules lead to is the answer by every
bound that is large enough (`Settles.answeredInTime`), by induction on the rules : a
question is answered by the larger of the bounds of its parts.

So the rules lead to one answer only (`Settles.unique`), and two recursions that go by
the rules have the same answers.
-/

namespace DataShape

namespace Checker

/-- Asks a checker, with at most `n` questions open at once. -/
def ask (env : Environment) : Nat → Ask
  | 0 => fun _ _ _ _ => none
  | n + 1 => step env (guarded env (ask env n)) (ask env n)

end Checker

variable {env : Environment}

theorem faithful_ask : ∀ n : Nat, Faithful env (Checker.ask env n)
  | 0 => fun _ _ _ _ _ h => nomatch h
  | n + 1 => faithful_step (faithful_ask n)

theorem step_of_atSight {refer : Refer} {ask : Ask} {c : Checker} {place : Place} {v : Value}
    {t : Trail} {b : Bool} (h : c.atSight v = some b) :
    Checker.step env refer ask c place v t = some (b, t) := by
  cases c with
  | primitive p =>
    obtain rfl := Option.some.inj h
    rfl
  | literal expected | nullable c | array c | object ps =>
    cases v <;> simp_all [Checker.atSight, Checker.step]
  | any cs | reference l | watched probe c | scripted probe answer => exact nomatch h

/-- The question is answered so by any bound that is large enough. -/
def AnsweredInTime (env : Environment) (q : Question) (t : Trail) (r : Bool × Trail) : Prop :=
  ∃ n, ∀ m, n ≤ m → q.eval env (Checker.ask env m) t = some r

/-- A checker is answered if its one step is, with the bound less one. -/
theorem answeredInTime_about {c : Checker} {place : Place} {v : Value} {t : Trail}
    {r : Bool × Trail} (h : ∃ n, ∀ m, n ≤ m →
      Checker.step env (Checker.guarded env (Checker.ask env m)) (Checker.ask env m) c place v t =
        some r) : AnsweredInTime env (.about c place v) t r := by
  obtain ⟨n, hn⟩ := h
  refine ⟨n + 1, fun m hm => ?_⟩
  obtain ⟨m, rfl⟩ : ∃ k, m = k + 1 := ⟨m - 1, by omega⟩
  exact hn m (Nat.le_of_succ_le_succ hm)

section Opens

variable {q first rest : Question} {goOn b : Bool} {t t' : Trail} {r : Bool × Trail}

theorem AnsweredInTime.of_first (hq : Question.Opens env q first goOn rest) (hb : b ≠ goOn)
    (h : AnsweredInTime env first t (b, t')) : AnsweredInTime env q t (b, t') := by
  obtain ⟨n, hn⟩ := h
  exact ⟨n, fun m hm => hq.eval_eq_some.2 (Or.inr ⟨hb, hn m hm⟩)⟩

theorem AnsweredInTime.of_rest (hq : Question.Opens env q first goOn rest)
    (h : AnsweredInTime env first t (goOn, t')) (hs : AnsweredInTime env rest t' r) :
    AnsweredInTime env q t r := by
  obtain ⟨n, hn⟩ := h
  obtain ⟨k, hk⟩ := hs
  refine ⟨max n k, fun m hm => hq.eval_eq_some.2 (Or.inl ⟨t', ?_, ?_⟩)⟩
  · exact hn m (Nat.le_trans (Nat.le_max_left ..) hm)
  · exact hk m (Nat.le_trans (Nat.le_max_right ..) hm)

end Opens

/-- What the rules lead to is the answer. -/
theorem Settles.answeredInTime {q : Question} {t : Trail} {b : Bool} {es : List Event}
    (h : Settles env q t b es) : AnsweredInTime env q t (b, t.after es) := by
  induction h with
  | atSight h => exact answeredInTime_about ⟨0, fun _ _ => step_of_atSight h⟩
  | any _ ih | array _ ih | object _ ih => exact answeredInTime_about ih
  | @nullable c place v _ _ _ hv _ ih =>
    refine answeredInTime_about ?_
    cases v with
    | null => exact absurd rfl hv
    | _ => exact ih
  | watched _ ih =>
    rw [Trail.after_after] at ih
    exact answeredInTime_about ih
  | scripted => exact answeredInTime_about ⟨0, fun _ _ => rfl⟩
  | reentered h => exact answeredInTime_about ⟨0, fun _ _ => if_pos h⟩
  | unresolved h hl =>
    refine answeredInTime_about ⟨0, fun _ _ => ?_⟩
    simp [Checker.step, Checker.guarded, h, hl, Trail.enter, Trail.note, Trail.leave, Trail.after]
  | resolved h hl _ ih =>
    obtain ⟨n, hn⟩ := ih
    refine answeredInTime_about ⟨n, fun m hm => ?_⟩
    have hinner := hn m hm
    simp only [Question.eval] at hinner
    simp only [Checker.step, Checker.guarded, if_neg h, hl, hinner]
    simp [Trail.enter, Trail.leave, Trail.after]
  | oneOf_nil | every_nil | properties_nil => exact ⟨0, fun _ _ => rfl⟩
  | oneOf_accepted _ ih => exact .of_first Question.opens_oneOf (by decide) ih
  | oneOf_next _ _ ih ihs =>
    rw [Trail.after_after] at ihs
    exact .of_rest Question.opens_oneOf ih ihs
  | every_rejected _ ih => exact .of_first Question.opens_every (by decide) ih
  | every_next _ _ ih ihs =>
    rw [Trail.after_after] at ihs
    exact .of_rest Question.opens_every ih ihs
  | yielded hp _ ih =>
    obtain ⟨n, hn⟩ := ih
    refine ⟨n, fun m hm => ?_⟩
    simpa [Question.eval, askProperty_eq, hp] using hn m hm
  | failing hp => exact ⟨0, fun _ _ => by simp [Question.eval, askProperty_eq, hp]⟩
  | properties_missing hk ho =>
    exact ⟨0, fun _ _ => by simp [Question.eval_properties_none hk, ho]⟩
  | properties_absent hk ho _ ih =>
    obtain ⟨n, hn⟩ := ih
    exact ⟨n, fun m hm => by simpa [Question.eval_properties_none hk, ho] using hn m hm⟩
  | properties_rejected hk _ ih => exact .of_first (Question.opens_properties hk) (by decide) ih
  | properties_next hk _ _ ih ihs =>
    rw [Trail.after_after] at ihs
    exact .of_rest (Question.opens_properties hk) ih ihs

/-! ## One answer only -/

theorem AnsweredInTime.unique {q : Question} {t : Trail} {r r' : Bool × Trail}
    (h : AnsweredInTime env q t r) (h' : AnsweredInTime env q t r') : r = r' := by
  obtain ⟨n, hn⟩ := h
  obtain ⟨k, hk⟩ := h'
  exact Option.some.inj
    ((hn _ (Nat.le_max_left n k)).symm.trans (hk _ (Nat.le_max_right n k)))

theorem Settled.answeredInTime {q : Question} {t : Trail} {r : Bool × Trail}
    (h : Settled env q t r) : AnsweredInTime env q t r := by
  obtain ⟨es, htrail, hs⟩ := h
  have hanswer := hs.answeredInTime
  rwa [← htrail] at hanswer

theorem Settled.unique {q : Question} {t : Trail} {r r' : Bool × Trail} (h : Settled env q t r)
    (h' : Settled env q t r') : r = r' :=
  h.answeredInTime.unique h'.answeredInTime

theorem Settles.unique {q : Question} {t : Trail} {b b' : Bool} {es es' : List Event}
    (h : Settles env q t b es) (h' : Settles env q t b' es') : b = b' ∧ es = es' := by
  obtain ⟨hb, htrail⟩ := Prod.mk.inj (h.answeredInTime.unique h'.answeredInTime)
  exact ⟨hb, List.append_cancel_right (congrArg Trail.journal htrail)⟩

end DataShape
