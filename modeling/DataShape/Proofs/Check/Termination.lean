import DataShape.Proofs.Check.Stack

/-!
# Every check ends

A question goes to a smaller checker, or into the value, or through a reference that
is not in progress for the same place. About one place fewer references are left to be
entered (`room`), or the checker gets smaller, and `cost` puts the two into one number.
A bound of that size suffices (`exists_askAt`), if the questions that go into the value
have their answers. These are questions about values of fewer levels, with whatever
checkers producers yield, so every question has an answer (`exists_askDown`) : a check
always ends (`Environment.ends`).

If no producer yields by the journal, the checkers that come up are known in advance.
Then one bound for all questions suffices, that of `Environment.budget` (`exists_ask`).

Main statement : `Environment.check_ends`.
-/

namespace DataShape

open Relation

/-! ## Parts of a question -/

section Parts

variable {env : Environment} {ask : Ask} (hask : Faithful env ask)

/-- A question has an answer if its first part has one and, should it go on, the rest. -/
theorem exists_of_opens {q first rest : Question} {goOn : Bool}
    (hq : Question.Opens env q first goOn rest) {t : Trail}
    (hfirst : ∃ r, Settled env first t r ∧ first.eval env ask t = some r)
    (hrest : ∀ es, ∃ r, rest.eval env ask (t.after es) = some r) :
    ∃ r, q.eval env ask t = some r := by
  obtain ⟨⟨b, t'⟩, ⟨es, rfl, -⟩, hr⟩ := hfirst
  by_cases hb : b = goOn
  · subst hb
    obtain ⟨r, hr'⟩ := hrest es
    exact ⟨r, hq.eval_eq_some.2 (Or.inl ⟨_, hr, hr'⟩)⟩
  · exact ⟨_, hq.eval_eq_some.2 (Or.inr ⟨hb, hr⟩)⟩

include hask

theorem exists_oneOf {place : Place} {v : Value} :
    ∀ {cs : List Checker} {t : Trail},
      (∀ c ∈ cs, ∀ es, ∃ r, ask c place v (t.after es) = some r) →
        ∃ r, (Question.oneOf cs place v).eval env ask t = some r
  | [], t, _ => ⟨_, rfl⟩
  | c :: cs, t, h => by
    obtain ⟨r, hr⟩ := h c List.mem_cons_self []
    refine exists_of_opens Question.opens_oneOf ⟨r, hask hr, hr⟩ fun es => exists_oneOf ?_
    intro d hd fs
    rw [Trail.after_after]
    exact h d (List.mem_cons_of_mem _ hd) _

theorem exists_every {c : Checker} {place : Place} :
    ∀ {vs : List Value} {i : Nat} {t : Trail},
      (∀ v ∈ vs, ∀ j es, ∃ r, ask c (place.child (.index j)) v (t.after es) = some r) →
        ∃ r, (Question.every c i vs place).eval env ask t = some r
  | [], i, t, _ => ⟨_, rfl⟩
  | v :: vs, i, t, h => by
    obtain ⟨r, hr⟩ := h v List.mem_cons_self i []
    refine exists_of_opens Question.opens_every ⟨r, hask hr, hr⟩ fun es => exists_every ?_
    intro w hw j fs
    rw [Trail.after_after]
    exact h w (List.mem_cons_of_mem _ hw) j _

omit hask in
theorem exists_property {p : Property} {place : Place} {v : Value} {t : Trail}
    (h : ∀ j c, p.yields env j = some c → ∀ es, ∃ r, ask c place v (t.after es) = some r) :
    ∃ r, (Question.property p place v).eval env ask t = some r := by
  rw [Question.eval, askProperty_eq]
  cases hp : p.yields env t.journal with
  | none => exact ⟨_, rfl⟩
  | some c => exact h _ c hp _

theorem exists_properties {fields : List (String × Value)} {place : Place} :
    ∀ {ps : List (DeclaredKey × Property)} {t : Trail},
      (∀ k p v j c, (k, p) ∈ ps → Keyed.get? k.name fields = some v → p.yields env j = some c →
        ∀ es, ∃ r, ask c (place.child (.key k.name)) v (t.after es) = some r) →
        ∃ r, (Question.properties ps fields place).eval env ask t = some r
  | [], t, _ => ⟨_, rfl⟩
  | (k, p) :: ps, t, h => by
    have hrest : ∀ es, ∃ r, (Question.properties ps fields place).eval env ask (t.after es) =
        some r := fun es => exists_properties fun k' p' v j c hmem hk hp fs => by
      rw [Trail.after_after]
      exact h k' p' v j c (List.mem_cons_of_mem _ hmem) hk hp _
    cases hk : Keyed.get? k.name fields with
    | none =>
      rw [Question.eval_properties_none hk]
      cases ho : k.isOptional with
      | false => exact ⟨_, rfl⟩
      | true => exact hrest []
    | some v =>
      obtain ⟨r, hr⟩ := exists_property fun j c hp => h k p v j c List.mem_cons_self hk hp
      exact exists_of_opens (Question.opens_properties hk) ⟨r, settled_property hask hr, hr⟩ hrest

end Parts

/-! ## The cost of a question -/

/-- How many of the known references may still be entered for a place. -/
def room (known : List Lookup) (stack : Stack) (place : Place) : Nat :=
  ((known.map Lookup.serial).filter fun n => !stack.contains (n, place)).length

theorem room_le (known : List Lookup) (stack : Stack) (place : Place) :
    room known stack place ≤ known.length := by
  simpa [room] using List.length_filter_le (fun n => !stack.contains (n, place))
    (known.map Lookup.serial)

theorem room_enter_lt {known : List Lookup} {stack : Stack} {l : Lookup} {place : Place}
    (hl : l ∈ known) (h : (l.serial, place) ∉ stack) :
    room known ((l.serial, place) :: stack) place < room known stack place := by
  have hfilter : (known.map Lookup.serial).filter
      (fun n => !((l.serial, place) :: stack).contains (n, place)) =
        ((known.map Lookup.serial).filter fun n => !stack.contains (n, place)).filter
          fun n => decide (n ≠ l.serial) := by
    rw [List.filter_filter]
    refine List.filter_congr fun n _ => ?_
    simp
  rw [room, hfilter, room, List.length_filter_lt_length_iff_exists]
  exact ⟨l.serial, List.mem_filter.2 ⟨List.mem_map_of_mem hl, by simpa using h⟩, by simp⟩

/-- How many questions may be open at once below one with a checker of size `s`, if `a` times the
checker can be exchanged for another one and none is larger than `m`. -/
def cost (m a s : Nat) : Nat :=
  a * (m + 1) + s

theorem cost_lt {m a a' s s' : Nat} (ha : a' < a) (hs : s' ≤ m) : cost m a' s' < cost m a s := by
  have h : (a' + 1) * (m + 1) ≤ a * (m + 1) := Nat.mul_le_mul_right _ ha
  rw [Nat.add_mul, Nat.one_mul] at h
  unfold cost
  omega

/-- The references that may be entered for places of depth `d` and below come to less if the depth
is less. -/
theorem levels_lt {n d d' r r' : Nat} (hd : d' < d) (hr : r' ≤ n) :
    d' * (n + 1) + r' < d * (n + 1) + r := by
  have h : (d' + 1) * (n + 1) ≤ d * (n + 1) := Nat.mul_le_mul_right _ hd
  rw [Nat.add_mul, Nat.one_mul] at h
  omega

/-! ## Answers to one question -/

section Step

variable {env : Environment}

/-- A checker has an answer if those that it may have to ask have one : smaller ones about the same
value, any about a part of it, and the one at the address of a reference that is not in progress. -/
theorem exists_step {ask : Ask} (hask : Faithful env ask) {c : Checker} {place : Place} {v : Value}
    {t : Trail}
    (smaller : ∀ d : Checker, Asks env c d → d.lookups ⊆ c.lookups → d.size < c.size →
      ∀ es, ∃ r, ask d place v (t.after es) = some r)
    (deeper : ∀ (d : Checker) (s : Step) (w : Value), Asks env c d → w.depth < v.depth →
      ∀ es, ∃ r, ask d (place.child s) w (t.after es) = some r)
    (inside : ∀ (l : Lookup) (d : Checker), Asks env c d → l ∈ c.lookups →
      (l.serial, place) ∉ t.active → Keyed.get? l.address env = some d →
        ∃ r, ask d place v (t.enter l place) = some r) :
    ∃ r, Checker.step env (Checker.guarded env ask) ask c place v t = some r := by
  cases c with
  | primitive p => exact ⟨_, rfl⟩
  | scripted probe answer => exact ⟨_, rfl⟩
  | literal expected => cases v <;> exact ⟨_, rfl⟩
  | any cs =>
    refine exists_oneOf hask fun d hd es => smaller d (.any hd) ?_ ?_ es
    · exact Checker.lookups_subset_lookupsAll hd
    · exact Nat.lt_succ_of_le (Checker.size_le_sizeAll hd)
  | nullable d =>
    have hd := smaller d .nullable (List.Subset.refl _) (Nat.lt_succ_self _) []
    cases v with
    | null => exact ⟨_, rfl⟩
    | _ => exact hd
  | watched probe d =>
    exact smaller d .watched (List.Subset.refl _) (Nat.lt_succ_self _) [.asked probe v.kind]
  | array d =>
    cases v with
    | array vs =>
      refine exists_every hask fun w hw j es => deeper d _ w .array ?_ es
      exact Nat.lt_succ_of_le (Value.depth_le_depthItems hw)
    | _ => exact ⟨_, rfl⟩
  | object ps =>
    cases v with
    | object fields =>
      refine exists_properties hask fun k p w j d hmem hk hp es =>
        deeper d _ w (.object hmem hp) ?_ es
      exact Nat.lt_succ_of_le (Value.depth_le_depthFields (Keyed.mem_of_get? hk))
    | _ => exact ⟨_, rfl⟩
  | reference l =>
    change ∃ r, Checker.guarded env ask l place v t = some r
    rw [Checker.guarded]
    by_cases hmem : (l.serial, place) ∈ t.active
    · exact ⟨_, if_pos hmem⟩
    · rw [if_neg hmem]
      cases hd : Keyed.get? l.address env with
      | none => exact ⟨_, rfl⟩
      | some d =>
        obtain ⟨⟨b, t'⟩, hr⟩ := inside l d (.reference hd) List.mem_cons_self hmem hd
        exact ⟨(b, t'.leave l place), by simp [hr]⟩

end Step

/-! ## Answers to all questions -/

namespace Environment

variable (env : Environment) (c : Checker)

/-- The references that stand in a checker and in those that can be found. -/
def references : List Lookup :=
  c.lookups ++ env.flatMap fun e => e.2.lookups

theorem length_references : (env.references c).length = env.lookupCount c := by
  simp [references, lookupCount]

theorem within_references : env.Within (env.references c) := fun e he _ hl =>
  List.mem_append_right _ (List.mem_flatMap.2 ⟨e, he, hl⟩)

theorem lookups_subset_references : c.lookups ⊆ env.references c :=
  List.subset_append_left ..

theorem size_le_totalSize : ∀ e ∈ env, e.2.size ≤ env.totalSize c := by
  intro e he
  have hall := Checker.size_le_sizeAll (List.mem_map_of_mem (f := Prod.snd) he)
  exact Nat.le_trans hall (Nat.le_add_left ..)

end Environment

section Enough

variable {env : Environment} {known : List Lookup} {m : Nat}

/-- About one place a bound of its cost is enough for a question, if values of fewer levels are
answered. -/
theorem exists_askAt (henv : env.Within known) (hm : ∀ e ∈ env, e.2.size ≤ m) {below : Ask}
    (hbelow : Faithful env below) {place : Place} {v : Value}
    (hless : ∀ c place' w t, w.depth < v.depth → ∃ r, below c place' w t = some r) :
    ∀ (n : Nat) (c : Checker) (t : Trail), c.lookups ⊆ known → c.size ≤ m →
      cost m (room known t.active place) c.size ≤ n →
      ∃ r, Checker.askAt env below place.depth n c place v t = some r
  | 0, c, t, _, _, hn => by
    have := c.size_pos
    unfold cost at hn
    omega
  | n + 1, c, t, hc, hs, hn => by
    have hhere : ∀ d t', Checker.split place.depth (Checker.askAt env below place.depth n) below d
        place v t' = Checker.askAt env below place.depth n d place v t' := fun _ _ => if_pos rfl
    refine exists_step (faithful_split (faithful_askAt hbelow _ n) hbelow) ?smaller ?deeper ?inside
    case smaller =>
      intro d _ hd hlt es
      rw [hhere]
      refine exists_askAt henv hm hbelow hless n d _ (List.Subset.trans hd hc) (by omega) ?_
      rw [Trail.active_after]
      unfold cost at hn ⊢
      omega
    case deeper =>
      intro d s w _ hlt es
      have hchild : (place.child s).depth ≠ place.depth := Nat.succ_ne_self _
      rw [Checker.split, if_neg hchild]
      exact hless d _ w _ hlt
    case inside =>
      intro l d _ hl hmem hd
      have hdm : d.size ≤ m := hm _ (Keyed.mem_of_get? hd)
      rw [hhere]
      refine exists_askAt henv hm hbelow hless n d _ (henv.get? hd) hdm (Nat.le_of_lt_succ ?_)
      exact Nat.lt_of_lt_of_le (cost_lt (room_enter_lt (hc hl) hmem) hdm) hn

/-- Every question about a value of fewer levels than `d` has an answer. -/
theorem exists_askDown (env : Environment) :
    ∀ (d : Nat) (c : Checker) (place : Place) (v : Value) (t : Trail),
      v.depth < d → ∃ r, Checker.askDown env d c place v t = some r
  | d + 1, c, place, v, t, hd => by
    have hsize : c.size ≤ env.totalSize c := Nat.le_add_right ..
    refine exists_askAt (env.within_references c) (env.size_le_totalSize c) (faithful_askDown d)
      (fun c place w t hw => exists_askDown env d c place w t (by omega)) _ c t
      (env.lookups_subset_references c) hsize (Nat.le_of_lt ?_)
    have hroom := room_le (env.references c) t.active place
    rw [env.length_references c] at hroom
    exact cost_lt (s := 0) (Nat.lt_succ_of_le hroom) hsize

end Enough

namespace Environment

variable (env : Environment) (c : Checker) (place : Place) (v : Value) (t : Trail)

/-- A check follows the rules. -/
theorem settled_checkAt : Settled env (.about c place v) t (env.checkAt c place v t) := by
  obtain ⟨r, hr⟩ := exists_askDown env _ c place v t (Nat.lt_succ_self v.depth)
  have hs := faithful_askDown _ hr
  rwa [checkAt, hr, Option.getD_some]

/-- Asks by whole checks. -/
def asking : Ask := fun c place v t =>
  some (env.checkAt c place v t)

theorem faithful_asking : Faithful env env.asking :=
  fun c place v t _ h => Option.some.inj h ▸ env.settled_checkAt c place v t

/-- A check asks one question and goes on with checks. -/
theorem checkAt_eq_step : some (env.checkAt c place v t) =
    Checker.step env (Checker.guarded env env.asking) env.asking c place v t := by
  have hasking : ∀ d place' w t', ∃ r, env.asking d place' w t' = some r := fun _ _ _ _ => ⟨_, rfl⟩
  obtain ⟨r, hr⟩ : ∃ r, Checker.step env (Checker.guarded env env.asking) env.asking c place v t =
      some r :=
    exists_step env.faithful_asking (fun _ _ _ _ _ => hasking ..) (fun _ _ _ _ _ _ => hasking ..)
      fun _ _ _ _ _ _ => hasking ..
  rw [hr, (env.settled_checkAt c place v t).unique (faithful_step env.faithful_asking hr)]

end Environment

/-! ## One bound for all questions -/

/-- No producer of this checker itself yields by the journal. -/
def Checker.IsFixed : Checker → Prop
  | .object ps => ∀ e ∈ ps, e.2.isFixed = true
  | _ => True

namespace Environment

variable (env : Environment) (c : Checker)

/-- No producer that may run yields by the journal. -/
def Fixed : Checker → Prop :=
  env.Everywhere Checker.IsFixed

/-- How many questions of a check can be open at once, if no producer yields by the journal : for
each place on the way into the value as many as the checkers in question allow. -/
def budget (v : Value) : Nat :=
  (v.depth + 1) * (env.lookupCount c + 1) * (env.totalSize c + 1)

end Environment

section Fixed

variable {env : Environment} {known : List Lookup} {m : Nat} {c d : Checker}

/-- What a fixed checker asks is made of known references, if it and all that is found are. -/
theorem Asks.lookups_subset (henv : env.Within known) (h : Asks env c d) (hfixed : c.IsFixed)
    (hc : c.lookups ⊆ known) : d.lookups ⊆ known := by
  cases h with
  | any hd => exact List.Subset.trans (Checker.lookups_subset_lookupsAll hd) hc
  | nullable | array | watched => exact hc
  | object hmem hp =>
    have hsub := Checker.lookupsProperty_subset_lookupsProperties hmem
    rw [Property.yields_of_isFixed (hfixed _ hmem)] at hp
    exact lookups_of_fixed? henv hp (List.Subset.trans hsub hc)
  | reference hd => exact henv.get? hd

theorem size_of_fixed? (hm : ∀ e ∈ env, e.2.size ≤ m) {p : Property}
    (hp : p.fixed? env = some c) (h : Checker.sizeProperty p ≤ m) : c.size ≤ m := by
  cases p with
  | direct d | produced _ d =>
    obtain rfl := Option.some.inj hp
    exact Nat.le_trans (Nat.le_succ _) h
  | barren _ | scripted _ _ => exact nomatch hp
  | found _ a => exact hm _ (Keyed.mem_of_get? hp)

theorem Asks.size_le (hm : ∀ e ∈ env, e.2.size ≤ m) (h : Asks env c d) (hfixed : c.IsFixed)
    (hc : c.size ≤ m) : d.size ≤ m := by
  cases h with
  | any hd => exact Nat.le_trans (Checker.size_le_sizeAll hd) (Nat.le_of_succ_le hc)
  | nullable | array | watched => exact Nat.le_of_succ_le hc
  | object hmem hp =>
    have hsize := Checker.sizeProperty_le_sizeProperties hmem
    rw [Property.yields_of_isFixed (hfixed _ hmem)] at hp
    exact size_of_fixed? hm hp (Nat.le_trans hsize (Nat.le_of_succ_le hc))
  | reference hd => exact hm _ (Keyed.mem_of_get? hd)

/-- With a bound of its cost a question has an answer. -/
theorem exists_ask (henv : env.Within known) (hm : ∀ e ∈ env, e.2.size ≤ m) :
    ∀ (n : Nat) (c : Checker) (place : Place) (v : Value) (t : Trail),
      env.Fixed c → c.lookups ⊆ known → c.size ≤ m →
      cost m (v.depth * (known.length + 1) + room known t.active place) c.size ≤ n →
      ∃ r, Checker.ask env n c place v t = some r
  | 0, c, place, v, t, _, _, _, hn => by
    have := c.size_pos
    unfold cost at hn
    omega
  | n + 1, c, place, v, t, hfixed, hc, hs, hn => by
    have hasked : ∀ d, Asks env c d → env.Fixed d := fun d hd =>
      Environment.inherited_everywhere hfixed hd
    refine exists_step (faithful_ask n) ?smaller ?deeper ?inside
    case smaller =>
      intro d hd hsub hlt es
      refine exists_ask henv hm n d place v _ (hasked d hd) (List.Subset.trans hsub hc)
        (by omega) ?_
      rw [Trail.active_after]
      unfold cost at hn ⊢
      omega
    case deeper =>
      intro d s w hd hlt es
      have hdm := hd.size_le hm hfixed.here hs
      refine exists_ask henv hm n d _ w _ (hasked d hd) (hd.lookups_subset henv hfixed.here hc) hdm
        (Nat.le_of_lt_succ ?_)
      exact Nat.lt_of_lt_of_le (cost_lt (levels_lt hlt (room_le ..)) hdm) hn
    case inside =>
      intro l d hd hl hmem hfound
      have hdm : d.size ≤ m := hm _ (Keyed.mem_of_get? hfound)
      refine exists_ask henv hm n d place v _ (hasked d hd) (henv.get? hfound) hdm
        (Nat.le_of_lt_succ ?_)
      have hroom := room_enter_lt (hc hl) hmem
      exact Nat.lt_of_lt_of_le (cost_lt (Nat.add_lt_add_left hroom _) hdm) hn

end Fixed

namespace Environment

variable {env : Environment} {c : Checker}

/-- The budget of a check suffices, whatever references are in progress at its start. -/
theorem Fixed.exists_ask (h : env.Fixed c) {n : Nat} {v : Value} (hn : env.budget c v ≤ n)
    (place : Place) (t : Trail) : ∃ r, Checker.ask env n c place v t = some r := by
  have hsize : c.size ≤ env.totalSize c := Nat.le_add_right ..
  refine DataShape.exists_ask (env.within_references c) (env.size_le_totalSize c) n c place v t h
    (env.lookups_subset_references c) hsize (Nat.le_trans (Nat.le_of_lt ?_) hn)
  rw [budget, ← env.length_references c]
  have hlevels := levels_lt (r := 0) (Nat.lt_succ_self v.depth)
    (room_le (env.references c) t.active place)
  exact cost_lt (s := 0) hlevels hsize

/-- The references of a checker are among those that stand in it and in what can be found. -/
theorem Fixed.covers (h : env.Fixed c) : env.Covers (env.references c) c := by
  have hinherited : Inherited env fun d => env.Fixed d ∧ d.lookups ⊆ env.references c := by
    rintro d e ⟨hd, hlookups⟩ hask
    exact ⟨inherited_everywhere hd hask,
      hask.lookups_subset (env.within_references c) hd.here hlookups⟩
  have hall := everywhere_of_inherited hinherited ⟨h, env.lookups_subset_references c⟩
  refine hall.imp fun d hd l hl => hd.2 ?_
  rw [hl]
  exact List.mem_cons_self

end Environment

/-! ## The end of a check -/

namespace Environment

variable (env : Environment) (c : Checker) (place : Place) (v : Value) (t : Trail)

/-- What a check comes to, and the bounds that are large enough for it. -/
structure Ends (r : Bool × Trail) : Prop where
  checkAt_eq : env.checkAt c place v t = r
  /-- Any number of levels above those of the value. -/
  askDown_eq : ∀ d, v.depth < d → Checker.askDown env d c place v t = some r
  /-- Any bound on all questions, from some on. -/
  ask_eq : ∃ N, ∀ n, N ≤ n → Checker.ask env n c place v t = some r
  /-- If no producer yields by the journal, any such bound from the budget on. -/
  ask_eq_of_fixed : env.Fixed c → ∀ n, env.budget c v ≤ n → Checker.ask env n c place v t = some r

theorem ends : env.Ends c place v t (env.checkAt c place v t) where
  checkAt_eq := rfl
  askDown_eq d hd := by
    obtain ⟨r, hr⟩ := exists_askDown env d c place v t hd
    rw [hr, (faithful_askDown d hr).unique (env.settled_checkAt c place v t)]
  ask_eq := (env.settled_checkAt c place v t).answeredInTime
  ask_eq_of_fixed hfixed n hn := by
    obtain ⟨r, hr⟩ := hfixed.exists_ask hn place t
    rw [hr, (faithful_ask n hr).unique (env.settled_checkAt c place v t)]

/-- Every check ends, in whatever way references lead to each other and whatever producers yield :
there are bounds that are large enough, and all that are give its answer. The references that were
entered are left again. Whenever a question is asked on the way, those in progress are the ones that
the events so far tell (`stackAfter`). After each event there is none among them twice for one
place, so for each place there are at most as many as there are references that may be asked ; if no
producer yields by the journal, these stand in the checker and in those that can be found. -/
theorem check_ends (j : List Event) :
    ∃ answer es, env.check c v ⟨[], j⟩ = (answer, ⟨[], es ++ j⟩) ∧
      env.Ends c .root v ⟨[], j⟩ (answer, ⟨[], es ++ j⟩) ∧
      (∀ q t, ReflTransGen (Poses env) (.about c .root v, ⟨[], j⟩) (q, t) →
        ∃ earlier, earlier <:+ es ∧ t.journal = earlier ++ j ∧ t.active = stackAfter [] earlier) ∧
      (∀ earlier, earlier <:+ es → (stackAfter [] earlier).Nodup ∧
        ∀ known, env.Covers known c → ∀ place,
          ((stackAfter [] earlier).filter (·.2 = place)).length ≤
            (known.map Lookup.serial).dedup.length) ∧
      (env.Fixed c → env.Covers (env.references c) c) := by
  obtain ⟨es, htrail, hs⟩ := env.settled_checkAt c .root v ⟨[], j⟩
  have hcheck : env.check c v ⟨[], j⟩ = ((env.check c v ⟨[], j⟩).1, ⟨[], es ++ j⟩) :=
    Prod.ext rfl htrail
  refine ⟨_, es, hcheck, hcheck ▸ env.ends c .root v ⟨[], j⟩, fun q t hq => ?_,
    fun earlier hearlier => ⟨?_, fun known hknown => ?_⟩, Fixed.covers⟩
  · obtain ⟨earlier, _, fs, ⟨hjournal, hactive⟩, -, hall⟩ := hs.askedDuring hq
    exact ⟨earlier, (List.suffix_append fs earlier).trans hall, hjournal, hactive⟩
  · exact hs.stack_nodup List.nodup_nil earlier hearlier
  · exact (hs.stack_proper hknown ⟨List.nodup_nil, by simp⟩ earlier hearlier).length_filter_le

end Environment

end DataShape
