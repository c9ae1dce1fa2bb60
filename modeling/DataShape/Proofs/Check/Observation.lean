import DataShape.Proofs.Check.Termination
import DataShape.Session
import Mathlib.Data.Set.Basic

/-!
# What a check can observe

A checker may ask others (`Asks`) : its parts, what its producers may yield and what its
references find. The names that are declared anywhere among these
(`Environment.declared`) are all a check looks up in objects. Of numbers and booleans
it sees the kind alone.

So values that differ in nothing else (`Similar`) run through the same questions : the
references in progress, the events and the answer are the same, step by step
(`ask_eq_of_similar`). One value may be deeper than the other where no checker looks, but
there is a bound that is large enough for both checks (`check_eq_of_similar`).
-/

namespace DataShape

open Relation

/-! ## Declared names -/

/-- The names of the properties that are declared by a checker or by one it leads to. -/
def Environment.declared (env : Environment) (c : Checker) : Set String :=
  { name | ∃ ps k p, ReflTransGen (Asks env) c (.object ps) ∧ (k, p) ∈ ps ∧ k.name = name }

theorem Environment.mem_declared {env : Environment} {ps : List (DeclaredKey × Property)}
    {k : DeclaredKey} {p : Property} (h : (k, p) ∈ ps) : k.name ∈ env.declared (.object ps) :=
  ⟨ps, k, p, .refl, h, rfl⟩

theorem Asks.declared_subset {env : Environment} {c d : Checker} (h : Asks env c d) :
    env.declared d ⊆ env.declared c := by
  rintro name ⟨ps, k, p, hd, hmem, hname⟩
  exact ⟨ps, k, p, .head h hd, hmem, hname⟩

/-- Names suffice if they suffice for checkers that ask none but each other. -/
theorem Environment.declared_subset {env : Environment} {names : Set String}
    {P : Checker → Prop} (hP : Inherited env P)
    (hnames : ∀ ps, P (.object ps) → ∀ e ∈ ps, e.1.name ∈ names) {c : Checker} (hc : P c) :
    env.declared c ⊆ names := by
  rintro name ⟨ps, k, p, hreach, hmem, rfl⟩
  exact hnames ps (everywhere_of_inherited hP hc _ hreach) (k, p) hmem

/-! ## Similar values -/

/-- The values have the same kind, equal strings, equally many items that are similar in turn, and
of the fields with these names the same ones, similar in turn. -/
inductive Similar (names : Set String) : Value → Value → Prop where
  | null : Similar names .null .null
  | undefined : Similar names .undefined .undefined
  | bool {a b} : Similar names (.bool a) (.bool b)
  | number {m n} : Similar names (.number m) (.number n)
  | string {s} : Similar names (.string s) (.string s)
  | array {us vs} (length_eq : us.length = vs.length)
      (items : ∀ (i : Nat) u v, us[i]? = some u → vs[i]? = some v → Similar names u v) :
      Similar names (.array us) (.array vs)
  | object {fs gs}
      (present : ∀ k ∈ names, (Keyed.get? k fs).isSome = (Keyed.get? k gs).isSome)
      (fields : ∀ k ∈ names, ∀ u v, Keyed.get? k fs = some u → Keyed.get? k gs = some v →
        Similar names u v) :
      Similar names (.object fs) (.object gs)

variable {env : Environment} {names : Set String} {v w : Value}

theorem Similar.kind_eq (h : Similar names v w) : v.kind = w.kind := by
  cases h <;> rfl

/-- With fewer names to look at more values are similar. -/
theorem Similar.anti {names' : Set String} (hsub : names' ⊆ names) (h : Similar names v w) :
    Similar names' v w := by
  induction h with
  | null => exact .null
  | undefined => exact .undefined
  | bool => exact .bool
  | number => exact .number
  | string => exact .string
  | array hlength _ ih => exact .array hlength ih
  | object hpresent _ ih =>
    exact .object (fun k hk => hpresent k (hsub hk)) fun k hk => ih k (hsub hk)

theorem Primitive.accepts_eq_of_similar (p : Primitive) (h : Similar names v w) :
    p.accepts v = p.accepts w := by
  cases p <;> simp [Primitive.accepts, h.kind_eq]

/-! ## One question about two values -/

/-- The checker is asked about similar values with the same result. -/
def Blind (names : Set String) (ask : Ask) (c : Checker) : Prop :=
  ∀ ⦃v w⦄, Similar names v w → ∀ place t, ask c place v t = ask c place w t

section Parts

variable {ask : Ask}

theorem firstAccepting_congr {f g : Checker → Trail → Answer} :
    ∀ {cs : List Checker}, (∀ c ∈ cs, ∀ t, f c t = g c t) →
      ∀ t, Checker.firstAccepting f cs t = Checker.firstAccepting g cs t
  | [], _, _ => rfl
  | c :: cs, h, t => by
    have hrest := firstAccepting_congr fun d hd => h d (List.mem_cons_of_mem _ hd)
    simp only [Checker.firstAccepting, h c List.mem_cons_self, hrest]

theorem everyItem_congr {f : Step → Value → Trail → Answer} :
    ∀ {us vs : List Value}, us.length = vs.length →
      (∀ (i : Nat) u v, us[i]? = some u → vs[i]? = some v → ∀ s t, f s u t = f s v t) →
      ∀ i t, Checker.everyItem f i us t = Checker.everyItem f i vs t
  | [], [], _, _, _, _ => rfl
  | u :: us, v :: vs, hlength, h, i, t => by
    have hhead : ∀ s t, f s u t = f s v t := h 0 u v rfl rfl
    have hrest := everyItem_congr (Nat.succ.inj hlength) fun j => h (j + 1)
    simp only [Checker.everyItem, hhead, hrest]

theorem everyProperty_congr {f : Property → Step → Value → Trail → Answer}
    {fs gs : List (String × Value)} :
    ∀ {ps : List (DeclaredKey × Property)},
      (∀ e ∈ ps, (Keyed.get? e.1.name fs).isSome = (Keyed.get? e.1.name gs).isSome) →
      (∀ e ∈ ps, ∀ u v, Keyed.get? e.1.name fs = some u → Keyed.get? e.1.name gs = some v →
        ∀ s t, f e.2 s u t = f e.2 s v t) →
      ∀ t, Checker.everyProperty f fs ps t = Checker.everyProperty f gs ps t
  | [], _, _, _ => rfl
  | (k, p) :: ps, hpresent, h, t => by
    have hrest := everyProperty_congr (fun e he => hpresent e (List.mem_cons_of_mem _ he))
      fun e he => h e (List.mem_cons_of_mem _ he)
    have hk := hpresent _ List.mem_cons_self
    have hp := h _ List.mem_cons_self
    simp only at hk hp
    cases hu : Keyed.get? k.name fs with
    | none =>
      rw [hu, Option.isSome_none, eq_comm, Option.isSome_eq_false_iff, Option.isNone_iff_eq_none]
        at hk
      simp only [Checker.everyProperty, hu, hk, hrest]
    | some u =>
      rw [hu, Option.isSome_some, eq_comm] at hk
      obtain ⟨v, hv⟩ := Option.isSome_iff_exists.1 hk
      simp only [Checker.everyProperty, hu, hv, hp u v hu hv, hrest]

theorem askProperty_eq_of_similar {p : Property}
    (h : ∀ j c, p.yields env j = some c → Blind names ask c) (hvw : Similar names v w)
    (place : Place) (t : Trail) :
    Checker.askProperty env ask p place v t = Checker.askProperty env ask p place w t := by
  rw [askProperty_eq, askProperty_eq]
  cases hp : p.yields env t.journal with
  | none => rfl
  | some c => exact h _ c hp hvw place _

/-- Following a reference looks at the place of the value only. -/
theorem guarded_eq_of_similar {l : Lookup}
    (h : ∀ c, Keyed.get? l.address env = some c → Blind names ask c) (hvw : Similar names v w)
    (place : Place) (t : Trail) :
    Checker.guarded env ask l place v t = Checker.guarded env ask l place w t := by
  unfold Checker.guarded
  cases hl : Keyed.get? l.address env with
  | none => rfl
  | some c => simp only [h c hl hvw place (t.enter l place)]

/-- A checker treats similar values alike if those that it may ask do, and the names that it
declares are among the ones that are looked at. -/
theorem blind_step {c : Checker} (hdeclared : env.declared c ⊆ names)
    (hask : ∀ d, Asks env c d → Blind names ask d) :
    Blind names (Checker.step env (Checker.guarded env ask) ask) c := by
  intro v w hvw place t
  cases c with
  | primitive p => simp only [Checker.step, p.accepts_eq_of_similar hvw]
  | literal expected => cases hvw <;> rfl
  | any cs => exact firstAccepting_congr (fun d hd => hask d (.any hd) hvw place) t
  | nullable d =>
    have hd := hask d .nullable hvw place t
    cases hvw with
    | null => rfl
    | _ => exact hd
  | array d =>
    cases hvw with
    | array hlength hitems =>
      exact everyItem_congr hlength
        (fun i u v hu hv s => hask d .array (hitems i u v hu hv) (place.child s)) 0 t
    | _ => rfl
  | object ps =>
    cases hvw with
    | object hpresent hfields =>
      have hname : ∀ e ∈ ps, e.1.name ∈ names := fun e he =>
        hdeclared (Environment.mem_declared he)
      refine everyProperty_congr (fun e he => hpresent _ (hname e he))
        (fun e he u v hu hv s => ?_) t
      exact askProperty_eq_of_similar (fun _ d hd => hask d (.object he hd))
        (hfields _ (hname e he) u v hu hv) (place.child s)
    | _ => rfl
  | reference l => exact guarded_eq_of_similar (fun d hd => hask d (.reference hd)) hvw place t
  | watched probe d =>
    simp only [Checker.step, hvw.kind_eq]
    exact hask d .watched hvw place _
  | scripted probe answer => simp only [Checker.step, hvw.kind_eq]

end Parts

/-! ## Whole checks -/

/-- With one bound similar values give the same answer and leave the same trail. -/
theorem ask_eq_of_similar :
    ∀ (n : Nat) (c : Checker), env.declared c ⊆ names → Blind names (Checker.ask env n) c
  | 0, _, _ => fun _ _ _ _ _ => rfl
  | n + 1, _, hdeclared => blind_step hdeclared fun d hd =>
    ask_eq_of_similar n d (Set.Subset.trans hd.declared_subset hdeclared)

theorem Environment.check_eq_of_similar (env : Environment) (c : Checker)
    (h : Similar (env.declared c) v w) (t : Trail) : env.check c v t = env.check c w t := by
  obtain ⟨n, hn⟩ := (env.ends c .root v t).ask_eq
  obtain ⟨m, hm⟩ := (env.ends c .root w t).ask_eq
  have hv := hn _ (Nat.le_max_left n m)
  rw [ask_eq_of_similar _ c Set.Subset.rfl h, hm _ (Nat.le_max_right n m)] at hv
  exact (Option.some.inj hv).symm

/-- A check gives the same answer for similar values, and the same happens meanwhile. The values may
differ in numbers, in booleans and, at any depth, in what is stored under names that no shape in
reach of the checker declares. -/
theorem similar_checked_alike (s : Session) (c : Checker)
    (h : Similar (s.environment.declared c) v w) : s.check c v = s.check c w := by
  simp only [Session.check, s.environment.check_eq_of_similar c h]

/-- Nodes with an optional label and an optional next node. The values differ in their labels, one
of them not-a-number, and in a field of the next node that is not declared. -/
theorem nodes_checked_alike :
    let l : Lookup := ⟨1, .entry 0 "node"⟩
    let node := Checker.object [(⟨"label?"⟩, .produced none (.primitive .number)),
      (⟨"next?"⟩, .direct (.reference l))]
    let s : Session := ⟨(Registries.empty.register "global" "node" node).2, [], []⟩
    let v := Value.object [("label", .number (.float .nan)), ("next", .object [])]
    let w := Value.object [("label", .number (.unsigned 7)), ("next", .object [("size", .null)])]
    Similar (s.environment.declared (.reference l)) v w ∧
      s.check (.reference l) v = s.check (.reference l) w ∧
      (s.check (.reference l) v).1.1 = true := by
  intro l node s v w
  have hdeclared : s.environment.declared (.reference l) ⊆ {"label", "next"} := by
    refine Environment.declared_subset
      (P := fun c => c = .reference l ∨ c = node ∨ c = .primitive .number)
      (fun c d hc hask => ?_) (fun ps hps => ?_) (Or.inl rfl)
    · rcases hc with rfl | rfl | rfl
      · cases hask with
        | reference hfound => exact Or.inr (Or.inl (Option.some.inj hfound).symm)
      · rw [show node = .object [_, _] from rfl] at hask
        cases hask with
        | object hmem hyields =>
          simp only [List.mem_cons, List.not_mem_nil, or_false, Prod.mk.injEq] at hmem
          rcases hmem with ⟨rfl, rfl⟩ | ⟨rfl, rfl⟩
          · exact Or.inr (Or.inr (Option.some.inj hyields).symm)
          · exact Or.inl (Option.some.inj hyields).symm
      · exact nomatch hask
    · obtain rfl : ps = _ := by simpa [node] using hps
      have hlabel : DeclaredKey.name ⟨"label?"⟩ = "label" := by decide
      have hnext : DeclaredKey.name ⟨"next?"⟩ = "next" := by decide
      simp only [List.forall_mem_cons, hlabel, hnext]
      exact ⟨Or.inl rfl, Or.inr rfl, fun e he => nomatch he⟩
  have hleaf : Similar {"label", "next"} (.object []) (.object [("size", .null)]) := by
    refine .object ?_ fun k _ u v hu => nomatch hu
    rintro k (rfl | rfl) <;> rfl
  have hvw : Similar {"label", "next"} v w := by
    refine .object ?_ ?_
    · rintro k (rfl | rfl) <;> rfl
    · rintro k (rfl | rfl) u w hu hw
      · cases hu
        cases hw
        exact .number
      · cases hu
        cases hw
        exact hleaf
  have h := hvw.anti hdeclared
  exact ⟨h, similar_checked_alike s _ h, by decide⟩

end DataShape
