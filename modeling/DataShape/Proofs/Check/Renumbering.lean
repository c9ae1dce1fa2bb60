import DataShape.Proofs.Check.Isolation
import DataShape.Proofs.Check.Likeness

/-!
# References under other numbers

Two checkers that are alike have references to the same addresses at the same positions, perhaps
under other numbers (`pairs`). The numbers are there to tell references apart, and that they do in
both checkers if no number is given twice and none is in use elsewhere
(`Correspondence.renumbering`). Then the checkers go through the same check (`check_eq_of_alike`) :
at addresses they find the same, which stands for itself.

This holds whatever instruments there are among the checkers that are found, as long as they do not
look at the references in progress : scripted checkers and producers that are discreet go by what
instruments noted, and in both checks they note the same.
-/

namespace DataShape

open Relation

/-! ## What instruments note -/

/-- An instrument was asked, or a producer ran. -/
def Event.isNote : Event → Bool
  | asked _ _ => true
  | made _ => true
  | _ => false

/-- What instruments and producers noted in a journal. -/
def notes (j : List Event) : List Event :=
  j.filter Event.isNote

/-- Notes of one kind are as many as the notes tell. -/
theorem countP_eq_of_notes_eq {j j' : List Event} (h : notes j = notes j') {f : Event → Bool}
    (hf : ∀ e, f e = true → e.isNote = true) : j.countP f = j'.countP f := by
  have hcount : ∀ j : List Event, j.countP f = (notes j).countP f := by
    intro j
    rw [notes, List.countP_filter]
    refine List.countP_congr fun e _ => ?_
    rw [Bool.and_eq_true]
    exact ⟨fun he => ⟨he, hf e he⟩, And.left⟩
  rw [hcount j, hcount j', h]

/-- It depends on what instruments and producers noted, and on nothing else. -/
def Discreet {α : Type} (f : List Event → α) : Prop :=
  ∀ j j', notes j = notes j' → f j = f j'

/-- If the producer goes by the journal, it is by what was noted. -/
def Property.IsDiscreet : Property → Prop
  | scripted _ yield => Discreet yield
  | _ => True

theorem Property.IsDiscreet.yields_eq {p : Property} (h : p.IsDiscreet) (env : Environment)
    {j j' : List Event} (hj : notes j = notes j') : p.yields env j = p.yields env j' := by
  cases p with
  | scripted probe yield => exact h j j' hj
  | _ => rfl

/-- If the checker or a producer of it goes by the journal, it is by what was noted. -/
def Checker.IsDiscreet : Checker → Prop
  | .scripted _ answer => Discreet answer
  | .object ps => ∀ e ∈ ps, e.2.IsDiscreet
  | _ => True

namespace Environment

/-- Whatever checker may be asked and whatever producer may run is discreet. -/
def Discreet (env : Environment) : Checker → Prop :=
  env.Everywhere Checker.IsDiscreet

/-- Whatever reference may be asked has a number below this one. -/
def Bounded (env : Environment) (n : Nat) : Checker → Prop :=
  env.Everywhere fun c => ∀ l, c = .reference l → l.serial < n

end Environment

/-! ## References at the same positions -/

mutual
theorem Alike.length_lookups {σ : Address → Address → Prop} :
    ∀ {c d : Checker}, Alike σ c d → c.lookups.length = d.lookups.length
  | .primitive _, _, .primitive => rfl
  | .literal _, _, .literal => rfl
  | .any _, _, .any h => (length_lookupsAll h :)
  | .nullable _, _, .nullable h => (Alike.length_lookups h :)
  | .array _, _, .array h => (Alike.length_lookups h :)
  | .object _, _, .object h => (length_lookupsProperties h :)
  | .reference _, _, .reference _ => rfl

theorem length_lookupsAll {σ : Address → Address → Prop} :
    ∀ {cs ds : List Checker}, List.Forall₂ (Alike σ) cs ds →
      (Checker.lookupsAll cs).length = (Checker.lookupsAll ds).length
  | [], _, .nil => rfl
  | _ :: _, _, .cons h hs => by
    rw [Checker.lookupsAll, Checker.lookupsAll, List.length_append, List.length_append,
      Alike.length_lookups h, length_lookupsAll hs]

theorem length_lookupsProperties {σ : Address → Address → Prop} :
    ∀ {ps qs : List (DeclaredKey × Property)}, List.Forall₂ (AlikeEntry σ) ps qs →
      (Checker.lookupsProperties ps).length = (Checker.lookupsProperties qs).length
  | [], _, .nil => rfl
  | (_, p) :: _, (_, q) :: _, .cons h hs => by
    rw [Checker.lookupsProperties, Checker.lookupsProperties, List.length_append,
      List.length_append, length_lookupsProperty h, length_lookupsProperties hs]

theorem length_lookupsProperty {σ : Address → Address → Prop} :
    ∀ {p q : Property} {k l : DeclaredKey}, AlikeEntry σ (k, p) (l, q) →
      (Checker.lookupsProperty p).length = (Checker.lookupsProperty q).length
  | .direct _, _, _, _, .direct h => (Alike.length_lookups h :)
  | .produced _ _, _, _, _, .produced h => (Alike.length_lookups h :)
  | .barren _, _, _, _, .barren => rfl
  | .found _ _, _, _, _, .found _ => rfl
end

/-- The numbers of references at the same positions. -/
def pairs (ls ms : List Lookup) : List (Nat × Nat) :=
  (ls.map Lookup.serial).zip (ms.map Lookup.serial)

theorem mem_pairs_append {ls ms ls' ms' : List Lookup} (h : ls.length = ms.length) {p : Nat × Nat} :
    p ∈ pairs (ls ++ ls') (ms ++ ms') ↔ p ∈ pairs ls ms ∨ p ∈ pairs ls' ms' := by
  have hlength : (ls.map Lookup.serial).length = (ms.map Lookup.serial).length := by
    rw [List.length_map, List.length_map, h]
  rw [pairs, List.map_append, List.map_append, List.zip_append hlength, List.mem_append]
  rfl

/-- Lists without repetition match their members one to one. -/
theorem one_to_one_of_mem_zip {xs ys : List Nat} (hx : xs.Nodup) (hy : ys.Nodup) {a b a' b' : Nat}
    (h : (a, b) ∈ xs.zip ys) (h' : (a', b') ∈ xs.zip ys) : a = a' ↔ b = b' := by
  obtain ⟨i, hi⟩ := List.mem_iff_getElem?.1 h
  obtain ⟨j, hj⟩ := List.mem_iff_getElem?.1 h'
  obtain ⟨ha, hb⟩ := List.getElem?_zip_eq_some.1 hi
  obtain ⟨ha', hb'⟩ := List.getElem?_zip_eq_some.1 hj
  constructor
  · rintro rfl
    obtain ⟨hlt, -⟩ := List.getElem?_eq_some_iff.1 ha
    obtain rfl := (List.getElem?_inj hlt hx).1 (ha.trans ha'.symm)
    exact Option.some.inj (hb.symm.trans hb')
  · rintro rfl
    obtain ⟨hlt, -⟩ := List.getElem?_eq_some_iff.1 hb
    obtain rfl := (List.getElem?_inj hlt hy).1 (hb.trans hb'.symm)
    exact Option.some.inj (ha.symm.trans ha')

namespace Correspondence

/-- Numbers below a bound stand for themselves, and those of two checkers above it for each other
where they have the same position. -/
def renumbering {n : Nat} {ls ms : List Lookup} (hls : (ls.map Lookup.serial).Nodup)
    (hms : (ms.map Lookup.serial).Nodup) (hfresh : ∀ l ∈ ls ++ ms, n ≤ l.serial) :
    Correspondence where
  serials a b := a = b ∧ a < n ∨ (a, b) ∈ pairs ls ms
  origin := .root
  below := []
  journals j j' := notes j = notes j'
  one_to_one {a b a' b'} h h' := by
    have hapart : ∀ {k a b}, k < n → (a, b) ∈ pairs ls ms → k ≠ a ∧ k ≠ b := by
      intro k a b hk hab
      obtain ⟨ha, hb⟩ := List.of_mem_zip hab
      obtain ⟨l, hl, rfl⟩ := List.mem_map.1 ha
      obtain ⟨m, hm, rfl⟩ := List.mem_map.1 hb
      have hl' := hfresh l (List.mem_append_left _ hl)
      have hm' := hfresh m (List.mem_append_right _ hm)
      exact ⟨by omega, by omega⟩
    rcases h with ⟨rfl, ha⟩ | hab <;> rcases h' with ⟨rfl, ha'⟩ | hab'
    · exact Iff.rfl
    · exact iff_of_false (hapart ha hab').1 (hapart ha hab').2
    · exact iff_of_false (hapart ha' hab).1.symm (hapart ha' hab).2.symm
    · exact one_to_one_of_mem_zip hls hms hab hab'
  note {e e' j j'} he hj := by
    have hcons : ∀ e j, notes (e :: j) = if e.isNote then e :: notes j else notes j :=
      fun e j => List.filter_cons
    cases he <;> simp [hcons, Event.isNote, hj]

/-- The checkers are alike, with references that stand for each other, or are one checker whose
references are in use already. -/
inductive Renumbers (env : Environment) (n : Nat) (serials : Nat → Nat → Prop) :
    Checker → Checker → Prop where
  | alike {c d} (h : Alike Eq c d) (hpairs : ∀ p ∈ pairs c.lookups d.lookups, serials p.1 p.2) :
      Renumbers env n serials c d
  | used {c} (hc : env.Bounded n c) (hdiscreet : env.Discreet c) : Renumbers env n serials c c

section Renumbers

variable {K : Correspondence} {env : Environment} {n : Nat} {serials : Nat → Nat → Prop}

theorem renumbers_all {cs ds : List Checker} (h : List.Forall₂ (Alike Eq) cs ds)
    (hpairs : ∀ p ∈ pairs (Checker.lookupsAll cs) (Checker.lookupsAll ds), serials p.1 p.2) :
    List.Forall₂ (Renumbers env n serials) cs ds := by
  induction h with
  | nil => exact .nil
  | cons hcd _ ih =>
    have hlength := hcd.length_lookups
    exact .cons (.alike hcd fun p hp => hpairs p ((mem_pairs_append hlength).2 (Or.inl hp)))
      (ih fun p hp => hpairs p ((mem_pairs_append hlength).2 (Or.inr hp)))

variable (henv : ∀ e ∈ env, env.Bounded n e.2) (hdiscreet : ∀ e ∈ env, env.Discreet e.2)
include henv hdiscreet

theorem renumbers_found {a : Address} {c : Checker} (h : Keyed.get? a env = some c) :
    Renumbers env n serials c c :=
  .used (henv _ (Keyed.mem_of_get? h)) (hdiscreet _ (Keyed.mem_of_get? h))

theorem renumbers_entry {e f : DeclaredKey × Property} (h : AlikeEntry Eq e f)
    (hpairs : ∀ p ∈ pairs (Checker.lookupsProperty e.2) (Checker.lookupsProperty f.2),
      serials p.1 p.2) : K.Entries env (Renumbers env n serials) e f := by
  cases h with
  | direct h => exact ⟨rfl, fun _ _ _ => .some (.alike h hpairs), rfl, rfl⟩
  | @produced _ label _ _ h =>
    refine ⟨rfl, fun _ _ _ => .some (.alike h hpairs), ?_, ?_⟩ <;> cases label <;> rfl
  | barren => exact ⟨rfl, fun _ _ _ => .none, rfl, rfl⟩
  | @found _ _ a b h =>
    subst h
    refine ⟨rfl, fun _ _ _ => ?_, rfl, rfl⟩
    simp only [Property.yields, Property.fixed?]
    cases hc : Keyed.get? a env with
    | none => exact .none
    | some c => exact .some (renumbers_found henv hdiscreet hc)

theorem renumbers_entries {ps qs : List (DeclaredKey × Property)}
    (h : List.Forall₂ (AlikeEntry Eq) ps qs)
    (hpairs : ∀ p ∈ pairs (Checker.lookupsProperties ps) (Checker.lookupsProperties qs),
      serials p.1 p.2) : List.Forall₂ (K.Entries env (Renumbers env n serials)) ps qs := by
  induction h with
  | nil => exact .nil
  | @cons e f _ _ hef _ ih =>
    have hlength := length_lookupsProperty hef
    exact .cons
      (renumbers_entry henv hdiscreet hef fun p hp =>
        hpairs p ((mem_pairs_append hlength).2 (Or.inl hp)))
      (ih fun p hp => hpairs p ((mem_pairs_append hlength).2 (Or.inr hp)))

theorem simulates_renumbering {ls ms : List Lookup} (hls : (ls.map Lookup.serial).Nodup)
    (hms : (ms.map Lookup.serial).Nodup) (hfresh : ∀ l ∈ ls ++ ms, n ≤ l.serial) :
    (renumbering hls hms hfresh).Simulates env
      (Renumbers env n (renumbering hls hms hfresh).serials) := by
  intro c d hcd
  cases hcd with
  | used hc hd =>
    refine matches_self (fun l hl => Or.inl ⟨rfl, hc.here l hl⟩) (fun d hask => ?_) ?_ ?_
    · exact .used (Environment.inherited_everywhere hc hask)
        (Environment.inherited_everywhere hd hask)
    · rintro ps rfl e he j j' hj
      exact Property.IsDiscreet.yields_eq (hd.here e he) env hj
    · rintro probe answer rfl
      exact hd.here
  | alike h hpairs =>
    cases h with
    | primitive => exact .primitive
    | literal => exact .literal
    | any h => exact .any (renumbers_all h hpairs)
    | nullable h => exact .nullable (.alike h hpairs)
    | array h => exact .array (.alike h hpairs)
    | object h => exact .object (renumbers_entries henv hdiscreet h hpairs)
    | reference ha =>
      exact .reference (hpairs _ List.mem_cons_self) ha fun c hc =>
        renumbers_found henv hdiscreet hc

end Renumbers

end Correspondence

/-- Alike checkers give the same answer if each numbers its references once and no number is in use
elsewhere, and instruments note the same meanwhile. -/
theorem check_eq_of_alike {env : Environment} {n : Nat} (henv : ∀ e ∈ env, env.Bounded n e.2)
    (hdiscreet : ∀ e ∈ env, env.Discreet e.2) {c d : Checker} (h : Alike Eq c d)
    (hc : (c.lookups.map Lookup.serial).Nodup) (hd : (d.lookups.map Lookup.serial).Nodup)
    (hfresh : ∀ l ∈ c.lookups ++ d.lookups, n ≤ l.serial) (v : Value) (j : List Event) :
    (env.check c v ⟨[], j⟩).1 = (env.check d v ⟨[], j⟩).1 ∧
      notes (env.check c v ⟨[], j⟩).2.journal = notes (env.check d v ⟨[], j⟩).2.journal := by
  have hsimulates := Correspondence.simulates_renumbering henv hdiscreet hc hd hfresh
  have hclear : (Correspondence.renumbering hc hd hfresh).Clear .root := fun e he => nomatch he
  have htrails : (Correspondence.renumbering hc hd hfresh).Trails ⟨[], j⟩ ⟨[], j⟩ :=
    ⟨⟨[], rfl, .nil⟩, rfl⟩
  obtain ⟨hanswer, -, -, hnotes⟩ := Correspondence.checkAt_agrees hsimulates
    (.alike h fun p hp => Or.inr hp) hclear v htrails
  rw [Place.join_root] at hanswer hnotes
  exact ⟨hanswer, hnotes⟩

end DataShape
