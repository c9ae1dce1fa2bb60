import DataShape.Proofs.Check.Renumbering
import DataShape.Proofs.Descriptor.Merged
import DataShape.Proofs.Registry.FreshNumbers
import DataShape.Session

/-!
# Descriptors that are written and read again

A descriptor that is written and read again comes back with its repeated keys merged. It is written
as the same document, and as a checker it is the same but for the numbers of its references
(`Descriptor.alike_compile_merged`). These are new when it is compiled, so no check can tell
(`check_compiled_eq`) : whatever the registries hold, instruments among it, as long as scripted
checkers and producers go by what instruments noted, and the producers yield nothing with references
that are not in use. The scripts of a session do (`Session.discreet_script`).

Main statement : `rereading_keeps_meaning`.
-/

namespace DataShape

/-- A scripted checker counts how often it was asked. -/
theorem Session.discreet_script (p : Probe) (answers : List Bool) :
    ∃ answer, Session.script p answers = .scripted p answer ∧ Discreet answer := by
  refine ⟨_, rfl, fun j j' h => ?_⟩
  refine congrArg (fun times => answers.getD times false) (countP_eq_of_notes_eq h fun e he => ?_)
  cases e with
  | asked q kind => rfl
  | _ => exact nomatch he

/-- What scripted producers of the checker may yield has references with numbers below this one. -/
def Checker.YieldsBelow (n : Nat) : Checker → Prop
  | .object ps => ∀ e ∈ ps, ∀ probe yield, e.2 = .scripted probe yield →
      ∀ j c, yield j = some c → c.Below n
  | _ => True

/-- What a checker asks has numbers below a bound, if the checker and all that is found have. -/
theorem Asks.below {env : Environment} {n : Nat} (henv : ∀ e ∈ env, e.2.Below n) {c d : Checker}
    (h : Asks env c d) (hc : c.Below n) (hyields : c.YieldsBelow n) : d.Below n := by
  cases h with
  | any hd => exact fun l hl => hc l (Checker.lookups_subset_lookupsAll hd hl)
  | nullable | array | watched => exact hc
  | @object _ _ p _ _ hmem hp =>
    have hsub := Checker.lookupsProperty_subset_lookupsProperties hmem
    cases p with
    | direct d | produced _ d =>
      obtain rfl := Option.some.inj hp
      exact fun l hl => hc l (hsub hl)
    | barren _ => exact nomatch hp
    | found _ a => exact henv _ (Keyed.mem_of_get? hp)
    | scripted probe yield => exact hyields _ hmem probe yield rfl _ _ hp
  | reference hd => exact henv _ (Keyed.mem_of_get? hd)

theorem Checker.Below.bounded {env : Environment} {n : Nat} (henv : ∀ e ∈ env, e.2.Below n)
    {c : Checker} (hc : c.Below n) (hyields : env.Everywhere (Checker.YieldsBelow n) c) :
    env.Bounded n c := by
  have hinherited : Inherited env fun d => d.Below n ∧ env.Everywhere (Checker.YieldsBelow n) d :=
    fun d e hd hask => ⟨hask.below henv hd.1 hd.2.here, Environment.inherited_everywhere hd.2 hask⟩
  refine (Environment.everywhere_of_inherited hinherited ⟨hc, hyields⟩).imp fun d hd l hl => ?_
  exact hd.1 l (hl ▸ List.mem_cons_self)

section Compiled

variable {u : Usage} {s : Session}

/-- What can be found in a session has references with numbers that are in use. -/
theorem Session.environment_below (hu : u.Reachable Usage.Cites) (hs : s.registries = u.registries)
    (hslots : ∀ e ∈ s.slots, e.2.lookups ⊆ u.held.flatMap Checker.lookups) :
    ∀ e ∈ s.environment, e.2.Below u.registries.next := by
  have hbelow := Usage.below_of_reachable hu
  refine List.forall_mem_append.2 ⟨hs ▸ hbelow.registries.environment, fun e he => ?_⟩
  obtain ⟨slot, hslot, rfl⟩ := List.mem_map.1 he
  exact hbelow.of_subset (hslots slot hslot)

/-- A descriptor and the same with its keys merged, compiled with new numbers, give the same
answers, and instruments note the same. -/
theorem check_compiled_eq (hu : u.Reachable Usage.Cites) (hs : s.registries = u.registries)
    (hslots : ∀ e ∈ s.slots, e.2.lookups ⊆ u.held.flatMap Checker.lookups)
    (hdiscreet : ∀ e ∈ s.environment, s.environment.Discreet e.2)
    (hyields : ∀ e ∈ s.environment,
      s.environment.Everywhere (Checker.YieldsBelow u.registries.next) e.2)
    (d : Descriptor) {i n m : Nat} (hn : u.registries.next ≤ n) (hm : u.registries.next ≤ m)
    (v : Value) :
    (s.check (d.compile i n).1 v).1.1 = (s.check (d.merged.compile i m).1 v).1.1 ∧
      notes (s.check (d.compile i n).1 v).2.journal =
        notes (s.check (d.merged.compile i m).1 v).2.journal := by
  have hbelow := Session.environment_below hu hs hslots
  refine check_eq_of_alike (fun e he => (hbelow e he).bounded hbelow (hyields e he)) hdiscreet
    (d.alike_compile_merged i n m) (d.nodup_compile i n) (d.merged.nodup_compile i m)
    (List.forall_mem_append.2 ⟨fun l hl => ?_, fun l hl => ?_⟩) v s.journal
  · exact Nat.le_trans hn ((Descriptor.numbered_compile i d n).bounds l hl).1
  · exact Nat.le_trans hm ((Descriptor.numbered_compile i d.merged m).bounds l hl).1

end Compiled

open Descriptor (ofDocument) in
/-- A descriptor that refers to no blank name is written as a document that can be read, although
its keys may be repeated. What is read is written as the same document, and compiled at any time,
for any registry and from any number on that is not in use, it becomes a checker that gives the same
answers. Numbers are in use in what is found and in what producers may yield. -/
theorem rereading_keeps_meaning (d : Descriptor)
    (hd : ∀ name ∈ d.allReferences, Text.isBlank name = false) :
    ∃ d', ofDocument d.toDocument = .ok d' ∧ d'.toDocument = d.toDocument ∧
      ∀ (u : Usage) (s : Session), u.Reachable Usage.Cites → s.registries = u.registries →
        (∀ e ∈ s.slots, e.2.lookups ⊆ u.held.flatMap Checker.lookups) →
        (∀ e ∈ s.environment, s.environment.Discreet e.2) →
        (∀ e ∈ s.environment,
          s.environment.Everywhere (Checker.YieldsBelow u.registries.next) e.2) →
        ∀ i n m, u.registries.next ≤ n → u.registries.next ≤ m → ∀ v,
          (s.check (d.compile i n).1 v).1.1 = (s.check (d'.compile i m).1 v).1.1 :=
  ⟨d.merged, Descriptor.ofDocument_toDocument_eq_merged hd, d.toDocument_merged,
    fun _ _ hu hs hslots hdiscreet hyields _ _ _ hn hm v =>
      (check_compiled_eq hu hs hslots hdiscreet hyields d hn hm v).1⟩

/-- The key `a` is declared twice, and all names lead to a scripted checker. The first checker
numbers its references 3 and 2, since one of three is dropped and the last one moves to the front.
The second one numbers them in their order. -/
theorem repeated_key_reread :
    let d := Descriptor.object [("a", .array (.ref "leaf")), ("b", .array (.ref "leaf")),
      ("a", .nullable (.ref "leaf"))]
    let d' := Descriptor.object [("a", .nullable (.ref "leaf")), ("b", .array (.ref "leaf"))]
    let leaf := Session.script ⟨1, "leaf"⟩ [true, false]
    let u := Usage.empty.act (.register "global" "leaf" leaf)
    let s : Session := ⟨u.registries, [], []⟩
    Descriptor.ofDocument d.toDocument = .ok d' ∧ d'.toDocument = d.toDocument ∧
      (d.compile 0 1).1.lookups.map Lookup.serial = [3, 2] ∧
      (d'.compile 0 4).1.lookups.map Lookup.serial = [4, 5] ∧
      ∀ v, (s.check (d.compile 0 1).1 v).1.1 = (s.check (d'.compile 0 4).1 v).1.1 := by
  intro d d' leaf u s
  have hblank : ∀ name ∈ d.allReferences, Text.isBlank name = false := by decide
  have hu : u.Reachable Usage.Cites := .act .start nofun
  obtain ⟨answer, hscript, hanswer⟩ := Session.discreet_script ⟨1, "leaf"⟩ [true, false]
  have hleaf : ∀ e ∈ s.environment,
      s.environment.Everywhere (· = .scripted ⟨1, "leaf"⟩ answer) e.2 := by
    intro e he
    obtain rfl := List.mem_singleton.1 he
    refine Environment.everywhere_of_inherited (fun c d hc hask => ?_) hscript
    subst hc
    exact nomatch hask
  obtain ⟨d'', hread, hwritten, hchecked⟩ := rereading_keeps_meaning d hblank
  obtain rfl : d' = d'' := Except.ok.inj hread
  exact ⟨hread, hwritten, rfl, rfl,
    hchecked u s hu rfl nofun (fun e he => (hleaf e he).imp fun c hc => hc ▸ hanswer)
      (fun e he => (hleaf e he).imp fun c hc => hc ▸ trivial) 0 1 4 (Nat.le_refl 1) (by decide)⟩

end DataShape
