import DataShape.DeclaredKey
import Mathlib.Logic.Function.Basic

/-!
# Declared keys are a code for properties

Every text is in one way a head that does not end in a mark and a run of marks behind it
(`withoutMarks_append_marks`, `append_marks_inj`). Reading a key keeps the head and halves the
run, and the mark that is lost of an odd run is what makes the property optional. So a key is
determined by what it is read as, and it is the one that is written for that (`eq_ofName_iff`) :
keys and pairs of a name and a choice correspond one to one (`declared_keys_bijective`).
-/

namespace DataShape

attribute [ext] DeclaredKey

namespace DeclaredKey

/-- The text does not end in a mark. -/
def Unmarked (cs : List Char) : Prop :=
  cs.getLast? ≠ some '?'

/-- The text ends in a run of exactly this many marks. -/
def EndsInMarks (cs : List Char) (n : Nat) : Prop :=
  ∃ head, Unmarked head ∧ cs = head ++ List.replicate n '?'

variable {head head' : List Char}

/-! ## Heads and runs -/

/-- From the back a run of marks comes first, and what follows is no mark. -/
theorem Unmarked.span_reverse (h : Unmarked head) (n : Nat) :
    (head ++ List.replicate n '?').reverse.takeWhile isMark = List.replicate n '?' ∧
      (head ++ List.replicate n '?').reverse.dropWhile isMark = head.reverse := by
  have hmarks : ∀ c ∈ List.replicate n '?', isMark c = true := fun c hc =>
    (List.eq_of_mem_replicate hc).symm ▸ rfl
  have hstop : head.reverse.takeWhile isMark = [] ∧
      head.reverse.dropWhile isMark = head.reverse := by
    rw [Unmarked, List.getLast?_eq_head?_reverse] at h
    cases hhead : head.reverse with
    | nil => exact ⟨rfl, rfl⟩
    | cons c cs =>
      have hc : isMark c = false := by simpa [hhead, isMark] using h
      simp [hc]
  rw [List.reverse_append, List.reverse_replicate, List.takeWhile_append_of_pos hmarks,
    List.dropWhile_append_of_pos hmarks, hstop.1, hstop.2, List.append_nil]
  exact ⟨rfl, rfl⟩

theorem trailingMarks_append (h : Unmarked head) (n : Nat) :
    trailingMarks (head ++ List.replicate n '?') = n := by
  rw [trailingMarks, (h.span_reverse n).1, List.length_replicate]

theorem withoutMarks_append (h : Unmarked head) (n : Nat) :
    withoutMarks (head ++ List.replicate n '?') = head := by
  rw [withoutMarks, (h.span_reverse n).2, List.reverse_reverse]

theorem unmarked_withoutMarks (cs : List Char) : Unmarked (withoutMarks cs) := by
  rw [Unmarked, withoutMarks, List.getLast?_reverse]
  intro hmark
  have hstop := List.head?_dropWhile_not isMark cs.reverse
  rw [hmark] at hstop
  exact absurd hstop (by decide)

theorem withoutMarks_append_marks (cs : List Char) :
    withoutMarks cs ++ List.replicate (trailingMarks cs) '?' = cs := by
  have hrun : cs.reverse.takeWhile isMark = List.replicate (trailingMarks cs) '?' :=
    List.eq_replicate_of_mem fun c hc => eq_of_beq (List.all_eq_true.1 List.all_takeWhile c hc)
  rw [← List.reverse_reverse (List.replicate _ _), List.reverse_replicate, ← hrun, withoutMarks,
    ← List.reverse_append, List.takeWhile_append_dropWhile, List.reverse_reverse]

theorem endsInMarks_trailingMarks (cs : List Char) : EndsInMarks cs (trailingMarks cs) :=
  ⟨withoutMarks cs, unmarked_withoutMarks cs, (withoutMarks_append_marks cs).symm⟩

/-- A text is a head and a run in one way. -/
theorem append_marks_inj {m n : Nat} (h : Unmarked head) (h' : Unmarked head') :
    head ++ List.replicate m '?' = head' ++ List.replicate n '?' ↔ head = head' ∧ m = n := by
  constructor
  · intro heq
    have hheads := congrArg withoutMarks heq
    have hruns := congrArg trailingMarks heq
    rw [withoutMarks_append h, withoutMarks_append h'] at hheads
    rw [trailingMarks_append h, trailingMarks_append h'] at hruns
    exact ⟨hheads, hruns⟩
  · rintro ⟨rfl, rfl⟩
    rfl

/-! ## Reading and writing -/

theorem toList_ofName (name : String) (optional : Bool) :
    (ofName name optional).declared.toList =
      name.toList ++ List.replicate (trailingMarks name.toList + optional.toNat) '?' := by
  rw [ofName, String.toList_ofList]

/-- A key is read as a name and a choice exactly if it is the one that is written for them. -/
theorem eq_ofName_iff {k : DeclaredKey} {name : String} {optional : Bool} :
    k.name = name ∧ k.isOptional = optional ↔ k = ofName name optional := by
  have hk := unmarked_withoutMarks k.declared.toList
  have hname := unmarked_withoutMarks name.toList
  have hread : k.name = name ↔ withoutMarks k.declared.toList = withoutMarks name.toList ∧
      trailingMarks k.declared.toList / 2 = trailingMarks name.toList := by
    rw [← append_marks_inj hk hname, withoutMarks_append_marks, ← String.toList_inj,
      DeclaredKey.name, String.toList_ofList, nameChars]
  have hwritten : k = ofName name optional ↔
      withoutMarks k.declared.toList = withoutMarks name.toList ∧ trailingMarks k.declared.toList =
        trailingMarks name.toList + (trailingMarks name.toList + optional.toNat) := by
    rw [← append_marks_inj hk hname, withoutMarks_append_marks, ← List.replicate_append_replicate,
      ← List.append_assoc, withoutMarks_append_marks, ← toList_ofName, String.toList_inj,
      DeclaredKey.ext_iff]
  rw [hread, hwritten, and_assoc, isOptional]
  refine and_congr_right fun _ => ?_
  cases optional with
  | false =>
    rw [beq_eq_false_iff_ne, Bool.toNat_false]
    omega
  | true =>
    rw [beq_iff_eq, Bool.toNat_true]
    omega

end DeclaredKey

/-- Declared keys correspond one to one to names with a choice whether the property is optional. The
key of a name is the name with as many marks behind it as it ends in, and one more if the property
is optional. -/
theorem declared_keys_bijective :
    Function.Bijective (fun declared : String =>
      ((DeclaredKey.mk declared).name, (DeclaredKey.mk declared).isOptional)) ∧
    ∀ (name : String) (optional : Bool), ∃ n, DeclaredKey.EndsInMarks name.toList n ∧
      ∀ k : DeclaredKey, k.name = name ∧ k.isOptional = optional ↔
        k.declared = name ++ String.ofList (List.replicate (n + optional.toNat) '?') := by
  refine ⟨⟨fun s t h => ?_, fun ⟨name, optional⟩ => ?_⟩, fun name optional => ?_⟩
  · have hs := DeclaredKey.eq_ofName_iff.1 (Prod.mk.inj h)
    have ht : DeclaredKey.mk t = _ := DeclaredKey.eq_ofName_iff.1 ⟨rfl, rfl⟩
    exact congrArg DeclaredKey.declared (hs.trans ht.symm)
  · have hwritten : DeclaredKey.ofName name optional = .ofName name optional := rfl
    obtain ⟨hname, hoptional⟩ := DeclaredKey.eq_ofName_iff.2 hwritten
    exact ⟨_, Prod.ext hname hoptional⟩
  · refine ⟨_, DeclaredKey.endsInMarks_trailingMarks name.toList, fun k => ?_⟩
    rw [DeclaredKey.eq_ofName_iff, DeclaredKey.ext_iff, ← String.toList_inj,
      DeclaredKey.toList_ofName, ← String.toList_inj, String.toList_append, String.toList_ofList]

end DataShape
