/-!
# Sets of names

Sets of names as ascending lists. The order is that of code points, and it shows :
references are listed and followed in it.
-/

namespace DataShape.NameSet

/-- Adds a name in its place. -/
def insert (n : String) : List String → List String
  | [] => [n]
  | m :: ms => if n < m then n :: m :: ms else if m = n then m :: ms else m :: insert n ms

/-- The names of a list, each once. -/
def ofList (ns : List String) : List String :=
  ns.foldl (fun acc n => insert n acc) []

theorem mem_insert {a n : String} {ms : List String} : a ∈ insert n ms ↔ a = n ∨ a ∈ ms := by
  induction ms with
  | nil => simp [insert]
  | cons m ms ih =>
    by_cases hlt : n < m
    · simp [insert, hlt]
    · by_cases hm : m = n
      · subst hm
        simp [insert]
      · simp [insert, hlt, hm, ih, or_left_comm]

theorem mem_foldl_insert {a : String} {ns ms : List String} :
    a ∈ ns.foldl (fun acc n => insert n acc) ms ↔ a ∈ ms ∨ a ∈ ns := by
  induction ns generalizing ms with
  | nil => simp
  | cons n ns ih => simp only [List.foldl_cons, ih, mem_insert, List.mem_cons]; grind

theorem mem_ofList {a : String} {ns : List String} : a ∈ ofList ns ↔ a ∈ ns := by
  simp [ofList, mem_foldl_insert]

end DataShape.NameSet
