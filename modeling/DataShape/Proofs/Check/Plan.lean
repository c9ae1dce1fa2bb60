import DataShape.Checker.Basic

/-!
# Plans of checks

A plan is a tree of what may have to be asked : instruments at the leaves, and parts that
come one after the other as long as their answers give no reason to stop. Below a producer
the plan goes on with what is yielded. `Plan.visits` lists all instruments of a plan and
all that is noted on the way, depth first and from left to right.

What the instruments answer and the producers yield decides what the plan comes to
(`Plan.value`) and which of the visits are due (`Plan.due`) : those for which each part in
front, on every level, has given the answer to go on with. Both are folds that know no
order of events. What is answered and yielded in due visits determines both
(`Plan.value_eq_of_agree`).

A run of a plan makes the visits that are due in that order, and each instrument and each
producer goes by the journal at its moment (`Plan.Runs`). Runs of the parts are put
together to runs of the whole (`Plan.Runs.stop`, `Plan.Runs.next`).
-/

namespace DataShape

/-- The way to a part of a plan, part by part. -/
abbrev Route := List Nat

/-- What each instrument answers and each producer yields, by its place in a plan. -/
structure Answers where
  answer : Route → Bool
  yielded : Route → Option Checker

/-- What may have to be asked. -/
inductive Plan where
  /-- An answer without a question. -/
  | settled (answer : Bool)
  /-- An instrument, which answers by the journal. -/
  | asks (event : Event) (answer : List Event → Bool)
  /-- Something to note first. -/
  | notes (event : Event) (rest : Plan)
  /-- A producer, which yields by the journal. The plan goes on with what it yields. -/
  | makes (event : Event) (yield : List Event → Option Checker) (rest : Option Checker → Plan)
  /-- Parts one after the other, as long as they give the answer to go on with. -/
  | inTurn (goOn : Bool) (parts : List Plan)

/-- The route to the part after. -/
def Route.later : Route → Route
  | [] => []
  | k :: r => (k + 1) :: r

namespace Answers

/-- The same by places seen from elsewhere. -/
def along (α : Answers) (f : Route → Route) : Answers :=
  ⟨fun r => α.answer (f r), fun r => α.yielded (f r)⟩

/-- The answers in a part. -/
def part (α : Answers) (k : Nat) : Answers :=
  α.along (k :: ·)

/-- The answers in the parts after the first one. -/
def rest (α : Answers) : Answers :=
  α.along Route.later

/-- The same everywhere. -/
def always (b : Bool) (c : Option Checker) : Answers :=
  ⟨fun _ => b, fun _ => c⟩

/-- What is at the end of a route in a first part, or of one in those after it. -/
def fork {α : Type} (first others : Route → α) : Route → α
  | [] => others []
  | 0 :: r => first r
  | (k + 1) :: r => others (k :: r)

/-- The answers in a first part and in those after it. -/
def join (α β : Answers) : Answers :=
  ⟨fork α.answer β.answer, fork α.yielded β.yielded⟩

theorem part_join (α β : Answers) : (α.join β).part 0 = α :=
  rfl

theorem fork_later {α : Type} (first others : Route → α) (r : Route) :
    fork first others (Route.later r) = others r := by
  cases r <;> rfl

theorem rest_join (α β : Answers) : (α.join β).rest = β := by
  simp only [rest, along, join, fork_later]

end Answers

/-- By what is decided how things go on after an event. -/
inductive Script where
  | none
  | answers (answer : List Event → Bool)
  | yields (yield : List Event → Option Checker)

/-- What happens at one place of a plan, and how it is answered if it is a question. -/
structure Visit where
  route : Route
  event : Event
  script : Script

namespace Visit

/-- The same at another place. -/
def moved (f : Route → Route) (x : Visit) : Visit :=
  { x with route := f x.route }

/-- What is decided there is the same. -/
def Same (α β : Answers) (x : Visit) : Prop :=
  match x.script with
  | .none => True
  | .answers _ => β.answer x.route = α.answer x.route
  | .yields _ => β.yielded x.route = α.yielded x.route

/-- What is decided there is so by this journal. -/
def Follows (α : Answers) (j : List Event) (x : Visit) : Prop :=
  match x.script with
  | .none => True
  | .answers answer => α.answer x.route = answer j
  | .yields yield => α.yielded x.route = yield j

end Visit

namespace Plan

/-! ## What a plan comes to -/

mutual
/-- The answer of a plan. -/
def value : Plan → Answers → Bool
  | settled answer, _ => answer
  | asks _ _, α => α.answer []
  | notes _ rest, α => rest.value (α.part 0)
  | makes _ _ rest, α => (rest (α.yielded [])).value (α.part 0)
  | inTurn goOn parts, α => if allGive goOn parts α then goOn else !goOn

/-- Whether all parts give an answer. -/
def allGive (answer : Bool) : List Plan → Answers → Bool
  | [], _ => true
  | p :: ps, α => p.value (α.part 0) == answer && allGive answer ps α.rest
end

mutual
/-- All places of a plan, depth first and from left to right, with those below producers for what
they yield. -/
def visits : Plan → Answers → List Visit
  | settled _, _ => []
  | asks event answer, _ => [⟨[], event, .answers answer⟩]
  | notes event rest, α => ⟨[], event, .none⟩ :: (rest.visits (α.part 0)).map (·.moved (0 :: ·))
  | makes event yield rest, α =>
    ⟨[], event, .yields yield⟩ ::
      ((rest (α.yielded [])).visits (α.part 0)).map (·.moved (0 :: ·))
  | inTurn _ parts, α => visitsAll parts α

def visitsAll : List Plan → Answers → List Visit
  | [], _ => []
  | p :: ps, α =>
    (p.visits (α.part 0)).map (·.moved (0 :: ·)) ++ (visitsAll ps α.rest).map (·.moved Route.later)
end

mutual
/-- Whether all parts in front of a place, on every level, give the answer to go on with. -/
def due : Plan → Answers → Route → Bool
  | settled _, _, _ => true
  | asks _ _, _, _ => true
  | notes _ _, _, [] => true
  | notes _ rest, α, _ :: r => rest.due (α.part 0) r
  | makes _ _ _, _, [] => true
  | makes _ _ rest, α, _ :: r => (rest (α.yielded [])).due (α.part 0) r
  | inTurn _ _, _, [] => false
  | inTurn goOn parts, α, k :: r => allGive goOn (parts.take k) α && dueAt parts k (α.part k) r

def dueAt : List Plan → Nat → Answers → Route → Bool
  | [], _, _, _ => false
  | p :: _, 0, α, r => p.due α r
  | _ :: ps, k + 1, α, r => dueAt ps k α r
end

/-- The visits that are due. -/
def log (p : Plan) (α : Answers) : List Visit :=
  (p.visits α).filter fun x => p.due α x.route

variable {p : Plan} {ps : List Plan} {goOn : Bool} {α β : Answers} {e : Event}

theorem value_inTurn_cons : (inTurn goOn (p :: ps)).value α =
    if p.value (α.part 0) = goOn then (inTurn goOn ps).value α.rest else !goOn := by
  by_cases h : p.value (α.part 0) = goOn <;> simp [value, allGive, h]

theorem due_later (r : Route) : (inTurn goOn (p :: ps)).due α (Route.later r) =
    (p.value (α.part 0) == goOn && (inTurn goOn ps).due α.rest r) := by
  cases r with
  | nil => simp [Route.later, due]
  | cons k r =>
    rw [Route.later, due, due, List.take_succ_cons, allGive, dueAt, Bool.and_assoc]
    rfl

theorem log_notes : (notes e p).log α =
    ⟨[], e, .none⟩ :: (p.log (α.part 0)).map (·.moved (0 :: ·)) := by
  rw [log, visits, List.filter_cons_of_pos (by simp [due]), List.filter_map]
  rfl

theorem log_makes {yield : List Event → Option Checker} {rest : Option Checker → Plan} :
    (makes e yield rest).log α = ⟨[], e, .yields yield⟩ ::
      ((rest (α.yielded [])).log (α.part 0)).map (·.moved (0 :: ·)) := by
  rw [log, visits, List.filter_cons_of_pos (by simp [due]), List.filter_map]
  rfl

/-- The parts after the first one are visited if it says so. -/
theorem log_inTurn_cons : (inTurn goOn (p :: ps)).log α =
    (p.log (α.part 0)).map (·.moved (0 :: ·)) ++
      if p.value (α.part 0) = goOn then ((inTurn goOn ps).log α.rest).map (·.moved Route.later)
      else [] := by
  have hfirst : ∀ r, (inTurn goOn (p :: ps)).due α (0 :: r) = p.due (α.part 0) r := fun r => by
    simp [due, dueAt, allGive]
  rw [log, visits, visitsAll, List.filter_append, List.filter_map, List.filter_map]
  simp only [Function.comp_def, Visit.moved, hfirst, due_later]
  by_cases h : p.value (α.part 0) = goOn
  · simp [h, log, visits]
  · simp [h, log]

/-! ## Answers that do not matter -/

/-- The same is decided at some visits. -/
def Agree (α β : Answers) (log : List Visit) : Prop :=
  ∀ x ∈ log, x.Same α β

theorem agree_moved {f : Route → Route} {log : List Visit} :
    Agree α β (log.map (·.moved f)) ↔ Agree (α.along f) (β.along f) log :=
  List.forall_mem_map

theorem agree_append {xs ys : List Visit} :
    Agree α β (xs ++ ys) ↔ Agree α β xs ∧ Agree α β ys :=
  List.forall_mem_append

theorem agree_cons {x : Visit} {xs : List Visit} :
    Agree α β (x :: xs) ↔ x.Same α β ∧ Agree α β xs :=
  List.forall_mem_cons

mutual
/-- What a plan comes to and what is due in it follows from what is decided in due visits. -/
theorem value_eq_of_agree : ∀ (p : Plan) {α β : Answers}, Agree α β (p.log α) →
    p.value β = p.value α ∧ p.log β = p.log α
  | settled _, _, _, _ => ⟨rfl, rfl⟩
  | asks event answer, α, β, h => by
    have hanswer : β.answer [] = α.answer [] :=
      h ⟨[], event, .answers answer⟩ (by simp [log, visits, due])
    exact ⟨hanswer, rfl⟩
  | notes event rest, α, β, h => by
    rw [log_notes, agree_cons, agree_moved] at h
    obtain ⟨hvalue, hlog⟩ := value_eq_of_agree rest h.2
    have hlog : rest.log (β.part 0) = rest.log (α.part 0) := hlog
    exact ⟨hvalue, by rw [log_notes, log_notes, hlog]⟩
  | makes event yield rest, α, β, h => by
    rw [log_makes, agree_cons, agree_moved] at h
    have hyielded : β.yielded [] = α.yielded [] := h.1
    obtain ⟨hvalue, hlog⟩ := value_eq_of_agree (rest (α.yielded [])) h.2
    have hlog : (rest (α.yielded [])).log (β.part 0) = (rest (α.yielded [])).log (α.part 0) := hlog
    rw [log_makes, log_makes, hyielded, hlog]
    exact ⟨by rw [value, value, hyielded]; exact hvalue, rfl⟩
  | inTurn goOn parts, _, _, h => valueAll_eq_of_agree goOn parts h

theorem valueAll_eq_of_agree (goOn : Bool) : ∀ (ps : List Plan) {α β : Answers},
    Agree α β ((inTurn goOn ps).log α) →
      (inTurn goOn ps).value β = (inTurn goOn ps).value α ∧
        (inTurn goOn ps).log β = (inTurn goOn ps).log α
  | [], _, _, _ => ⟨rfl, rfl⟩
  | p :: ps, α, β, h => by
    rw [log_inTurn_cons, agree_append, agree_moved] at h
    obtain ⟨hvalue, hlog⟩ := value_eq_of_agree p h.1
    have hvalue : p.value (β.part 0) = p.value (α.part 0) := hvalue
    have hlog : p.log (β.part 0) = p.log (α.part 0) := hlog
    rw [value_inTurn_cons, value_inTurn_cons, log_inTurn_cons, log_inTurn_cons, hvalue, hlog]
    -- The other parts matter only if the first one says to go on.
    by_cases hgo : p.value (α.part 0) = goOn
    · rw [if_pos hgo, agree_moved] at h
      obtain ⟨hrest, hlogs⟩ := valueAll_eq_of_agree goOn ps h.2
      have hlogs : (inTurn goOn ps).log β.rest = (inTurn goOn ps).log α.rest := hlogs
      simp only [if_pos hgo, hlogs]
      exact ⟨hrest, trivial⟩
    · simp only [if_neg hgo]
      exact ⟨trivial, trivial⟩
end

/-! ## Runs -/

/-- What is decided at some visits is so by the journal at their moments. -/
def Answered (α : Answers) : List Event → List Visit → Prop
  | _, [] => True
  | j, x :: xs => x.Follows α j ∧ Answered α (x.event :: j) xs

theorem answered_moved {f : Route → Route} : ∀ {j : List Event} {xs : List Visit},
    Answered α j (xs.map (·.moved f)) ↔ Answered (α.along f) j xs
  | _, [] => Iff.rfl
  | _, _ :: _ => and_congr_right' answered_moved

theorem answered_append : ∀ {j : List Event} {xs ys : List Visit},
    Answered α j (xs ++ ys) ↔
      Answered α j xs ∧ Answered α ((xs.map Visit.event).reverse ++ j) ys
  | _, [], _ => by simp [Answered]
  | j, x :: xs, ys => by
    rw [List.cons_append, Answered, Answered, answered_append, and_assoc]
    simp

/-- A plan is gone through from a journal on, with this answer and these events, the latest one
first. -/
def Runs (p : Plan) (j : List Event) (answer : Bool) (es : List Event) : Prop :=
  ∃ α, Answered α j (p.log α) ∧ p.value α = answer ∧ ((p.log α).map Visit.event).reverse = es

variable {q : Plan} {j es fs : List Event} {b : Bool}

theorem runs_settled : (settled b).Runs j b [] :=
  ⟨.always b none, trivial, rfl, rfl⟩

theorem runs_asks {answer : List Event → Bool} : (asks e answer).Runs j (answer j) [e] :=
  ⟨.always (answer j) none, ⟨rfl, trivial⟩, rfl, rfl⟩

theorem Runs.notes (h : p.Runs (e :: j) b es) : (notes e p).Runs j b (es ++ [e]) := by
  obtain ⟨α, hanswered, rfl, rfl⟩ := h
  refine ⟨α.join α, ?_, rfl, ?_⟩
  · rw [log_notes]
    exact ⟨trivial, answered_moved.2 hanswered⟩
  · rw [log_notes, Answers.part_join]
    simp [Function.comp_def, Visit.moved]

/-- A producer runs, and the plan for what it yields follows. -/
theorem Runs.makes {yield : List Event → Option Checker} {rest : Option Checker → Plan}
    (h : (rest (yield j)).Runs (e :: j) b es) : (makes e yield rest).Runs j b (es ++ [e]) := by
  obtain ⟨α, hanswered, rfl, rfl⟩ := h
  have hlog : (Plan.makes e yield rest).log (α.join (.always false (yield j))) =
      ⟨[], e, .yields yield⟩ :: ((rest (yield j)).log α).map (·.moved (0 :: ·)) := log_makes
  refine ⟨α.join (.always false (yield j)), ?_, rfl, ?_⟩
  · rw [hlog]
    exact ⟨rfl, answered_moved.2 hanswered⟩
  · rw [hlog]
    simp [Function.comp_def, Visit.moved]

theorem runs_nil : (inTurn b []).Runs j b [] :=
  ⟨.always b none, trivial, rfl, rfl⟩

/-- The first part gives another answer, and that is the end. -/
theorem Runs.stop (h : p.Runs j (!goOn) es) : (inTurn goOn (p :: ps)).Runs j (!goOn) es := by
  obtain ⟨α, hanswered, hvalue, rfl⟩ := h
  have hstop : p.value α ≠ goOn := by simp [hvalue]
  refine ⟨α.join α, ?_, ?_, ?_⟩
  · rw [log_inTurn_cons, Answers.part_join, if_neg hstop, List.append_nil]
    exact answered_moved.2 hanswered
  · rw [value_inTurn_cons, Answers.part_join, if_neg hstop]
  · rw [log_inTurn_cons, Answers.part_join, if_neg hstop]
    simp [Function.comp_def, Visit.moved]

/-- The first part says to go on, and the others follow. -/
theorem Runs.next (h : p.Runs j goOn es) (hs : (inTurn goOn ps).Runs (es ++ j) b fs) :
    (inTurn goOn (p :: ps)).Runs j b (fs ++ es) := by
  obtain ⟨α, hanswered, hvalue, rfl⟩ := h
  obtain ⟨β, hanswereds, rfl, rfl⟩ := hs
  have hlog : (inTurn goOn (p :: ps)).log (α.join β) = (p.log α).map (·.moved (0 :: ·)) ++
      ((inTurn goOn ps).log β).map (·.moved Route.later) := by
    rw [log_inTurn_cons, Answers.part_join, Answers.rest_join, if_pos hvalue]
  have hevents : ∀ (f : Route → Route) (xs : List Visit),
      (xs.map (·.moved f)).map Visit.event = xs.map Visit.event := fun f xs => by
    simp [Function.comp_def, Visit.moved]
  refine ⟨α.join β, ?_, ?_, ?_⟩
  · rw [hlog, answered_append, answered_moved, answered_moved, hevents]
    refine ⟨hanswered, ?_⟩
    have hrest := Answers.rest_join α β
    unfold Answers.rest at hrest
    rwa [hrest]
  · rw [value_inTurn_cons, Answers.part_join, Answers.rest_join, if_pos hvalue]
  · rw [hlog, List.map_append, hevents, hevents, List.reverse_append]

end Plan

end DataShape
