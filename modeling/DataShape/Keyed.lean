/-!
# Keyed lists

Association lists that remember the order in which their keys first came. Writing
to a key that is present replaces the value where it stands, writing to a new key
appends. `get?_put` and `keys_put` say so, and a list filled by `put` alone holds
no key twice (`nodup_keys_put`). Pairs with distinct keys are such a list as they stand
(`ofList_of_nodup`).
-/

namespace DataShape.Keyed

variable {κ α : Type} [DecidableEq κ]

/-- The value at a key. -/
def get? (k : κ) : List (κ × α) → Option α
  | [] => none
  | (k', v) :: r => if k' = k then some v else get? k r

/-- Writes a value at a key. -/
def put (k : κ) (v : α) : List (κ × α) → List (κ × α)
  | [] => [(k, v)]
  | (k', v') :: r => if k' = k then (k', v) :: r else (k', v') :: put k v r

/-- Removes a key. -/
def erase (k : κ) : List (κ × α) → List (κ × α)
  | [] => []
  | (k', v) :: r => if k' = k then erase k r else (k', v) :: erase k r

/-- The list that results from writing all pairs in turn. -/
def ofList (es : List (κ × α)) : List (κ × α) :=
  es.foldl (fun acc e => put e.1 e.2 acc) []

omit [DecidableEq κ] in
/-- The keys in their order. -/
def keys (es : List (κ × α)) : List κ :=
  es.map Prod.fst

omit [DecidableEq κ] in
@[simp] theorem keys_nil : keys ([] : List (κ × α)) = [] :=
  rfl

omit [DecidableEq κ] in
@[simp] theorem keys_cons (k : κ) (v : α) (es : List (κ × α)) :
    keys ((k, v) :: es) = k :: keys es :=
  rfl

theorem get?_put (k k' : κ) (v : α) (es : List (κ × α)) :
    get? k' (put k v es) = if k = k' then some v else get? k' es := by
  induction es with
  | nil => simp [put, get?]
  | cons e r ih =>
    obtain ⟨a, b⟩ := e
    by_cases h : a = k
    · subst h
      by_cases h' : a = k' <;> simp [put, get?, h']
    · by_cases h' : a = k'
      · subst h'
        simp [put, get?, h, Ne.symm h]
      · simp [put, get?, h, h', ih]

theorem get?_erase (k k' : κ) (es : List (κ × α)) :
    get? k' (erase k es) = if k = k' then none else get? k' es := by
  induction es with
  | nil => simp [erase, get?]
  | cons e r ih =>
    obtain ⟨a, b⟩ := e
    by_cases h : a = k
    · subst h
      by_cases h' : a = k'
      · subst h'
        simpa [erase] using ih
      · simpa [erase, get?, h'] using ih
    · by_cases h' : a = k'
      · subst h'
        simp [erase, get?, h, Ne.symm h]
      · simp [erase, get?, h, h', ih]

theorem put_put (k : κ) (v w : α) (es : List (κ × α)) : put k w (put k v es) = put k w es := by
  induction es with
  | nil => simp [put]
  | cons e r ih =>
    obtain ⟨a, b⟩ := e
    by_cases h : a = k <;> simp [put, h, ih]

/-- A key that is present is written where it stands. -/
theorem exists_split_of_get? {k : κ} {v : α} {es : List (κ × α)} (h : get? k es = some v) :
    ∃ pre post, es = pre ++ (k, v) :: post ∧ ∀ w, put k w es = pre ++ (k, w) :: post := by
  induction es with
  | nil => exact nomatch h
  | cons e r ih =>
    obtain ⟨a, b⟩ := e
    by_cases hk : a = k
    · subst hk
      rw [get?, if_pos rfl] at h
      obtain rfl := Option.some.inj h
      exact ⟨[], r, rfl, fun w => by simp [put]⟩
    · rw [get?, if_neg hk] at h
      obtain ⟨pre, post, rfl, hput⟩ := ih h
      exact ⟨(a, b) :: pre, post, rfl, fun w => by simp [put, hk, hput]⟩

theorem get?_eq_none_iff (k : κ) (es : List (κ × α)) : get? k es = none ↔ k ∉ keys es := by
  induction es with
  | nil => simp [get?]
  | cons e r ih =>
    obtain ⟨a, b⟩ := e
    by_cases h : a = k
    · simp [get?, h]
    · simp [get?, h, ih, Ne.symm h]

theorem get?_append (k : κ) (es fs : List (κ × α)) :
    get? k (es ++ fs) = (get? k es).or (get? k fs) := by
  induction es with
  | nil => rfl
  | cons e r ih =>
    obtain ⟨a, b⟩ := e
    by_cases h : a = k <;> simp [get?, h, ih]

theorem mem_of_get? {k : κ} {v : α} {es : List (κ × α)} (h : get? k es = some v) :
    (k, v) ∈ es := by
  induction es with
  | nil => simp [get?] at h
  | cons e r ih =>
    obtain ⟨a, b⟩ := e
    by_cases hk : a = k
    · subst hk
      simp_all [get?]
    · exact List.mem_cons_of_mem _ (ih (by simpa [get?, hk] using h))

/-- With distinct keys every pair is found at its key. -/
theorem get?_eq_some_iff {k : κ} {v : α} :
    ∀ {es : List (κ × α)}, (keys es).Nodup → (get? k es = some v ↔ (k, v) ∈ es)
  | [], _ => by simp [get?]
  | (a, b) :: r, h => by
    rw [keys_cons, List.nodup_cons] at h
    rw [get?, List.mem_cons, Prod.mk.injEq, ← get?_eq_some_iff h.2]
    by_cases hk : a = k
    · subst hk
      have hnone : get? a r = none := (get?_eq_none_iff a r).2 h.1
      simp [hnone, eq_comm]
    · simp [hk, Ne.symm hk]

theorem get?_filter (p : κ → Bool) (k : κ) (es : List (κ × α)) :
    get? k (es.filter fun e => p e.1) = if p k then get? k es else none := by
  induction es with
  | nil => simp [get?]
  | cons e r ih =>
    obtain ⟨a, b⟩ := e
    by_cases h : a = k
    · subst h
      cases hp : p a <;> simp_all [get?]
    · cases hp : p a <;> simp [get?, h, hp, ih]

theorem mem_or_eq_of_mem_put {k : κ} {v : α} {e : κ × α} {es : List (κ × α)}
    (h : e ∈ put k v es) : e = (k, v) ∨ e ∈ es := by
  induction es with
  | nil => simpa [put] using h
  | cons f r ih =>
    obtain ⟨a, b⟩ := f
    by_cases hk : a = k
    · subst hk
      simp only [put, if_true, List.mem_cons] at h
      exact h.imp_right (List.mem_cons_of_mem _)
    · simp only [put, hk, if_false, List.mem_cons] at h
      rcases h with rfl | h
      · exact Or.inr List.mem_cons_self
      · exact (ih h).imp_right (List.mem_cons_of_mem _)

theorem mem_of_mem_erase {k : κ} {e : κ × α} {es : List (κ × α)} (h : e ∈ erase k es) :
    e ∈ es := by
  induction es with
  | nil => simp [erase] at h
  | cons f r ih =>
    obtain ⟨a, b⟩ := f
    by_cases hk : a = k
    · exact List.mem_cons_of_mem _ (ih (by simpa [erase, hk] using h))
    · simp only [erase, hk, if_false, List.mem_cons] at h
      exact List.mem_cons.2 (h.imp_right ih)

theorem keys_put (k : κ) (v : α) (es : List (κ × α)) :
    keys (put k v es) = if k ∈ keys es then keys es else keys es ++ [k] := by
  induction es with
  | nil => simp [put]
  | cons e r ih =>
    obtain ⟨a, b⟩ := e
    by_cases h : a = k
    · simp [put, h]
    · by_cases hk : k ∈ keys r <;> simp [put, h, ih, hk, Ne.symm h]

theorem nodup_keys_put (k : κ) (v : α) {es : List (κ × α)} (h : (keys es).Nodup) :
    (keys (put k v es)).Nodup := by
  rw [keys_put]
  split
  · exact h
  · rename_i hk
    exact List.nodup_append.2
      ⟨h, by simp, fun a ha b hb => by simp only [List.mem_singleton] at hb; grind⟩

theorem nodup_keys_erase (k : κ) {es : List (κ × α)} (h : (keys es).Nodup) :
    (keys (erase k es)).Nodup := by
  induction es with
  | nil => exact h
  | cons e r ih =>
    obtain ⟨a, b⟩ := e
    rw [keys_cons, List.nodup_cons] at h
    by_cases hk : a = k
    · simpa [erase, hk] using ih h.2
    · rw [erase, if_neg hk, keys_cons, List.nodup_cons]
      refine ⟨fun hmem => h.1 ?_, ih h.2⟩
      obtain ⟨e, he, rfl⟩ := List.mem_map.1 hmem
      exact List.mem_map_of_mem (mem_of_mem_erase he)

theorem erase_of_notMem {k : κ} : ∀ {es : List (κ × α)}, k ∉ keys es → erase k es = es
  | [], _ => rfl
  | (k', v') :: es, h => by
    rw [keys_cons, List.mem_cons, not_or] at h
    rw [erase, if_neg (Ne.symm h.1), erase_of_notMem h.2]

theorem put_of_notMem {k : κ} (v : α) :
    ∀ {es : List (κ × α)}, k ∉ keys es → put k v es = es ++ [(k, v)]
  | [], _ => rfl
  | (k', v') :: es, h => by
    rw [keys_cons, List.mem_cons, not_or] at h
    rw [put, if_neg (Ne.symm h.1), put_of_notMem v h.2, List.cons_append]

/-- Writing pairs with new keys in turn appends them. -/
theorem foldl_put_of_nodup :
    ∀ {es acc : List (κ × α)}, (keys (acc ++ es)).Nodup →
      es.foldl (fun acc e => put e.1 e.2 acc) acc = acc ++ es
  | [], acc, _ => (List.append_nil acc).symm
  | (k, v) :: es, acc, h => by
    have hk : k ∉ keys acc := by
      rw [keys, List.map_append, List.nodup_append] at h
      exact fun hmem => h.2.2 k hmem k List.mem_cons_self rfl
    rw [List.foldl_cons, put_of_notMem v hk]
    rw [List.append_cons acc (k, v) es] at h ⊢
    exact foldl_put_of_nodup h

/-- Pairs with distinct keys are a keyed list as they stand. -/
theorem ofList_of_nodup {es : List (κ × α)} (h : (keys es).Nodup) : ofList es = es := by
  have hnil : (keys ([] ++ es)).Nodup := h
  exact foldl_put_of_nodup hnil

/-- A list that was written in turn holds no key twice. -/
theorem nodup_keys_ofList (es : List (κ × α)) : (keys (ofList es)).Nodup := by
  have hfold : ∀ {es acc : List (κ × α)}, (keys acc).Nodup →
      (keys (es.foldl (fun acc e => put e.1 e.2 acc) acc)).Nodup := by
    intro es
    induction es with
    | nil => exact id
    | cons e es ih => exact fun h => ih (nodup_keys_put e.1 e.2 h)
  exact hfold List.nodup_nil

theorem map_put {β : Type} (f : α → β) (k : κ) (v : α) (es : List (κ × α)) :
    (put k v es).map (fun e => (e.1, f e.2)) = put k (f v) (es.map fun e => (e.1, f e.2)) := by
  induction es with
  | nil => rfl
  | cons e es ih =>
    obtain ⟨a, b⟩ := e
    by_cases h : a = k <;> simp [put, h, ih]

/-- It makes no difference whether values are changed before or after they are written. -/
theorem map_ofList {β : Type} (f : α → β) (es : List (κ × α)) :
    (ofList es).map (fun e => (e.1, f e.2)) = ofList (es.map fun e => (e.1, f e.2)) := by
  have hfold : ∀ {es acc : List (κ × α)},
      (es.foldl (fun acc e => put e.1 e.2 acc) acc).map (fun e => (e.1, f e.2)) =
        (es.map fun e => (e.1, f e.2)).foldl (fun acc e => put e.1 e.2 acc)
          (acc.map fun e => (e.1, f e.2)) := by
    intro es
    induction es with
    | nil => exact rfl
    | cons e es ih =>
      intro acc
      rw [List.foldl_cons, ih, map_put, List.map_cons, List.foldl_cons]
  exact hfold

end DataShape.Keyed
