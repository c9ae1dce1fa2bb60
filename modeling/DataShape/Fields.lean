import DataShape.Keyed

/-!
# Sorted fields

The fields of an object value in ascending order of their keys, which is the order
of code points. `insert` puts a field in its place and replaces one that is there
already, so a list built by `insert` alone is strictly ascending (`sorted_insert`). Fields
that ascend are such a list as they stand (`ofList_of_sorted`), and pairs may be put in a keyed list
before they are sorted (`ofList_keyed`).
-/

namespace DataShape.Fields

variable {α : Type}

/-- The keys ascend strictly. -/
def Sorted (fs : List (String × α)) : Prop :=
  (Keyed.keys fs).Pairwise (· < ·)

/-- Writes a field in its place. -/
def insert (k : String) (v : α) : List (String × α) → List (String × α)
  | [] => [(k, v)]
  | (k', v') :: r =>
    if k < k' then (k, v) :: (k', v') :: r
    else if k' = k then (k', v) :: r
    else (k', v') :: insert k v r

/-- The fields that result from writing all pairs in turn. -/
def ofList (es : List (String × α)) : List (String × α) :=
  es.foldl (fun acc e => insert e.1 e.2 acc) []

theorem get?_insert (k k' : String) (v : α) (fs : List (String × α)) :
    Keyed.get? k' (insert k v fs) = if k = k' then some v else Keyed.get? k' fs := by
  induction fs with
  | nil => simp [insert, Keyed.get?]
  | cons e r ih =>
    obtain ⟨a, b⟩ := e
    by_cases hlt : k < a
    · simp [insert, Keyed.get?, hlt]
    · by_cases ha : a = k
      · subst ha
        by_cases h : a = k' <;> simp [insert, Keyed.get?, h]
      · by_cases h : a = k'
        · subst h
          simp [insert, Keyed.get?, hlt, ha, Ne.symm ha]
        · simp [insert, Keyed.get?, hlt, ha, h, ih]

theorem mem_keys_insert (k a : String) (v : α) (fs : List (String × α)) :
    a ∈ Keyed.keys (insert k v fs) ↔ a = k ∨ a ∈ Keyed.keys fs := by
  induction fs with
  | nil => simp [insert]
  | cons e r ih =>
    obtain ⟨b, w⟩ := e
    by_cases hlt : k < b
    · simp [insert, hlt]
    · by_cases hb : b = k
      · subst hb
        simp [insert]
      · simp [insert, hlt, hb, ih, or_left_comm]

theorem sorted_insert (k : String) (v : α) {fs : List (String × α)} (h : Sorted fs) :
    Sorted (insert k v fs) := by
  induction fs with
  | nil => simp [insert, Sorted]
  | cons e r ih =>
    obtain ⟨b, w⟩ := e
    have hr : Sorted r := (List.pairwise_cons.1 h).2
    have hb : ∀ a ∈ Keyed.keys r, b < a := (List.pairwise_cons.1 h).1
    by_cases hlt : k < b
    · simp only [insert, hlt, if_true]
      refine List.pairwise_cons.2 ⟨fun a ha => ?_, h⟩
      rcases List.mem_cons.1 ha with rfl | ha
      · exact hlt
      · exact String.lt_trans hlt (hb a ha)
    · by_cases he : b = k
      · subst he
        simpa [insert, hlt, Sorted] using h
      · simp only [insert, hlt, if_false, he]
        refine List.pairwise_cons.2 ⟨fun a ha => ?_, ih hr⟩
        rcases (mem_keys_insert k a v r).1 ha with rfl | ha
        · exact Std.lt_of_le_of_ne (String.not_lt.1 hlt) he
        · exact hb a ha

/-- A field that is there is written and removed where it stands. -/
theorem exists_split_of_get? {k : String} {v : α} {fs : List (String × α)} (h : Sorted fs)
    (hk : Keyed.get? k fs = some v) : ∃ pre post, fs = pre ++ (k, v) :: post ∧
      Keyed.erase k fs = pre ++ post ∧ ∀ w, insert k w fs = pre ++ (k, w) :: post := by
  induction fs with
  | nil => exact nomatch hk
  | cons e r ih =>
    obtain ⟨a, b⟩ := e
    have hr : Sorted r := (List.pairwise_cons.1 h).2
    have hlt : ∀ c ∈ Keyed.keys r, a < c := (List.pairwise_cons.1 h).1
    by_cases ha : a = k
    · subst ha
      rw [Keyed.get?, if_pos rfl] at hk
      obtain rfl := Option.some.inj hk
      have hnone : a ∉ Keyed.keys r := fun hmem => String.lt_irrefl a (hlt a hmem)
      refine ⟨[], r, rfl, ?_, fun w => ?_⟩
      · rw [Keyed.erase, if_pos rfl, Keyed.erase_of_notMem hnone, List.nil_append]
      · rw [insert, if_neg (String.lt_irrefl a), if_pos rfl, List.nil_append]
    · rw [Keyed.get?, if_neg ha] at hk
      have hmem : k ∈ Keyed.keys r := List.mem_map_of_mem (Keyed.mem_of_get? hk)
      obtain ⟨pre, post, heq, herase, hinsert⟩ := ih hr hk
      refine ⟨(a, b) :: pre, post, congrArg _ heq, ?_, fun w => ?_⟩
      · rw [Keyed.erase, if_neg ha, herase, List.cons_append]
      · rw [insert, if_neg (String.lt_asymm (hlt k hmem)), if_neg ha, hinsert, List.cons_append]

/-- A new field goes between others. -/
theorem exists_split_of_notMem {k : String} {fs : List (String × α)} (hk : k ∉ Keyed.keys fs) :
    ∃ pre post, fs = pre ++ post ∧ ∀ w, insert k w fs = pre ++ (k, w) :: post := by
  induction fs with
  | nil => exact ⟨[], [], rfl, fun w => rfl⟩
  | cons e r ih =>
    obtain ⟨a, b⟩ := e
    obtain ⟨ha, hk⟩ := not_or.1 (fun hmem => hk (List.mem_cons.2 hmem))
    by_cases hlt : k < a
    · exact ⟨[], (a, b) :: r, rfl, fun w => by rw [insert, if_pos hlt, List.nil_append]⟩
    · obtain ⟨pre, post, rfl, hinsert⟩ := ih hk
      refine ⟨(a, b) :: pre, post, rfl, fun w => ?_⟩
      rw [insert, if_neg hlt, if_neg (Ne.symm ha), hinsert, List.cons_append]

theorem sorted_erase (k : String) {fs : List (String × α)} (h : Sorted fs) :
    Sorted (Keyed.erase k fs) := by
  cases hk : Keyed.get? k fs with
  | none => rwa [Keyed.erase_of_notMem ((Keyed.get?_eq_none_iff k fs).1 hk)]
  | some v =>
    obtain ⟨pre, post, rfl, herase, -⟩ := exists_split_of_get? h hk
    rw [herase]
    refine List.Pairwise.sublist ?_ h
    exact ((List.sublist_cons_self (k, v) post).append_left pre).map Prod.fst

/-- A field behind all others goes to the end. -/
theorem insert_of_forall_lt {k : String} {v : α} {fs : List (String × α)}
    (h : ∀ a ∈ Keyed.keys fs, a < k) : insert k v fs = fs ++ [(k, v)] := by
  induction fs with
  | nil => rfl
  | cons e r ih =>
    obtain ⟨hlt, h⟩ := List.forall_mem_cons.1 h
    rw [insert, if_neg (String.lt_asymm hlt), if_neg (Std.ne_of_lt hlt), ih h, List.cons_append]

theorem foldl_insert_of_sorted {es fs : List (String × α)} (h : Sorted (fs ++ es)) :
    es.foldl (fun acc e => insert e.1 e.2 acc) fs = fs ++ es := by
  induction es generalizing fs with
  | nil => exact (List.append_nil fs).symm
  | cons e es ih =>
    have hlast : ∀ a ∈ Keyed.keys fs, a < e.1 := by
      rw [Sorted, Keyed.keys, List.map_append, List.pairwise_append] at h
      exact fun a ha => h.2.2 a ha e.1 List.mem_cons_self
    rw [List.append_cons] at h ⊢
    rw [List.foldl_cons, insert_of_forall_lt hlast, ih h]

/-- Fields that ascend stay as they are when they are written in turn. -/
theorem ofList_of_sorted {es : List (String × α)} (h : Sorted es) : ofList es = es :=
  foldl_insert_of_sorted ((List.nil_append es).symm ▸ h)

/-! ## Fields and keyed lists -/

theorem sorted_ofList (es : List (String × α)) : Sorted (ofList es) := by
  have hfold : ∀ {es fs : List (String × α)}, Sorted fs →
      Sorted (es.foldl (fun acc e => insert e.1 e.2 acc) fs) := by
    intro es
    induction es with
    | nil => exact id
    | cons e es ih => exact fun h => ih (sorted_insert e.1 e.2 h)
  exact hfold List.Pairwise.nil

theorem Sorted.nodup {fs : List (String × α)} (h : Sorted fs) : (Keyed.keys fs).Nodup :=
  h.imp Std.ne_of_lt

/-- Fields are what is found under their keys. -/
theorem Sorted.eq_of_get?_eq {fs gs : List (String × α)} (hfs : Sorted fs) (hgs : Sorted gs)
    (h : ∀ k, Keyed.get? k fs = Keyed.get? k gs) : fs = gs := by
  have hpairs : ∀ {fs : List (String × α)}, Sorted fs → fs.Pairwise fun e f => e.1 < f.1 :=
    fun hfs => hfs.of_map Prod.fst fun _ _ => id
  have hnodup : ∀ {fs : List (String × α)}, Sorted fs → fs.Nodup :=
    fun hfs => (hpairs hfs).imp fun hlt heq => Std.ne_of_lt hlt (congrArg Prod.fst heq)
  refine List.Perm.eq_of_pairwise (fun _ _ _ _ hlt hgt => absurd hgt (String.lt_asymm hlt))
    (hpairs hfs) (hpairs hgs) ((List.perm_ext_iff_of_nodup (hnodup hfs) (hnodup hgs)).2 ?_)
  rintro ⟨k, v⟩
  rw [← Keyed.get?_eq_some_iff hfs.nodup, h, Keyed.get?_eq_some_iff hgs.nodup]

/-- The same is found under a key whether pairs are written at their places or at the end. -/
theorem get?_ofList (k : String) (es : List (String × α)) :
    Keyed.get? k (ofList es) = Keyed.get? k (Keyed.ofList es) := by
  have hfold : ∀ {es fs gs : List (String × α)},
      (∀ k, Keyed.get? k fs = Keyed.get? k gs) →
        Keyed.get? k (es.foldl (fun acc e => insert e.1 e.2 acc) fs) =
          Keyed.get? k (es.foldl (fun acc e => Keyed.put e.1 e.2 acc) gs) := by
    intro es
    induction es with
    | nil => exact fun h => h k
    | cons e es ih => exact fun h => ih fun k => by rw [get?_insert, Keyed.get?_put, h]
  exact hfold fun _ => rfl

/-- A field that is removed and written again is written. -/
theorem insert_erase (k : String) (v : α) {fs : List (String × α)} (h : Sorted fs) :
    insert k v (Keyed.erase k fs) = insert k v fs := by
  refine (sorted_insert k v (sorted_erase k h)).eq_of_get?_eq (sorted_insert k v h) fun l => ?_
  rw [get?_insert, get?_insert, Keyed.get?_erase]
  by_cases hk : k = l <;> simp [hk]

/-- To write what is there changes nothing. -/
theorem insert_of_get? {k : String} {v : α} {fs : List (String × α)} (h : Sorted fs)
    (hk : Keyed.get? k fs = some v) : insert k v fs = fs := by
  obtain ⟨pre, post, heq, -, hinsert⟩ := exists_split_of_get? h hk
  rw [hinsert, heq]

/-- Pairs that were put in a keyed list before give the same fields. -/
theorem ofList_keyed (es : List (String × α)) : ofList (Keyed.ofList es) = ofList es := by
  refine (sorted_ofList _).eq_of_get?_eq (sorted_ofList _) fun k => ?_
  rw [get?_ofList, get?_ofList, Keyed.ofList_of_nodup (Keyed.nodup_keys_ofList es)]

end DataShape.Fields
