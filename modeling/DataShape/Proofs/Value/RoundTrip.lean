import DataShape.Proofs.Json.Building
import DataShape.Proofs.Json.RoundTrip
import DataShape.Value.Json

/-!
# Values read back

A value is written as the document it becomes, and read as what the builder of values
makes of that document. On the way there and back an integral number may change its kind
and what JSON cannot say is lost : `undefined` becomes a string, a number that is not
finite becomes `null` (`Value.norm`). Nothing else is lost (`Value.equal_norm`), and what
comes back becomes the same document again (`Value.toDocument_reread`), so that its text is
the same. With documents that read back (`Json.read_compact`, `Json.read_pretty`) this
holds of texts (`text_round_trip`).

How a numeral becomes a double is left open. All that is asked of it is that it gives the
doubles in the value back (`Json.Conversion.ReadsBack`). Rounding to the nearest double does
so for all of them, and scaling by powers of ten for most.
-/

namespace DataShape

open Json (Document)

/-! ## Numbers -/

namespace Number

variable {a b : Number}

theorem equal_self (h : a.isFinite = true) : a.equal a = true := by
  unfold equal
  split
  · rename_i m n hm hn
    obtain rfl := Option.some.inj (hm.symm.trans hn)
    exact beq_self_eq_true m
  · rename_i hnone
    cases a with
    | unsigned n => exact absurd rfl (hnone _ _ rfl)
    | signed n => exact absurd rfl (hnone _ _ rfl)
    | float x =>
      cases x with
      | nan => exact nomatch h
      | infinite negative => exact nomatch h
      | finite negative rank => simp [toBinary64, Binary64.equal]

theorem isFinite_of_exactInt? {n : Int} (h : a.exactInt? = some n) : a.isFinite = true := by
  cases a with
  | float x =>
    cases x with
    | nan => exact nomatch h
    | infinite negative => exact nomatch h
    | finite negative rank => rfl
  | _ => rfl

/-- What a number is written as. -/
inductive Writing (a : Number) : Document → Prop where
  | natural {n : UInt64} (h : a.exactInt? = some (n.toNat : Int)) :
      Writing a (.number (.natural n))
  | negative {n : Int64} (hn : n.toInt < 0) (h : a.exactInt? = some n.toInt) :
      Writing a (.number (.negative n))
  | real {x : Binary64} (ha : a = .float x) (hx : x.isFinite = true) (h : a.toInt64? = none) :
      Writing a (.number (.real x))
  | null (h : a.isFinite = false) : Writing a .null

theorem writing_ofSigned {n : Int64} (h : a.exactInt? = some n.toInt) :
    a.Writing (.number (toDocument.ofSigned n)) := by
  unfold toDocument.ofSigned
  split
  · rename_i hn
    have hlt : n.toInt.toNat < UInt64.size := by
      have hmax := n.toInt_le
      have hsize : Int64.maxValue.toInt < (UInt64.size : Int) := by decide
      omega
    refine .natural (h.trans (congrArg some ?_))
    rw [UInt64.toNat_ofNat_of_lt' hlt]
    omega
  · exact .negative (by omega) h

/-- An integer that fits is written as one, another finite number as a double. -/
theorem writing_toDocument (a : Number) : a.Writing a.toDocument := by
  cases a with
  | unsigned n => exact .natural rfl
  | signed n => exact writing_ofSigned rfl
  | float x =>
    cases hint : (float x).toInt64? with
    | some n =>
      simp only [toDocument, hint]
      exact writing_ofSigned (toInt64?_eq_some_iff.1 hint)
    | none =>
      simp only [toDocument, hint]
      split
      · exact .real rfl ‹_› hint
      · exact .null (Bool.eq_false_iff.2 ‹_›)

end Number

namespace Value

open Number (writing_toDocument)

/-! ## What is written -/

theorem toDocumentItems_eq_map (vs : List Value) : toDocumentItems vs = vs.map toDocument := by
  induction vs with
  | nil => rfl
  | cons v vs ih => rw [toDocumentItems, ih, List.map_cons]

theorem toDocumentFields_eq_map (fs : List (String × Value)) :
    toDocumentFields fs = fs.map fun f => (f.1, f.2.toDocument) := by
  induction fs with
  | nil => rfl
  | cons f fs ih => rw [toDocumentFields, ih, List.map_cons]

/-- A value becomes a document with as many containers nested. -/
theorem fits_toDocument {convert : Json.Conversion} (v : Value)
    (hread : ∀ x, v.Holds (.float x) → x.isFinite = true → convert.ReadsBack x) :
    ∀ n, v.depth ≤ n → v.toDocument.Fits convert n := by
  induction v with
  | null => exact fun n _ => .null
  | bool b => exact fun n _ => .bool
  | number a =>
    intro n _
    have hwriting : ∀ d, a.Writing d → d.Fits convert n := by
      intro d hd
      cases hd with
      | natural => exact .number trivial
      | negative hn => exact .number hn
      | @real x ha hx => exact .number ⟨hx, hread x (ha ▸ .number) hx⟩
      | null => exact .null
    exact hwriting _ a.writing_toDocument
  | string s => exact fun n _ => .string
  | array items ih =>
    intro n hn
    obtain ⟨m, rfl⟩ : ∃ m, n = m + 1 := ⟨n - 1, by rw [depth] at hn; omega⟩
    rw [toDocument, toDocumentItems_eq_map]
    refine .array fun d hd => ?_
    obtain ⟨v, hv, rfl⟩ := List.mem_map.1 hd
    exact ih v hv (fun x hx => hread x (.item hv hx)) m
      (Nat.le_trans (depth_le_depthItems hv) (Nat.le_of_succ_le_succ hn))
  | object fields ih =>
    intro n hn
    obtain ⟨m, rfl⟩ : ∃ m, n = m + 1 := ⟨n - 1, by rw [depth] at hn; omega⟩
    rw [toDocument, toDocumentFields_eq_map]
    refine .object fun e he => ?_
    obtain ⟨f, hf, rfl⟩ := List.mem_map.1 he
    exact ih f hf (fun x hx => hread x (.field hf hx)) m
      (Nat.le_trans (depth_le_depthFields hf) (Nat.le_of_succ_le_succ hn))
  | undefined => exact fun n _ => .string

/-! ## What is left -/

mutual
/-- What is left of a value in JSON. -/
def norm : Value → Value
  | number a => if a.isFinite then number a else null
  | array items => array (normItems items)
  | object fields => object (normFields fields)
  | undefined => string "<undefined>"
  | v => v

def normItems : List Value → List Value
  | [] => []
  | v :: vs => norm v :: normItems vs

def normFields : List (String × Value) → List (String × Value)
  | [] => []
  | (k, v) :: fs => (k, norm v) :: normFields fs
end

theorem normItems_eq_map (vs : List Value) : normItems vs = vs.map norm := by
  induction vs with
  | nil => rfl
  | cons v vs ih => rw [normItems, ih, List.map_cons]

theorem normFields_eq_map (fs : List (String × Value)) :
    normFields fs = fs.map fun f => (f.1, f.2.norm) := by
  induction fs with
  | nil => rfl
  | cons f fs ih => rw [normFields, ih, List.map_cons]

/-- Nothing in the value is `undefined` or a number that is not finite. -/
inductive Plain : Value → Prop where
  | null : Plain null
  | bool {b} : Plain (bool b)
  | number {a} (h : a.isFinite = true) : Plain (number a)
  | string {s} : Plain (string s)
  | array {items} (h : ∀ v ∈ items, Plain v) : Plain (array items)
  | object {fields} (h : ∀ f ∈ fields, Plain f.2) : Plain (object fields)

/-- Of such a value everything is left. -/
theorem norm_of_plain {v : Value} (h : v.Plain) : v.norm = v := by
  induction h with
  | null => rfl
  | bool => rfl
  | number h => rw [norm, if_pos h]
  | string => rfl
  | array _ ih => rw [norm, normItems_eq_map, List.map_congr_left ih, List.map_id']
  | object _ ih =>
    rw [norm, normFields_eq_map, List.map_congr_left fun f hf => congrArg (f.1, ·) (ih f hf),
      List.map_id']

/-! ## What is read -/

/-- What comes back of a value. -/
def reread (v : Value) : Value :=
  v.toDocument.fold builder

theorem reread_array (items : List Value) :
    (array items).reread = array (items.map reread) := by
  rw [reread, toDocument, toDocumentItems_eq_map, Document.fold, Document.foldItems_eq_map,
    List.map_map]
  rfl

/-- Fields that ascend come back in their order. -/
theorem reread_object {fields : List (String × Value)} (h : Fields.Sorted fields) :
    (object fields).reread = object (fields.map fun f => (f.1, f.2.reread)) := by
  have hsorted : Fields.Sorted (fields.map fun f => (f.1, f.2.reread)) := by
    rw [Fields.Sorted, Keyed.keys, List.map_map]
    exact h
  rw [reread, toDocument, toDocumentFields_eq_map, Document.fold, Document.foldMembers_eq_map,
    List.map_map]
  exact congrArg object (Fields.ofList_of_sorted hsorted)

theorem ordered_of_mem {items : List Value} (h : OrderedItems items) : ∀ v ∈ items, v.Ordered := by
  induction items with
  | nil => exact fun v hv => nomatch hv
  | cons v vs ih => exact List.forall_mem_cons.2 ⟨h.1, ih h.2⟩

theorem ordered_of_mem_fields {fields : List (String × Value)} (h : OrderedFields fields) :
    ∀ f ∈ fields, f.2.Ordered := by
  induction fields with
  | nil => exact fun f hf => nomatch hf
  | cons f fs ih => exact List.forall_mem_cons.2 ⟨h.1, ih h.2⟩

theorem equalItems_map {f g : Value → Value} {vs : List Value}
    (h : ∀ v ∈ vs, (f v).equal (g v) = true) : equalItems (vs.map f) (vs.map g) = true := by
  induction vs with
  | nil => rfl
  | cons v vs ih =>
    obtain ⟨hv, hvs⟩ := List.forall_mem_cons.1 h
    rw [List.map_cons, List.map_cons, equalItems, hv, ih hvs, Bool.true_and]

theorem equalFields_map {f g : Value → Value} {fs : List (String × Value)}
    (h : ∀ e ∈ fs, (f e.2).equal (g e.2) = true) :
    equalFields (fs.map fun e => (e.1, f e.2)) (fs.map fun e => (e.1, g e.2)) = true := by
  induction fs with
  | nil => rfl
  | cons e fs ih =>
    obtain ⟨he, hfs⟩ := List.forall_mem_cons.1 h
    rw [List.map_cons, List.map_cons, equalFields, he, ih hfs, beq_self_eq_true]
    rfl

/-- What comes back is equal to what is left of the value. -/
theorem equal_norm {v : Value} (h : v.Ordered) : v.reread.equal v.norm = true := by
  induction v with
  | null => rfl
  | bool b => exact beq_self_eq_true b
  | number a =>
    have hwriting : ∀ d, a.Writing d → (d.fold builder).equal (number a).norm = true := by
      intro d hd
      cases hd with
      | natural h =>
        rw [norm, if_pos (Number.isFinite_of_exactInt? h)]
        exact Number.equal_of_exactInt? rfl h
      | negative _ h =>
        rw [norm, if_pos (Number.isFinite_of_exactInt? h)]
        exact Number.equal_of_exactInt? rfl h
      | @real x ha hx =>
        subst ha
        have hfinite : (Number.float x).isFinite = true := hx
        rw [norm, if_pos hfinite]
        exact Number.equal_self hfinite
      | null h =>
        rw [norm, if_neg (Bool.eq_false_iff.1 h)]
        rfl
    exact hwriting _ a.writing_toDocument
  | string s => exact beq_self_eq_true s
  | array items ih =>
    rw [reread_array, norm, normItems_eq_map]
    exact equalItems_map fun v hv => ih v hv (ordered_of_mem h v hv)
  | object fields ih =>
    rw [reread_object h.1, norm, normFields_eq_map]
    exact equalFields_map fun f hf => ih f hf (ordered_of_mem_fields h.2 f hf)
  | undefined => rfl

/-- What comes back is written as before. -/
theorem toDocument_reread {v : Value} (h : v.Ordered) : v.reread.toDocument = v.toDocument := by
  induction v with
  | null => rfl
  | bool b => rfl
  | number a =>
    have hwriting : ∀ d, a.Writing d → (d.fold builder).toDocument = d := by
      intro d hd
      cases hd with
      | natural => rfl
      | @negative n hn =>
        have hsign : ¬ 0 ≤ n.toInt := by omega
        exact congrArg Document.number (if_neg hsign)
      | real ha hx hint =>
        subst ha
        simp only [Document.fold, builder, toDocument, Number.toDocument, hint, hx, if_true]
      | null => rfl
    exact hwriting _ a.writing_toDocument
  | string s => rfl
  | array items ih =>
    rw [reread_array, toDocument, toDocument, toDocumentItems_eq_map, toDocumentItems_eq_map,
      List.map_map]
    exact congrArg Document.array
      (List.map_congr_left fun v hv => ih v hv (ordered_of_mem h v hv))
  | object fields ih =>
    rw [reread_object h.1, toDocument, toDocument, toDocumentFields_eq_map,
      toDocumentFields_eq_map, List.map_map]
    exact congrArg Document.object (List.map_congr_left fun f hf =>
      congrArg (f.1, ·) (ih f hf (ordered_of_mem_fields h.2 f hf)))
  | undefined => rfl

end Value

/-- A value with at most 127 containers nested is read back from its text, with or without blanks,
if the finite doubles in it are. What is read is equal to what JSON can hold of the value, which is
all of it if there is no `undefined` and no number in it that is not finite, and it has the same
text again. -/
theorem text_round_trip {convert : Json.Conversion} {v : Value} (hv : v.Ordered)
    (hdepth : v.depth ≤ 127)
    (hread : ∀ x, v.Holds (.float x) → x.isFinite = true → convert.ReadsBack x) :
    ∃ w, Value.read convert v.compact = .ok w ∧ Value.read convert v.pretty = .ok w ∧
      w.equal v.norm = true ∧ (v.Plain → w.equal v = true) ∧ w.compact = v.compact := by
  have hfits := v.fits_toDocument hread 127 hdepth
  have hequal := Value.equal_norm hv
  refine ⟨v.reread, Json.read_compact _ hfits, Json.read_pretty _ hfits, hequal, fun hplain => ?_,
    congrArg Document.compact (Value.toDocument_reread hv)⟩
  rwa [Value.norm_of_plain hplain] at hequal

/-- The least positive double and negative zero, and below a key with a line break what JSON cannot
say. Doubles are read by scaling. -/
theorem doubles_text_round_trip :
    let least := Binary64.finite false ⟨1, by decide⟩
    let negativeZero := Binary64.finite true ⟨0, by decide⟩
    let v := Value.object [("doubles", .array [.number (.float least),
        .number (.float negativeZero)]),
      ("other\nkinds", .array [.undefined, .number (.float .nan)])]
    v.Ordered ∧ v.depth ≤ 127 ∧
      (∀ x, v.Holds (.float x) → x.isFinite = true → Json.Conversion.scaled.ReadsBack x) ∧
      ∃ w, Value.read .scaled v.compact = .ok w ∧ Value.read .scaled v.pretty = .ok w ∧
        w.equal (.object [("doubles", .array [.number (.float least),
            .number (.float negativeZero)]),
          ("other\nkinds", .array [.string "<undefined>", .null])]) = true := by
  intro least negativeZero v
  have hkeys : ["doubles", "other\nkinds"].Pairwise (· < ·) := by decide
  have hordered : v.Ordered :=
    ⟨hkeys, ⟨trivial, trivial, trivial⟩, ⟨trivial, trivial, trivial⟩, trivial⟩
  have hdepth : v.depth ≤ 127 := by decide
  have hleast : Json.Conversion.scaled.ReadsBack least := by decide +kernel
  have hzero : Json.Conversion.scaled.ReadsBack negativeZero := by decide +kernel
  have hread : ∀ x, v.Holds (.float x) → x.isFinite = true →
      Json.Conversion.scaled.ReadsBack x := by
    intro x hx hfinite
    have hcases : x = least ∨ x = negativeZero ∨ x = .nan := by
      simpa [v, Value.holds_object, Value.holds_array, Value.holds_number, Value.holds_undefined,
        or_assoc] using hx
    rcases hcases with rfl | rfl | rfl
    · exact hleast
    · exact hzero
    · exact nomatch hfinite
  obtain ⟨w, hcompact, hpretty, hequal, -⟩ := text_round_trip hordered hdepth hread
  exact ⟨hordered, hdepth, hread, w, hcompact, hpretty, hequal⟩

end DataShape
