import DataShape.Value.Heap
import DataShape.Proofs.Pointwise

/-!
# Cells and their owners

A heap is sound for some handles outside of it if each cell counts the handles that lead to it,
outside and in other cells, and the fields in a cell ascend (`Heap.Sound`). Which handles are
outside is a list, and only how often a cell occurs in it matters (`Heap.Sound.congr`). A cell with
a single owner outside is not in any other cell (`Heap.Sound.sole`).

`Heap.Denotes` relates a handle to the value it stands for, by recursion on the value, so cells that
a handle stands for are never inside themselves. It is decided by the cells that the handle leads to
(`Heap.Denotes.frame`). What a handle stands for is what is read (`Heap.Denotes.read`) : containers
inside each other stand in different cells, so no value is deeper than there are cells.
-/

namespace DataShape

/-- The fields ascend in their keys. -/
def Content.Sorted : Content → Prop
  | array _ => True
  | object fields => Fields.Sorted fields

namespace Heap

variable {H H' : Heap} {own own' hs : List Handle} {a b n : Nat} {h : Handle} {c c' : Content}
  {v : Value}

/-! ## Single cells -/

theorem cell_eq (hc : H.content? a = some c) : H.cells[a]? = some ⟨H.owners a, c⟩ := by
  unfold content? at hc
  unfold owners
  cases hx : H.cells[a]? with
  | none => simp [hx] at hc
  | some x =>
    obtain ⟨n, d⟩ := x
    simp only [hx, Option.map_some, Option.some.injEq] at hc
    simp [hc]

theorem cells_update {f : Cell → Cell} :
    (H.update a f).cells[b]? = if a = b then H.cells[b]?.map f else H.cells[b]? := by
  rw [update, List.getElem?_modify]
  split <;> simp

@[simp] theorem content?_setOwners : (H.setOwners a n).content? b = H.content? b := by
  rw [setOwners, content?, cells_update]
  split <;> simp [content?, Function.comp_def]

@[simp] theorem owners_setContent : (H.setContent a c).owners b = H.owners b := by
  rw [setContent, owners, cells_update]
  split <;> simp [owners, Function.comp_def]

theorem content?_setContent_self (hc : H.content? a = some c) :
    (H.setContent a c').content? a = some c' := by
  rw [setContent, content?, cells_update, if_pos rfl, cell_eq hc]
  rfl

theorem cells_setContent_of_ne (hne : a ≠ b) : (H.setContent a c).cells[b]? = H.cells[b]? := by
  rw [setContent, cells_update, if_neg hne]

theorem cells_setOwners_of_ne (hne : a ≠ b) : (H.setOwners a n).cells[b]? = H.cells[b]? := by
  rw [setOwners, cells_update, if_neg hne]

theorem cells_vacate_of_ne (hne : a ≠ b) : (H.vacate a).cells[b]? = H.cells[b]? := by
  rw [vacate, cells_update, if_neg hne]

theorem owners_setOwners_self (hc : H.content? a = some c) : (H.setOwners a n).owners a = n := by
  rw [setOwners, owners, cells_update, if_pos rfl, cell_eq hc]
  rfl

theorem content?_congr (hcells : H'.cells[a]? = H.cells[a]?) : H'.content? a = H.content? a :=
  congrArg _ hcells

theorem owners_congr (hcells : H'.cells[a]? = H.cells[a]?) : H'.owners a = H.owners a :=
  congrArg (fun x => (x.map Cell.owners).getD 0) hcells

/-! ## Counting -/

/-- How many of the handles in cells are this one. -/
def inside (H : Heap) (h : Handle) : Nat :=
  sumOver (fun x => x.content.children.count h) H.cells

theorem inside_setOwners (hc : H.content? a = some c) :
    (H.setOwners a n).inside h = H.inside h :=
  Nat.add_right_cancel (sumOver_update _ _ (cell_eq hc))

theorem inside_setContent (hc : H.content? a = some c) :
    (H.setContent a c').inside h + c.children.count h = H.inside h + c'.children.count h :=
  sumOver_update _ _ (cell_eq hc)

theorem inside_vacate (hc : H.content? a = some c) :
    (H.vacate a).inside h + c.children.count h = H.inside h :=
  sumOver_update _ _ (cell_eq hc)

theorem inside_alloc : (H.alloc c).2.inside h = H.inside h + c.children.count h := by
  simp [inside, alloc, sumOver_append, sumOver]

theorem count_le_inside (hc : H.content? a = some c) : c.children.count h ≤ H.inside h := by
  have hvacated := inside_vacate (h := h) hc
  omega

/-- Each cell counts the handles that lead to it, from outside and from other cells, and fields
ascend in their keys. -/
structure Sound (H : Heap) (own : List Handle) : Prop where
  counted : ∀ a, H.owners a = own.count (.cell a) + H.inside (.cell a)
  sorted : ∀ a c, H.content? a = some c → c.Sorted

theorem sound_empty : Sound empty [] :=
  ⟨fun _ => rfl, fun _ _ h => nomatch h⟩

/-- What matters is how often a cell is owned. -/
theorem Sound.congr (hs : H.Sound own)
    (h : ∀ a, own'.count (.cell a) = own.count (.cell a)) : H.Sound own' :=
  ⟨fun a => by rw [h, hs.counted], hs.sorted⟩

/-- A handle that leads nowhere or to a cell that is there. -/
def Live (H : Heap) (h : Handle) : Prop :=
  ∀ a, h = .cell a → ∃ c, H.content? a = some c

theorem exists_content_of_owners_pos (h : 0 < H.owners a) : ∃ c, H.content? a = some c := by
  obtain ⟨x, hx, -⟩ := exists_of_owners_pos h
  exact ⟨x.content, congrArg _ hx⟩

theorem Sound.live_of_mem (hs : H.Sound own) (hh : h ∈ own) : H.Live h := by
  rintro a rfl
  have hcounted := hs.counted a
  have hpos := List.count_pos_iff.2 hh
  exact exists_content_of_owners_pos (by omega)

theorem Sound.live_of_child (hs : H.Sound own) (hc : H.content? a = some c)
    (hh : h ∈ c.children) : H.Live h := by
  rintro b rfl
  have hcounted := hs.counted b
  have hpos := List.count_pos_iff.2 hh
  have hle : c.children.count (.cell b) ≤ H.inside (.cell b) := count_le_inside hc
  exact exists_content_of_owners_pos (by omega)

/-- A cell with a single owner outside is owned nowhere else. -/
theorem Sound.sole (hs : H.Sound (.cell a :: own)) (h : H.owners a = 1) :
    .cell a ∉ own ∧ ∀ b d, H.content? b = some d → .cell a ∉ d.children := by
  have hcounted := hs.counted a
  rw [List.count_cons_self] at hcounted
  refine ⟨fun hmem => ?_, fun b d hd hmem => ?_⟩
  · have hpos := List.count_pos_iff.2 hmem
    omega
  · have hpos := List.count_pos_iff.2 hmem
    have hle : d.children.count (.cell a) ≤ H.inside (.cell a) := count_le_inside hd
    omega

/-! ## What handles stand for -/

mutual
/-- A handle stands for a value. -/
def Denotes (H : Heap) : Value → Handle → Prop
  | .null, h => h = .null
  | .bool b, h => h = .bool b
  | .number n, h => h = .number n
  | .string s, h => h = .string s
  | .array vs, h => ∃ a hs, h = .cell a ∧ H.content? a = some (.array hs) ∧ DenotesItems H vs hs
  | .object gs, h => ∃ a fs, h = .cell a ∧ H.content? a = some (.object fs) ∧ DenotesFields H gs fs
  | .undefined, h => h = .undefined

def DenotesItems (H : Heap) : List Value → List Handle → Prop
  | [], hs => hs = []
  | v :: vs, hs => ∃ h r, hs = h :: r ∧ Denotes H v h ∧ DenotesItems H vs r

def DenotesFields (H : Heap) : List (String × Value) → List (String × Handle) → Prop
  | [], fs => fs = []
  | (k, v) :: gs, fs => ∃ h r, fs = (k, h) :: r ∧ Denotes H v h ∧ DenotesFields H gs r
end

theorem denotesItems_iff {vs : List Value} :
    H.DenotesItems vs hs ↔ List.Forall₂ H.Denotes vs hs := by
  induction vs generalizing hs with
  | nil => exact List.forall₂_nil_left_iff.symm
  | cons v vs ih =>
    rw [DenotesItems, List.forall₂_cons_left_iff]
    simp only [ih]
    constructor
    · rintro ⟨h, r, rfl, hh, hr⟩
      exact ⟨h, r, hh, hr, rfl⟩
    · rintro ⟨h, r, hh, hr, rfl⟩
      exact ⟨h, r, rfl, hh, hr⟩

theorem denotesFields_iff {gs : List (String × Value)} {fs : List (String × Handle)} :
    H.DenotesFields gs fs ↔ List.Forall₂ (AtKey H.Denotes) gs fs := by
  induction gs generalizing fs with
  | nil => exact List.forall₂_nil_left_iff.symm
  | cons g gs ih =>
    obtain ⟨k, v⟩ := g
    rw [DenotesFields, List.forall₂_cons_left_iff]
    simp only [ih]
    constructor
    · rintro ⟨h, r, rfl, hh, hr⟩
      exact ⟨(k, h), r, ⟨rfl, hh⟩, hr, rfl⟩
    · rintro ⟨⟨l, h⟩, r, ⟨rfl, hh⟩, hr, rfl⟩
      exact ⟨h, r, rfl, hh, hr⟩

theorem denotes_array {vs : List Value} : H.Denotes (.array vs) h ↔
    ∃ a hs, h = .cell a ∧ H.content? a = some (.array hs) ∧ List.Forall₂ H.Denotes vs hs := by
  simp only [Denotes, denotesItems_iff]

theorem denotes_object {gs : List (String × Value)} : H.Denotes (.object gs) h ↔
    ∃ a fs, h = .cell a ∧ H.content? a = some (.object fs) ∧
      List.Forall₂ (AtKey H.Denotes) gs fs := by
  simp only [Denotes, denotesFields_iff]

/-- What a handle stands for is decided by the cells that it leads to. -/
theorem Denotes.frame {P : Nat → Prop}
    (hP : ∀ a c, P a → H.content? a = some c →
      H'.content? a = some c ∧ ∀ b, .cell b ∈ c.children → P b) :
    ∀ {h}, (∀ a, h = .cell a → P a) → H.Denotes v h → H'.Denotes v h := by
  induction v with
  | array vs ih =>
    intro h hh hv
    obtain ⟨a, hs, rfl, hc, hitems⟩ := denotes_array.1 hv
    obtain ⟨hc', hchildren⟩ := hP a _ (hh a rfl) hc
    refine denotes_array.2 ⟨a, hs, rfl, hc', forall₂_imp hitems fun u hu r hr hur => ?_⟩
    exact ih u hu (fun b hb => hchildren b (hb ▸ hr)) hur
  | object gs ih =>
    intro h hh hv
    obtain ⟨a, fs, rfl, hc, hfields⟩ := denotes_object.1 hv
    obtain ⟨hc', hchildren⟩ := hP a _ (hh a rfl) hc
    refine denotes_object.2 ⟨a, fs, rfl, hc', forall₂_imp hfields fun g hg f hf hgf => ?_⟩
    exact ⟨hgf.1, ih g hg (fun b hb => hchildren b (hb ▸ List.mem_map_of_mem hf)) hgf.2⟩
  | _ => exact fun _ hv => hv

theorem Denotes.live (hv : H.Denotes v h) : H.Live h := by
  rintro a rfl
  cases v with
  | array vs =>
    obtain ⟨b, hs, heq, hc, -⟩ := denotes_array.1 hv
    obtain rfl := Handle.cell.inj heq
    exact ⟨_, hc⟩
  | object gs =>
    obtain ⟨b, fs, heq, hc, -⟩ := denotes_object.1 hv
    obtain rfl := Handle.cell.inj heq
    exact ⟨_, hc⟩
  | _ => exact nomatch hv

theorem Denotes.of_contents (hcontents : ∀ a c, H.content? a = some c → H'.content? a = some c)
    (hv : H.Denotes v h) : H'.Denotes v h :=
  hv.frame (P := fun _ => True) (fun a c _ hc => ⟨hcontents a c hc, fun _ _ => trivial⟩)
    fun _ _ => trivial

/-- A cell that no content refers to matters to the handle of that cell only. -/
theorem Denotes.apart (hcells : ∀ b, b ≠ a → H'.cells[b]? = H.cells[b]?)
    (hnone : ∀ b d, H.content? b = some d → .cell a ∉ d.children) (hne : h ≠ .cell a)
    (hv : H.Denotes v h) : H'.Denotes v h := by
  refine hv.frame (P := fun b => b ≠ a) (fun b d hb hd => ⟨?_, fun e he => ?_⟩) fun b hb => ?_
  · exact (content?_congr (hcells b hb)).trans hd
  · rintro rfl
    exact hnone b d hd he
  · rintro rfl
    exact hne hb

/-! ## Reading -/

/-- A value is read at any depth that it does not exceed. -/
theorem readWithin_eq (hv : H.Denotes v h) (hn : v.depth ≤ n) : H.readWithin n h = v := by
  induction v generalizing h n with
  | array vs ih =>
    obtain ⟨m, rfl⟩ : ∃ m, n = m + 1 := ⟨n - 1, by rw [Value.depth] at hn; omega⟩
    obtain ⟨a, hs, rfl, hc, hitems⟩ := denotes_array.1 hv
    simp only [readWithin, hc]
    refine congrArg _ (map_eq_of_forall₂ (forall₂_imp hitems fun u hu r _ hur => ih u hu hur ?_))
    exact Nat.le_trans (Value.depth_le_depthItems hu) (Nat.le_of_succ_le_succ hn)
  | object gs ih =>
    obtain ⟨m, rfl⟩ : ∃ m, n = m + 1 := ⟨n - 1, by rw [Value.depth] at hn; omega⟩
    obtain ⟨a, fs, rfl, hc, hfields⟩ := denotes_object.1 hv
    simp only [readWithin, hc]
    refine congrArg _ (map_eq_of_forall₂ (forall₂_imp hfields fun g hg f _ hgf => ?_))
    have hdepth := Nat.le_trans (Value.depth_le_depthFields hg) (Nat.le_of_succ_le_succ hn)
    exact Prod.ext hgf.1.symm (ih g hg hgf.2 hdepth)
  | _ =>
    obtain rfl : h = _ := hv
    cases n <;> rfl

/-- A handle stands for one value at most. -/
theorem Denotes.unique {w : Value} (hv : H.Denotes v h) (hw : H.Denotes w h) : v = w :=
  (readWithin_eq hv (Nat.le_max_left v.depth w.depth)).symm.trans
    (readWithin_eq hw (Nat.le_max_right v.depth w.depth))

/-- All cells but these stand for deeper values. -/
def Shallow (H : Heap) (as : List Nat) (v : Value) : Prop :=
  ∀ a, a ∉ as → ∀ w, H.Denotes w (.cell a) → v.depth < w.depth

variable {as : List Nat} {u : Value}

theorem Shallow.mem (has : H.Shallow as v) (hv : H.Denotes v (.cell a)) : a ∈ as := by
  by_contra ha
  exact Nat.lt_irrefl _ (has a ha v hv)

theorem Shallow.erase (has : H.Shallow as v) (hv : H.Denotes v (.cell a))
    (hu : u.depth < v.depth) : H.Shallow (as.erase a) u := by
  intro b hb w hw
  by_cases hba : b = a
  · subst hba
    exact hv.unique hw ▸ hu
  · exact Nat.lt_trans hu (has b (fun hmem => hb ((List.mem_erase_of_ne hba).2 hmem)) w hw)

/-- Containers inside each other stand in different cells. -/
theorem Shallow.depth_le (has : H.Shallow as v) (hv : H.Denotes v h) :
    v.depth ≤ as.length := by
  induction v generalizing h as with
  | array vs ih =>
    obtain ⟨a, hs, rfl, -, hitems⟩ := denotes_array.1 hv
    have hlength := List.length_erase_add_one (has.mem hv)
    have hinner : Value.depthItems vs ≤ (as.erase a).length := by
      refine Value.depthItems_le fun u hu => ?_
      obtain ⟨r, -, hur⟩ := exists_of_forall₂ hitems u hu
      have hdepth := Value.depth_le_depthItems hu
      exact ih u hu (has.erase hv (Nat.lt_succ_of_le hdepth)) hur
    rw [Value.depth]
    omega
  | object gs ih =>
    obtain ⟨a, fs, rfl, -, hfields⟩ := denotes_object.1 hv
    have hlength := List.length_erase_add_one (has.mem hv)
    have hinner : Value.depthFields gs ≤ (as.erase a).length := by
      refine Value.depthFields_le fun g hg => ?_
      obtain ⟨f, -, hgf⟩ := exists_of_forall₂ hfields g hg
      have hdepth := Value.depth_le_depthFields hg
      exact ih g hg (has.erase hv (Nat.lt_succ_of_le hdepth)) hgf.2
    rw [Value.depth]
    omega
  | _ => exact Nat.zero_le _

/-- What a handle stands for is what is read. -/
theorem Denotes.read (hv : H.Denotes v h) : H.read h = v := by
  refine readWithin_eq hv ?_
  rw [← List.length_range (n := H.cells.length)]
  refine Shallow.depth_le (fun a ha w hw => ?_) hv
  obtain ⟨c, hc⟩ := hw.live a rfl
  have hnone : H.cells[a]? = none := by simpa using ha
  simp [content?, hnone] at hc

end Heap

end DataShape
