import DataShape.Proofs.Value.Heap

/-!
# Copy on write

What is done to some of the handles outside must not show in the others. `Heap.Keeps` says that they
stand for what they stood for, and that a cell which has one of them for its only owner is as it
was. It holds when a value is copied, when a new cell is made and when handles go
(`Heap.Sound.release`), for each of which there is a lemma on `Heap.Sound` too.

A container is written in a cell with a single owner (`Heap.Alone`). One with more of them is copied
first (`Heap.Sound.unshare`). As nothing else leads to such a cell, whatever is written there
(`Heap.Alone.write`) is kept from all other handles (`Heap.Alone.keeps_write`).
-/

namespace DataShape.Heap

variable {H H' H'' : Heap} {own own' hs : List Handle} {a b n : Nat} {h x : Handle}
  {c c' : Content} {v w : Value}

/-- What is outside stays as it is : handles stand for what they stood for, and a cell that has one
of them for its only owner is not touched. -/
structure Keeps (H H' : Heap) (own : List Handle) : Prop where
  denotes : ∀ h ∈ own, ∀ v, H.Denotes v h → H'.Denotes v h
  sole : ∀ a, .cell a ∈ own → H.owners a = 1 → H'.cells[a]? = H.cells[a]?

theorem Keeps.refl (H : Heap) (own : List Handle) : Keeps H H own :=
  ⟨fun _ _ _ hv => hv, fun _ _ _ => rfl⟩

theorem Keeps.trans (hk : Keeps H H' own) (hk' : Keeps H' H'' own) : Keeps H H'' own where
  denotes h hh v hv := hk'.denotes h hh v (hk.denotes h hh v hv)
  sole a ha hsole := by
    have hcells := hk.sole a ha hsole
    rw [hk'.sole a ha ((owners_congr hcells).trans hsole), hcells]

theorem Keeps.subset (hk : Keeps H H' own) (hsub : ∀ h ∈ own', h ∈ own) : Keeps H H' own' :=
  ⟨fun h hh => hk.denotes h (hsub h hh), fun a ha => hk.sole a (hsub _ ha)⟩

/-! ## More owners -/

theorem count_cons_of_scalar (hh : ∀ a, h ≠ .cell a) :
    (h :: own).count (.cell b) = own.count (.cell b) :=
  List.count_cons_of_ne (hh b)

theorem content?_retain (h : Handle) : (H.retain h).content? b = H.content? b := by
  cases h <;> simp [retain]

theorem content?_retainAll : (H.retainAll hs).content? b = H.content? b := by
  induction hs generalizing H with
  | nil => rfl
  | cons h hs ih => exact ih.trans (content?_retain h)

theorem cells_retainAll (ha : .cell a ∉ hs) : (H.retainAll hs).cells[a]? = H.cells[a]? := by
  induction hs generalizing H with
  | nil => rfl
  | cons h hs ih =>
    obtain ⟨hne, ha⟩ := not_or.1 (fun hmem => ha (List.mem_cons.2 hmem))
    refine (ih ha).trans ?_
    cases h with
    | cell b => exact cells_setOwners_of_ne fun heq => hne (heq ▸ rfl)
    | _ => rfl

theorem Sound.retain (hs : H.Sound own) (hlive : H.Live h) : (H.retain h).Sound (h :: own) := by
  cases h with
  | cell a =>
    obtain ⟨c, hc⟩ := hlive a rfl
    refine ⟨fun b => ?_, fun b d hd => hs.sorted b d ((content?_retain _).symm.trans hd)⟩
    rw [Heap.retain, inside_setOwners hc]
    by_cases hab : a = b
    · subst hab
      rw [owners_setOwners_self hc, List.count_cons_self, hs.counted]
      omega
    · have hne : Handle.cell a ≠ .cell b := fun heq => hab (Handle.cell.inj heq)
      rw [owners_congr (cells_setOwners_of_ne hab), List.count_cons_of_ne hne, hs.counted]
  | _ => exact hs.congr fun b => count_cons_of_scalar (fun _ => nofun)

theorem Sound.retainAll (hs' : H.Sound own) (hlive : ∀ h ∈ hs, H.Live h) :
    (H.retainAll hs).Sound (hs ++ own) := by
  induction hs generalizing H own with
  | nil => exact hs'
  | cons h hs ih =>
    obtain ⟨hh, hlive⟩ := List.forall_mem_cons.1 hlive
    have hlive' : ∀ r ∈ hs, (H.retain h).Live r := fun r hr a ha => by
      rw [content?_retain]
      exact hlive r hr a ha
    refine (ih (hs'.retain hh) hlive').congr fun a => ?_
    simp only [List.cons_append, List.count_cons, List.count_append]
    omega

/-! ## New cells -/

theorem content?_alloc (hc : H.content? a = some c) : (H.alloc c').2.content? a = some c := by
  obtain ⟨ha, -⟩ := List.getElem?_eq_some_iff.1 (cell_eq hc)
  rw [alloc, content?, List.getElem?_append_left ha]
  exact hc

theorem content?_alloc_self : (H.alloc c).2.content? H.cells.length = some c := by
  simp [alloc, content?]

theorem cells_alloc_of_ne (hb : b ≠ H.cells.length) : (H.alloc c).2.cells[b]? = H.cells[b]? := by
  rcases Nat.lt_or_gt_of_ne hb with hlt | hlt
  · exact List.getElem?_append_left hlt
  · have hlarge : (H.alloc c).2.cells.length ≤ b := by
      simp only [alloc, List.length_append, List.length_singleton]
      omega
    rw [List.getElem?_eq_none hlarge, List.getElem?_eq_none (Nat.le_of_lt hlt)]

theorem owners_length : H.owners H.cells.length = 0 := by
  simp [owners]

theorem owners_alloc_self : (H.alloc c).2.owners H.cells.length = 1 := by
  simp [alloc, owners]

theorem Sound.alloc (hs : H.Sound (c.children ++ own)) (hsorted : c.Sorted) :
    (H.alloc c).2.Sound (.cell H.cells.length :: own) := by
  refine ⟨fun b => ?_, fun b d hd => ?_⟩
  · have hcounted := hs.counted b
    rw [List.count_append] at hcounted
    rw [inside_alloc]
    by_cases hb : b = H.cells.length
    · subst hb
      rw [owners_length] at hcounted
      rw [owners_alloc_self, List.count_cons_self]
      omega
    · have hne : Handle.cell H.cells.length ≠ .cell b := fun heq => hb (Handle.cell.inj heq).symm
      rw [owners_congr (cells_alloc_of_ne hb), List.count_cons_of_ne hne]
      omega
  · by_cases hb : b = H.cells.length
    · subst hb
      obtain rfl := Option.some.inj (content?_alloc_self.symm.trans hd)
      exact hsorted
    · exact hs.sorted b d ((content?_congr (cells_alloc_of_ne hb)).symm.trans hd)

theorem Sound.length_notMem (hs : H.Sound own) : .cell H.cells.length ∉ own := fun hmem => by
  obtain ⟨c, hc⟩ := hs.live_of_mem hmem _ rfl
  simp [content?] at hc

theorem Denotes.alloc (hv : H.Denotes v h) : (H.alloc c).2.Denotes v h :=
  hv.of_contents fun _ _ => content?_alloc

/-- A new cell changes nothing for the handles that are there. -/
theorem Sound.keeps_alloc (hs : H.Sound own) : Keeps H (H.alloc c).2 own where
  denotes _ _ _ hv := hv.alloc
  sole _ ha _ := cells_alloc_of_ne fun heq => hs.length_notMem (heq ▸ ha)

/-! ## Fewer owners -/

theorem owners_vacate_self (hc : H.content? a = some c) : (H.vacate a).owners a = 0 := by
  rw [vacate, owners, cells_update, if_pos rfl, cell_eq hc]
  rfl

theorem content?_vacate_self (hc : H.content? a = some c) :
    (H.vacate a).content? a = some (.array []) := by
  rw [vacate, content?, cells_update, if_pos rfl, cell_eq hc]
  rfl

/-- What was in a vacated cell is outside. -/
theorem Sound.vacate (hs : H.Sound (.cell a :: own)) (h : H.owners a = 1)
    (hc : H.content? a = some c) :
    (H.vacate a).Sound (c.children ++ own) ∧ Keeps H (H.vacate a) own := by
  obtain ⟨hown, hcontents⟩ := hs.sole h
  have hother : ∀ b, b ≠ a → (H.vacate a).cells[b]? = H.cells[b]? := fun b hb =>
    cells_vacate_of_ne hb.symm
  refine ⟨⟨fun b => ?_, fun b d hd => ?_⟩, fun r hr v hv => ?_, fun b hb _ => ?_⟩
  · have hinside := inside_vacate (h := .cell b) hc
    have hcounted := hs.counted b
    rw [List.count_append]
    by_cases hb : b = a
    · subst hb
      have hchildren := List.count_eq_zero.2 (hcontents b c hc)
      rw [h, List.count_cons_self] at hcounted
      rw [owners_vacate_self hc]
      omega
    · have hne : Handle.cell a ≠ .cell b := fun heq => hb (Handle.cell.inj heq).symm
      rw [List.count_cons_of_ne hne] at hcounted
      rw [owners_congr (hother b hb)]
      omega
  · by_cases hb : b = a
    · subst hb
      obtain rfl := Option.some.inj ((content?_vacate_self hc).symm.trans hd)
      trivial
    · exact hs.sorted b d ((content?_congr (hother b hb)).symm.trans hd)
  · exact hv.apart hother hcontents fun heq => hown (heq ▸ hr)
  · exact hother b fun heq => hown (heq ▸ hb)

/-- One owner of several is gone. -/
theorem Sound.lessen (hs : H.Sound (.cell a :: own)) (h : H.owners a = n + 2) :
    (H.setOwners a (n + 1)).Sound own ∧ Keeps H (H.setOwners a (n + 1)) own := by
  obtain ⟨c, hc⟩ := hs.live_of_mem List.mem_cons_self a rfl
  refine ⟨⟨fun b => ?_, fun b d hd => hs.sorted b d (content?_setOwners.symm.trans hd)⟩,
    fun r _ v hv => hv.of_contents fun _ _ hd => content?_setOwners.trans hd, fun b _ hsole => ?_⟩
  · have hcounted := hs.counted b
    rw [inside_setOwners hc]
    by_cases hb : b = a
    · subst hb
      rw [h, List.count_cons_self] at hcounted
      rw [owners_setOwners_self hc]
      omega
    · have hne : Handle.cell a ≠ .cell b := fun heq => hb (Handle.cell.inj heq).symm
      rw [List.count_cons_of_ne hne] at hcounted
      rw [owners_congr (cells_setOwners_of_ne (Ne.symm hb)), hcounted]
  · refine cells_setOwners_of_ne fun heq => ?_
    subst heq
    omega

theorem release_sole (h : H.owners a = 1) (hc : H.content? a = some c) :
    H.release (.cell a :: hs) = (H.vacate a).release (c.children ++ hs) := by
  rw [release]
  split
  · omega
  · rw [hc]
    rfl
  · omega

theorem release_shared (h : H.owners a = n + 2) :
    H.release (.cell a :: hs) = (H.setOwners a (n + 1)).release hs := by
  rw [release]
  split
  · omega
  · omega
  · rename_i m hm
    obtain rfl : m = n := by omega
    rfl

/-- When handles are gone, the others are kept. -/
theorem Sound.release (hs' : H.Sound (hs ++ own)) :
    (H.release hs).Sound own ∧ Keeps H (H.release hs) own := by
  induction H, hs using Heap.release.induct with
  | case1 H =>
    rw [Heap.release]
    exact ⟨hs', .refl H own⟩
  | case2 H a hs h =>
    have hcounted := hs'.counted a
    rw [List.cons_append, List.count_cons_self] at hcounted
    omega
  | case3 H a hs h ih =>
    obtain ⟨c, hc⟩ := hs'.live_of_mem List.mem_cons_self a rfl
    obtain ⟨hsound, hkeeps⟩ := hs'.vacate h hc
    rw [hc] at ih
    obtain ⟨hsound', hkeeps'⟩ := ih ((List.append_assoc c.children hs own).symm ▸ hsound)
    rw [release_sole h hc]
    exact ⟨hsound', (hkeeps.subset fun r => List.mem_append_right hs).trans hkeeps'⟩
  | case4 H a hs n h ih =>
    obtain ⟨hsound, hkeeps⟩ := hs'.lessen h
    obtain ⟨hsound', hkeeps'⟩ := ih hsound
    rw [release_shared h]
    exact ⟨hsound', (hkeeps.subset fun r => List.mem_append_right hs).trans hkeeps'⟩
  | case5 H h hs hscalar ih =>
    obtain ⟨hsound, hkeeps⟩ := ih (hs'.congr fun b => (count_cons_of_scalar hscalar).symm)
    rw [Heap.release]
    · exact ⟨hsound, hkeeps⟩
    · exact hscalar

/-! ## Cells of one's own -/

theorem Denotes.of_content (hv : H.Denotes v (.cell a)) (ha : H.content? a = some c)
    (hb : H.content? b = some c) : H.Denotes v (.cell b) := by
  cases v with
  | array vs =>
    obtain ⟨d, hs, heq, hc, hitems⟩ := denotes_array.1 hv
    obtain rfl := Handle.cell.inj heq
    exact denotes_array.2 ⟨b, hs, rfl, hb.trans (ha.symm.trans hc), hitems⟩
  | object gs =>
    obtain ⟨d, fs, heq, hc, hfields⟩ := denotes_object.1 hv
    obtain rfl := Handle.cell.inj heq
    exact denotes_object.2 ⟨b, fs, rfl, hb.trans (ha.symm.trans hc), hfields⟩
  | _ => exact nomatch hv

/-- A container in a cell that has a single owner. -/
structure Alone (H : Heap) (a : Nat) (c : Content) (own : List Handle) : Prop where
  sound : H.Sound (.cell a :: own)
  single : H.owners a = 1
  content : H.content? a = some c

theorem Denotes.retainAll (hv : H.Denotes v h) : (H.retainAll hs).Denotes v h :=
  hv.of_contents fun _ _ hc => content?_retainAll.trans hc

/-- More owners of what is in a cell do not concern those outside. -/
theorem Sound.keeps_retainAll (hs : H.Sound own) (hc : H.content? a = some c) :
    Keeps H (H.retainAll c.children) own where
  denotes _ _ _ hv := hv.retainAll
  sole b hb hsole := cells_retainAll fun hmem => by
    have hcounted := hs.counted b
    have hown := List.count_pos_iff.2 hb
    have hchildren := List.count_pos_iff.2 hmem
    have hle : c.children.count (.cell b) ≤ H.inside (.cell b) := count_le_inside hc
    omega

/-- Where there are other owners, the container moves. -/
theorem Sound.unshare (hs : H.Sound (.cell a :: own)) (hc : H.content? a = some c) :
    (H.unshare a c).2.Alone (H.unshare a c).1 c own ∧ Keeps H (H.unshare a c).2 own ∧
      ∀ v, H.Denotes v (.cell a) → (H.unshare a c).2.Denotes v (.cell (H.unshare a c).1) := by
  unfold Heap.unshare
  split
  · rename_i h
    exact ⟨⟨hs, h, hc⟩, .refl H own, fun _ hv => hv⟩
  · let R := H.retainAll c.children
    have hretained : R.Sound (c.children ++ .cell a :: own) :=
      hs.retainAll fun r => hs.live_of_child hc
    have hnew : (R.alloc c).2.Sound ([.cell a] ++ .cell R.cells.length :: own) :=
      (hretained.alloc (hs.sorted a c hc)).congr fun b => (List.Perm.swap ..).count_eq _
    obtain ⟨hsound, hkeeps⟩ := hnew.release
    have hcells := hkeeps.sole _ List.mem_cons_self owners_alloc_self
    refine ⟨⟨hsound, (owners_congr hcells).trans owners_alloc_self,
      (content?_congr hcells).trans content?_alloc_self⟩, ?_, fun v hv => ?_⟩
    · have hcopied : Keeps H (R.alloc c).2 (.cell a :: own) :=
        (hs.keeps_retainAll hc).trans (hretained.keeps_alloc.subset fun r =>
          List.mem_append_right _)
      exact (hcopied.subset fun r => List.mem_cons_of_mem _).trans
        (hkeeps.subset fun r => List.mem_cons_of_mem _)
    · have hcopied : (R.alloc c).2.Denotes v (.cell a) := hv.retainAll.alloc
      have hca : (R.alloc c).2.content? a = some c :=
        content?_alloc (content?_retainAll.trans hc)
      exact hkeeps.denotes _ List.mem_cons_self v (hcopied.of_content hca content?_alloc_self)

/-- There may be something else in such a cell afterwards, as long as nothing gets lost. -/
theorem Alone.write (ha : H.Alone a c own) (hsorted : c'.Sorted)
    (hcount : ∀ b, own'.count (.cell b) + c'.children.count (.cell b) =
      own.count (.cell b) + c.children.count (.cell b)) :
    (H.setContent a c').Alone a c' own' := by
  refine ⟨⟨fun b => ?_, fun b d hd => ?_⟩, owners_setContent.trans ha.single,
    content?_setContent_self ha.content⟩
  · have hcounted := ha.sound.counted b
    have hinside : (H.setContent a c').inside (.cell b) + c.children.count (.cell b) =
        H.inside (.cell b) + c'.children.count (.cell b) := inside_setContent ha.content
    have hb := hcount b
    rw [owners_setContent, hcounted, List.count_cons, List.count_cons]
    omega
  · by_cases hb : a = b
    · subst hb
      obtain rfl := Option.some.inj ((content?_setContent_self ha.content).symm.trans hd)
      exact hsorted
    · exact ha.sound.sorted b d ((content?_congr (cells_setContent_of_ne hb)).symm.trans hd)

theorem Alone.ne_of_mem (ha : H.Alone a c own) (hh : h ∈ own) : h ≠ .cell a := fun heq =>
  (ha.sound.sole ha.single).1 (heq ▸ hh)

theorem Alone.ne_of_child (ha : H.Alone a c own) (hh : h ∈ c.children) : h ≠ .cell a := fun heq =>
  (ha.sound.sole ha.single).2 a c ha.content (heq ▸ hh)

theorem Alone.denotes_write (ha : H.Alone a c own) (hne : h ≠ .cell a) (hv : H.Denotes v h) :
    (H.setContent a c').Denotes v h :=
  hv.apart (fun _ hb => cells_setContent_of_ne hb.symm) (ha.sound.sole ha.single).2 hne

theorem Alone.keeps_write (ha : H.Alone a c own) : Keeps H (H.setContent a c') own where
  denotes _ hh _ hv := ha.denotes_write (ha.ne_of_mem hh) hv
  sole _ hb _ := cells_setContent_of_ne fun heq => ha.ne_of_mem hb (heq ▸ rfl)

end DataShape.Heap
