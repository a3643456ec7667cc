import Aigentik.Llama.KvCache

/-! Slots for several batches are found by placing one after the other, and what was placed is taken back. -/

namespace Aigentik.Llama.KvCache

open Collections Cells Effects

structure Saved where
  idxs : List ℕ
  head : ℕ
  cells : Cells

section Prepare

variable (w : Swa)

/-- Slots are found for the batches as if those before them were placed. -/
def trySlots : List (List UToken) → KvCache → Bool × List Saved × KvCache
  | [], k => (true, [], k)
  | ubatch :: ubatches, k =>
    match findSlot w ubatch.length k with
    | none => (false, [], k)
    | some idxs =>
      let rest := trySlots ubatches (applyUbatch idxs ubatch k)
      (rest.1, ⟨idxs, k.head, k.cells.cp idxs⟩ :: rest.2.1, rest.2.2)

def restore (saved : Saved) (k : KvCache) : KvCache := ⟨Cells.set saved.idxs saved.cells k.cells, saved.head⟩

/-- The slots of the batches, and the cache after the loop that restores it. -/
def prepare (ubatches : List (List UToken)) (k : KvCache) : Option (List (List ℕ)) × KvCache :=
  let tried := trySlots w ubatches k
  (if tried.1 then some (tried.2.1.map (·.idxs)) else none, tried.2.1.foldr restore tried.2.2)

end Prepare

variable {w : Swa} {c c' c₀ : Cells} {k : KvCache} {idxs : List ℕ} {ubatch : List UToken} {rmMax : SeqId → ℤ} {x : Cell}
  {i : ℕ}

/-! Cells decide all that is kept beside them -/

theorem cells_eq_map (c : Cells) : c.cells = (List.range c.size).map c.get := by
  refine List.ext_getElem? fun i ↦ ?_
  rw [List.getElem?_map]
  by_cases hi : i < c.size
  · rw [List.getElem?_range hi, getElem?_eq hi]
    rfl
  · have hlen : (List.range c.size).length ≤ i := by
      rw [List.length_range]
      exact not_lt.mp hi
    rw [List.getElem?_eq_none (not_lt.mp hi), List.getElem?_eq_none hlen]
    rfl

theorem eq_of_get (h : Consistent c) (h' : Consistent c') (hshift : c.hasShift = c'.hasShift) (hsize : c.size = c'.size)
    (hget : ∀ i < c.size, c.get i = c'.get i) : c = c' := by
  have hcells : c.cells = c'.cells := by
    rw [cells_eq_map c, cells_eq_map c', ← hsize]
    exact List.map_congr_left fun i hi ↦ hget i (List.mem_range.mp hi)
  obtain ⟨hasShift, used, cells, seqPos⟩ := c
  obtain ⟨hasShift', used', cells', seqPos'⟩ := c'
  obtain rfl : hasShift = hasShift' := hshift
  obtain rfl : cells = cells' := hcells
  obtain rfl : used = used' := h.used.trans h'.used.symm
  obtain rfl : seqPos = seqPos' := funext fun s ↦ (h.seqPos s).trans (h'.seqPos s).symm
  rfl

theorem get_set_ne {j : ℕ} (hcells : c'.cells = c.cells.set i x) (hij : i ≠ j) : c'.get j = c.get j := by
  rw [Cells.get, Cells.get, hcells, List.getD_eq_getElem?_getD, List.getElem?_set_ne hij, List.getD_eq_getElem?_getD]

/-! Placing tokens in empty cells -/

theorem place_hasShift (i : ℕ) (t : UToken) (c : Cells) : (place (c, rmMax) i t).1.hasShift = c.hasShift := by
  have hadds : ∀ (seqId : List SeqId) (c : Cells), (seqId.foldl (fun c q ↦ c.seqAdd i q) c).hasShift = c.hasShift := by
    intro seqId
    induction seqId with
    | nil => exact fun _ ↦ rfl
    | cons q seqId ih => exact fun c ↦ ih (c.seqAdd i q)
  unfold place
  rw [hadds]
  cases t.ext <;> by_cases hempty : c.isEmpty i <;> simp only [hempty, if_true, if_false, Bool.false_eq_true] <;> rfl

theorem place_empty {t : UToken} (hempty : c.isEmpty i) : (place (c, rmMax) i t).2 = rmMax := by
  unfold place
  simp only [hempty, if_true]

theorem placed_empty {t : UToken} (hx : Valid x) (hempty : x.pos = -1) :
    placed t x = ⟨t.pos, t.ext.getD x.ext, 0, t.seqId.toFinset⟩ := by
  unfold placed
  simp only [if_pos hempty, (hx.empty hempty).2]

/-- What placing tokens in different empty cells leaves: the tokens in their cells, and all else as it was. -/
structure Placed (ps : List (ℕ × UToken)) (c c' : Cells) : Prop where
  consistent : Consistent c'
  size : c'.size = c.size
  hasShift : c'.hasShift = c.hasShift
  others : ∀ j, j ∉ ps.map Prod.fst → c'.get j = c.get j
  cells : ∀ t ∈ ps, c'.get t.1 = ⟨t.2.pos, t.2.ext.getD (c.get t.1).ext, 0, t.2.seqId.toFinset⟩

theorem places_placed {ps : List (ℕ × UToken)} (rmMax : SeqId → ℤ) (h : Consistent c) (hnodup : (ps.map Prod.fst).Nodup)
    (hps : ∀ t ∈ ps, t.1 < c.size ∧ c.isEmpty t.1 ∧ t.2.Wf) :
    (ps.foldl (fun s t ↦ place s t.1 t.2) (c, rmMax)).2 = rmMax ∧
      Placed ps c (ps.foldl (fun s t ↦ place s t.1 t.2) (c, rmMax)).1 := by
  induction ps generalizing c with
  | nil => exact ⟨rfl, h, rfl, rfl, fun _ _ ↦ rfl, fun _ ht ↦ absurd ht List.not_mem_nil⟩
  | cons t ps ih =>
    obtain ⟨⟨hi, hempty, ht⟩, hps⟩ := List.forall_mem_cons.mp hps
    rw [List.map_cons, List.nodup_cons] at hnodup
    obtain ⟨hconsistent, hcells⟩ := place_spec rmMax h hi ht
    rw [placed_empty (h.get_valid hi) (of_decide_eq_true hempty)] at hcells
    have hsize : (place (c, rmMax) t.1 t.2).1.size = c.size := by
      rw [Cells.size, hcells, List.length_set]
      rfl
    have hothers : ∀ j ≠ t.1, (place (c, rmMax) t.1 t.2).1.get j = c.get j := fun j hj ↦ get_set_ne hcells hj.symm
    have hne : ∀ t' ∈ ps, t'.1 ≠ t.1 := fun t' ht' heq ↦ hnodup.1 (heq ▸ List.mem_map_of_mem ht')
    have hps' : ∀ t' ∈ ps, t'.1 < (place (c, rmMax) t.1 t.2).1.size ∧ (place (c, rmMax) t.1 t.2).1.isEmpty t'.1 ∧
        t'.2.Wf := by
      intro t' ht'
      obtain ⟨hlt, hempty', hwf⟩ := hps t' ht'
      refine ⟨hsize ▸ hlt, ?_, hwf⟩
      rw [isEmpty, hothers t'.1 (hne t' ht')]
      exact hempty'
    obtain ⟨hrmMax, hrest⟩ := ih hconsistent hnodup.2 hps'
    have hstep : place (c, rmMax) t.1 t.2 = ((place (c, rmMax) t.1 t.2).1, rmMax) := Prod.ext rfl (place_empty hempty)
    rw [List.foldl_cons, hstep]
    refine ⟨hrmMax, hrest.consistent, hrest.size.trans hsize, hrest.hasShift.trans (place_hasShift ..), ?_, ?_⟩
    · intro j hj
      rw [List.map_cons, List.mem_cons, not_or] at hj
      rw [hrest.others j hj.2, hothers j hj.1]
    · intro t' ht'
      rcases List.mem_cons.mp ht' with rfl | ht'
      · rw [hrest.others _ hnodup.1, get_set hcells hi]
      · rw [hrest.cells t' ht', hothers t'.1 (hne t' ht')]

/-- Nothing was overwritten, so nothing is purged. -/
theorem purge_none (k : KvCache) : purge (fun _ ↦ -1) k = k := by
  unfold purge
  generalize List.finRange 256 = l
  induction l with
  | nil => rfl
  | cons s l ih =>
    rw [List.foldl_cons, purgeSeq, if_pos rfl]
    exact ih

/-- Different empty cells for the tokens of a batch. -/
structure Slot (idxs : List ℕ) (c : Cells) : Prop where
  nodup : idxs.Nodup
  empty : ∀ i ∈ idxs, i < c.size ∧ c.isEmpty i

theorem applyUbatch_placed (h : k.Inv) (hslot : Slot idxs k.cells) (hlen : idxs.length = ubatch.length)
    (hubatch : ∀ t ∈ ubatch, t.Wf) : Placed (idxs.zip ubatch) k.cells (applyUbatch idxs ubatch k).cells := by
  have hfst : (idxs.zip ubatch).map Prod.fst = idxs := List.map_fst_zip hlen.le
  obtain ⟨hrmMax, hplaced⟩ := places_placed (fun _ ↦ -1) h.cells (hfst.symm ▸ hslot.nodup) fun t ht ↦
    ⟨(hslot.empty _ (List.of_mem_zip ht).1).1, (hslot.empty _ (List.of_mem_zip ht).1).2,
      hubatch _ (List.of_mem_zip ht).2⟩
  unfold applyUbatch
  dsimp only
  rw [hrmMax, purge_none]
  exact hplaced

/-! Taking it back -/

theorem setOne_hasShift (i : ℕ) (other : Cell) (c : Cells) : (setOne i other c).hasShift = c.hasShift := by
  unfold setOne setUsed
  dsimp only
  split <;> split <;> split <;> split <;> rfl

/-- Cells that differ from those saved only where they were saved, and have the shifts of those, are put back. -/
theorem set_cp (idxs : List ℕ) (h₀ : Consistent c₀) (h : Consistent c) (hshift : c.hasShift = c₀.hasShift) (hsize : c.size = c₀.size)
    (hidxs : ∀ i ∈ idxs, i < c₀.size ∧ (c.get i).shift = (c₀.get i).shift)
    (hothers : ∀ j < c₀.size, j ∉ idxs → c.get j = c₀.get j) : Cells.set idxs (c₀.cp idxs) c = c₀ := by
  unfold Cells.set cp
  dsimp only
  induction idxs generalizing c with
  | nil => exact eq_of_get h h₀ hshift hsize fun i hi ↦ hothers i (hsize ▸ hi) List.not_mem_nil
  | cons i idxs ih =>
    obtain ⟨⟨hi, hsame⟩, hrest⟩ := List.forall_mem_cons.mp hidxs
    have hi' : i < c.size := hsize.symm ▸ hi
    have hr := setOne_replaces h hi' { c₀.get i with shift := 0 } fun hpos ↦ ((h₀.get_valid hi).empty hpos).1
    rw [hsame] at hr
    have hget : (setOne i { c₀.get i with shift := 0 } c).get i = c₀.get i := get_set hr.cells hi'
    have hne : ∀ j ≠ i, (setOne i { c₀.get i with shift := 0 } c).get j = c.get j := fun j hj ↦
      get_set_ne hr.cells hj.symm
    rw [List.map_cons, List.zip_cons_cons, List.foldl_cons]
    refine ih (h.replaces hr hi' (h₀.get_valid hi)) ((setOne_hasShift ..).trans hshift) (hr.size_eq.trans hsize) ?_ ?_
    · intro j hj
      refine ⟨(hrest j hj).1, ?_⟩
      by_cases hji : j = i
      · rw [hji, hget]
      · rw [hne j hji]
        exact (hrest j hj).2
    · intro j hj hnot
      by_cases hji : j = i
      · rw [hji, hget]
      · rw [hne j hji]
        exact hothers j hj fun hmem ↦ (List.mem_cons.mp hmem).elim hji hnot

theorem restore_applyUbatch (h : k.Inv) (hslot : Slot idxs k.cells) (hlen : idxs.length = ubatch.length)
    (hubatch : ∀ t ∈ ubatch, t.Wf) :
    restore ⟨idxs, k.head, k.cells.cp idxs⟩ (applyUbatch idxs ubatch k) = k := by
  have hplaced := applyUbatch_placed h hslot hlen hubatch
  have hfst : (idxs.zip ubatch).map Prod.fst = idxs := List.map_fst_zip hlen.le
  have hcells := set_cp idxs h.cells hplaced.consistent hplaced.hasShift hplaced.size (fun i hi ↦ ?_)
    fun j _ hj ↦ hplaced.others j (hfst.symm ▸ hj)
  · obtain ⟨cells, head⟩ := k
    exact congrArg (KvCache.mk · head) hcells
  · obtain ⟨hlt, hempty⟩ := hslot.empty i hi
    refine ⟨hlt, ?_⟩
    rw [← hfst] at hi
    obtain ⟨t, ht, rfl⟩ := List.mem_map.mp hi
    rw [hplaced.cells t ht, ((h.cells.get_valid hlt).empty (of_decide_eq_true hempty)).2]

/-! How many batches fit -/

theorem canUse_iff (hw : w.swaType = .none) (i : ℕ) (c : Cells) : canUse w i c = c.isEmpty i := by
  unfold canUse
  rw [hw]
  cases seqGet i c <;> simp [isMaskedSwa]

/-- Without a window the cells that can be used are those that are not. -/
theorem room_add_getUsed (hw : w.swaType = .none) (h : Consistent c) : room w c + c.getUsed = c.size := by
  have hroom : room w c = c.cells.countP fun x ↦ x.pos = -1 := by
    rw [room, usable, ← List.countP_eq_length_filter, cells_eq_map c, List.countP_map]
    refine List.countP_congr fun i _ ↦ ?_
    rw [canUse_iff hw]
    rfl
  have hsplit := List.length_eq_countP_add_countP (fun x : Cell ↦ decide (x.pos = -1)) (l := c.cells)
  rw [hroom, h.scanned.used, size, hsplit]
  refine congrArg _ (List.countP_congr fun x _ ↦ ?_)
  simp only [ne_eq, decide_not, Bool.not_eq_true', decide_eq_false_iff_not, decide_eq_true_eq]

theorem mem_used_iff (h : Consistent c) : i ∈ c.used ↔ i < c.size ∧ (c.get i).pos ≠ -1 := by
  refine ⟨fun hi ↦ ?_, fun hi ↦ (h.mem_used hi.1).mpr hi.2⟩
  have hlt : i < c.size := by
    rw [h.used, mem_marked] at hi
    obtain ⟨x, hx, -⟩ := hi
    exact (List.getElem?_eq_some_iff.mp hx).1
  exact ⟨hlt, (h.mem_used hlt).mp hi⟩

/-- A placed batch takes as many cells as it has tokens. -/
theorem applyUbatch_used (h : k.Inv) (hslot : Slot idxs k.cells) (hlen : idxs.length = ubatch.length)
    (hubatch : ∀ t ∈ ubatch, t.Wf) :
    (applyUbatch idxs ubatch k).cells.used = k.cells.used ∪ idxs.toFinset ∧ Disjoint k.cells.used idxs.toFinset := by
  have hplaced := applyUbatch_placed h hslot hlen hubatch
  have hfst : (idxs.zip ubatch).map Prod.fst = idxs := List.map_fst_zip hlen.le
  constructor
  · ext i
    rw [mem_used_iff hplaced.consistent, hplaced.size, Finset.mem_union, List.mem_toFinset, mem_used_iff h.cells]
    by_cases hi : i ∈ idxs
    · refine iff_of_true ⟨(hslot.empty i hi).1, ?_⟩ (.inr hi)
      rw [← hfst] at hi
      obtain ⟨t, ht, rfl⟩ := List.mem_map.mp hi
      have hpos := (hubatch _ (List.of_mem_zip ht).2).pos
      rw [hplaced.cells t ht]
      dsimp only
      omega
    · rw [hplaced.others i (hfst.symm ▸ hi), or_iff_left hi]
  · rw [Finset.disjoint_left]
    intro i hused hi
    have hi := List.mem_toFinset.mp hi
    exact ((mem_used_iff h.cells).mp hused).2 (of_decide_eq_true (hslot.empty i hi).2)

theorem room_applyUbatch (hw : w.swaType = .none) (h : k.Inv) (hslot : Slot idxs k.cells)
    (hlen : idxs.length = ubatch.length) (hubatch : ∀ t ∈ ubatch, t.Wf) :
    room w (applyUbatch idxs ubatch k).cells + ubatch.length = room w k.cells := by
  have hplaced := applyUbatch_placed h hslot hlen hubatch
  obtain ⟨hused, hdisjoint⟩ := applyUbatch_used h hslot hlen hubatch
  have hbefore := room_add_getUsed hw h.cells
  have hafter := room_add_getUsed hw hplaced.consistent
  rw [getUsed, hused, Finset.card_union_of_disjoint hdisjoint, List.toFinset_card_of_nodup hslot.nodup,
    hplaced.size] at hafter
  rw [getUsed] at hbefore
  omega

/-- The slots found for the batches: together different empty cells, as many for each batch as it has tokens. -/
structure Slots (slots : List (List ℕ)) (ubatches : List (List UToken)) (c : Cells) : Prop where
  slot : Slot slots.flatten c
  lengths : slots.map List.length = ubatches.map List.length

theorem findSlot_slot (hw : w.swaType = .none) (h : k.Inv) (hne : ubatch ≠ [])
    (hfound : findSlot w ubatch.length k = some idxs) :
    Slot idxs k.cells ∧ idxs.length = ubatch.length := by
  obtain ⟨hlen, hnodup, hcells⟩ := (findSlot_spec h (List.length_pos_iff.mpr hne)).2 idxs hfound
  refine ⟨⟨hnodup, fun i hi ↦ ⟨(hcells i hi).1, ?_⟩⟩, hlen⟩
  rw [← canUse_iff hw]
  exact (hcells i hi).2

/-- Empty cells of a cache with a batch placed were empty before, and are not those of the batch. -/
theorem Slot.append {later : List ℕ} (h : k.Inv) (hslot : Slot idxs k.cells) (hlen : idxs.length = ubatch.length)
    (hubatch : ∀ t ∈ ubatch, t.Wf) (hlater : Slot later (applyUbatch idxs ubatch k).cells) :
    Slot (idxs ++ later) k.cells := by
  have hplaced := applyUbatch_placed h hslot hlen hubatch
  have hfst : (idxs.zip ubatch).map Prod.fst = idxs := List.map_fst_zip hlen.le
  have hused := (applyUbatch_used h hslot hlen hubatch).1
  have hnot : ∀ i ∈ later, i ∉ idxs := by
    intro i hi hmem
    have hin : i ∈ (applyUbatch idxs ubatch k).cells.used := by
      rw [hused]
      exact Finset.mem_union_right _ (List.mem_toFinset.mpr hmem)
    exact ((mem_used_iff hplaced.consistent).mp hin).2 (of_decide_eq_true (hlater.empty i hi).2)
  refine ⟨List.nodup_append'.mpr ⟨hslot.nodup, hlater.nodup, fun i hi hi' ↦ hnot i hi' hi⟩, fun i hi ↦ ?_⟩
  rcases List.mem_append.mp hi with hi | hi
  · exact hslot.empty i hi
  · obtain ⟨hlt, hempty⟩ := hlater.empty i hi
    refine ⟨hplaced.size ▸ hlt, ?_⟩
    rw [isEmpty, ← hplaced.others i (hfst.symm ▸ hnot i hi)]
    exact hempty

/-- Once a batch is placed, the slots of the others are still there. -/
theorem Slots.tail {slots : List (List ℕ)} {ubatches : List (List UToken)} (h : k.Inv)
    (hslots : Slots (idxs :: slots) (ubatch :: ubatches) k.cells) (hubatch : ∀ t ∈ ubatch, t.Wf) :
    (Slot idxs k.cells ∧ idxs.length = ubatch.length) ∧ Slots slots ubatches (applyUbatch idxs ubatch k).cells := by
  obtain ⟨⟨hnodup, hempty⟩, hlengths⟩ := hslots
  rw [List.flatten_cons] at hnodup hempty
  rw [List.map_cons, List.map_cons, List.cons.injEq] at hlengths
  obtain ⟨hidxs, hrest, hdisjoint⟩ := List.nodup_append'.mp hnodup
  have hslot : Slot idxs k.cells := ⟨hidxs, fun i hi ↦ hempty i (List.mem_append_left _ hi)⟩
  have hplaced := applyUbatch_placed h hslot hlengths.1 hubatch
  have hfst : (idxs.zip ubatch).map Prod.fst = idxs := List.map_fst_zip hlengths.1.le
  refine ⟨⟨hslot, hlengths.1⟩, ⟨hrest, fun i hi ↦ ?_⟩, hlengths.2⟩
  obtain ⟨hlt, hcell⟩ := hempty i (List.mem_append_right _ hi)
  refine ⟨hplaced.size.symm ▸ hlt, ?_⟩
  rw [isEmpty, hplaced.others i (hfst.symm ▸ fun hmem ↦ hdisjoint hmem hi)]
  exact hcell

theorem trySlots_spec {ubatches : List (List UToken)} (hw : w.swaType = .none) (h : k.Inv)
    (hubatches : ∀ ubatch ∈ ubatches, ubatch ≠ [] ∧ ∀ t ∈ ubatch, t.Wf) :
    let tried := trySlots w ubatches k
    tried.2.1.foldr restore tried.2.2 = k ∧ (tried.1 ↔ (ubatches.map List.length).sum ≤ room w k.cells) ∧
      (tried.1 → Slots (tried.2.1.map (·.idxs)) ubatches k.cells) := by
  induction ubatches generalizing k with
  | nil =>
    have hnone : Slot [] k.cells := ⟨List.nodup_nil, fun _ hi ↦ absurd hi List.not_mem_nil⟩
    exact ⟨rfl, iff_of_true rfl (Nat.zero_le _), fun _ ↦ ⟨hnone, rfl⟩⟩
  | cons ubatch ubatches ih =>
    obtain ⟨⟨hne, hwf⟩, hrest⟩ := List.forall_mem_cons.mp hubatches
    have hfits := (findSlot_spec (w := w) h (List.length_pos_iff.mpr hne)).1
    dsimp only [trySlots]
    cases hfound : findSlot w ubatch.length k with
    | none =>
      rw [hfound] at hfits
      refine ⟨rfl, iff_of_false Bool.false_ne_true fun hle ↦ ?_, fun hfalse ↦ absurd hfalse Bool.false_ne_true⟩
      rw [List.map_cons, List.sum_cons] at hle
      exact Bool.false_ne_true (hfits.mpr (by omega))
    | some idxs =>
      obtain ⟨hslot, hlen⟩ := findSlot_slot hw h hne hfound
      obtain ⟨hrestored, hroom, hslots⟩ := ih (applyUbatch_inv h (fun i hi ↦ (hslot.empty i hi).1) hwf) hrest
      have hleft := room_applyUbatch hw h hslot hlen hwf
      dsimp only
      refine ⟨?_, ?_, fun htried ↦ ?_⟩
      · rw [List.foldr_cons, hrestored]
        exact restore_applyUbatch h hslot hlen hwf
      · rw [hroom, List.map_cons, List.sum_cons]
        omega
      · have hlater := hslots htried
        refine ⟨hslot.append h hlen hwf hlater.slot, ?_⟩
        rw [List.map_cons, List.map_cons, List.map_cons, hlen, hlater.lengths]

theorem prepare_spec {ubatches : List (List UToken)} (hw : w.swaType = .none) (h : k.Inv)
    (hubatches : ∀ ubatch ∈ ubatches, ubatch ≠ [] ∧ ∀ t ∈ ubatch, t.Wf) :
    (prepare w ubatches k).2 = k ∧
      ((prepare w ubatches k).1.isSome ↔ (ubatches.map List.length).sum + k.cells.getUsed ≤ k.cells.size) ∧
      ∀ slots, (prepare w ubatches k).1 = some slots → Slots slots ubatches k.cells := by
  obtain ⟨hrestored, hfits, hslots⟩ := trySlots_spec hw h hubatches
  have hroom := room_add_getUsed hw h.cells
  unfold prepare
  dsimp only
  refine ⟨hrestored, ?_, fun slots hfound ↦ ?_⟩
  · split
    · rename_i htried
      refine iff_of_true rfl ?_
      have hle := hfits.mp htried
      omega
    · rename_i htried
      refine iff_of_false Bool.false_ne_true fun hle ↦ htried (hfits.mpr ?_)
      omega
  · split at hfound
    · rename_i htried
      cases hfound
      exact hslots htried
    · cases hfound

end Aigentik.Llama.KvCache
