import Aigentik.Collections.Tally
import Mathlib

/-! The cells of a context's cache: which positions of which sequences they hold, and what is counted of them. -/

namespace Aigentik.Llama

open Collections

/-- There are `LLAMA_MAX_SEQ` sequences. -/
abbrev SeqId := Fin 256

/-- The sequence of the tokens of a batch that names none. -/
abbrev seqId0 : SeqId := 0

structure Cell where
  pos : ℤ
  ext : ℤ × ℤ
  shift : ℤ
  seq : Finset SeqId

def Cell.empty : Cell := ⟨-1, (0, 0), 0, ∅⟩

/-- The maps of `seq_pos` from positions to counters are multisets. -/
structure Cells where
  hasShift : Bool
  used : Finset ℕ
  cells : List Cell
  seqPos : SeqId → Multiset ℤ

namespace Cells

def size (c : Cells) : ℕ := c.cells.length

def get (i : ℕ) (c : Cells) : Cell := c.cells.getD i .empty

def modify (i : ℕ) (f : Cell → Cell) (c : Cells) : Cells := { c with cells := c.cells.modify i f }

def reset (c : Cells) : Cells := ⟨false, ∅, c.cells.map fun _ ↦ .empty, fun _ ↦ 0⟩

def resetShift (c : Cells) : Cells := { c with hasShift := false, cells := c.cells.map fun x ↦ { x with shift := 0 } }

def resize (n : ℕ) : Cells := ⟨false, ∅, List.replicate n .empty, fun _ ↦ 0⟩

def isEmpty (i : ℕ) (c : Cells) : Bool := (c.get i).pos = -1

def getUsed (c : Cells) : ℕ := c.used.card

def usedMin (c : Cells) : ℕ := (c.used.sort).head?.getD 0

def usedMaxP1 (c : Cells) : ℕ := ((c.used.sort).getLast?.map (· + 1)).getD 0

/-! The counters -/

def seqPosDec (s : SeqId) (p : ℤ) (c : Cells) : Cells :=
  { c with seqPos := Function.update c.seqPos s ((c.seqPos s).erase p) }

def seqPosInc (s : SeqId) (p : ℤ) (c : Cells) : Cells :=
  { c with seqPos := Function.update c.seqPos s (p ::ₘ c.seqPos s) }

def seqPosRm (i : ℕ) (c : Cells) : Cells :=
  { c with seqPos := fun s ↦ if s ∈ (c.get i).seq then (c.seqPos s).erase (c.get i).pos else c.seqPos s }

def seqPosAdd (i : ℕ) (c : Cells) : Cells :=
  { c with seqPos := fun s ↦ if s ∈ (c.get i).seq then (c.get i).pos ::ₘ c.seqPos s else c.seqPos s }

def seqPosMin (s : SeqId) (c : Cells) : ℤ := (c.seqPos s).sort.head?.getD (-1)

def seqPosMax (s : SeqId) (c : Cells) : ℤ := (c.seqPos s).sort.getLast?.getD (-1)

/-! One cell -/

def posIn (i : ℕ) (p0 p1 : ℤ) (c : Cells) : Bool := p0 ≤ (c.get i).pos && (c.get i).pos < p1

def seqHas (i : ℕ) (s : SeqId) (c : Cells) : Bool := s ∈ (c.get i).seq

def rm (i : ℕ) (c : Cells) : Cells :=
  let c := seqPosRm i c
  let c := c.modify i fun x ↦ { x with seq := ∅ }
  let c := c.modify i fun x ↦ { x with pos := -1, ext := (0, 0), shift := 0 }
  { c with used := c.used.erase i }

/-- Whether the cell becomes empty, and the cells. -/
def seqRm (i : ℕ) (s : SeqId) (c : Cells) : Bool × Cells :=
  let c := c.modify i fun x ↦ { x with seq := x.seq.erase s }
  let c := seqPosDec s (c.get i).pos c
  if (c.get i).seq = ∅ then
    let c := c.modify i fun x ↦ { x with pos := -1, ext := (0, 0), shift := 0 }
    (true, { c with used := c.used.erase i })
  else (false, c)

def seqKeep (i : ℕ) (s : SeqId) (c : Cells) : Bool × Cells :=
  if s ∈ (c.get i).seq then
    let c := seqPosRm i c
    let c := c.modify i fun x ↦ { x with seq := {s} }
    (false, seqPosInc s (c.get i).pos c)
  else if (c.get i).seq ≠ ∅ then
    let c := seqPosRm i c
    let c := c.modify i fun x ↦ { x with seq := ∅ }
    let c := c.modify i fun x ↦ { x with pos := -1, ext := (0, 0), shift := 0 }
    (true, { c with used := c.used.erase i })
  else (false, c)

def seqAdd (i : ℕ) (s : SeqId) (c : Cells) : Cells :=
  let c := c.modify i fun x ↦ { x with seq := insert s x.seq }
  seqPosInc s (c.get i).pos c

def posSet (i : ℕ) (p : ℤ) (c : Cells) : Cells :=
  let c := c.modify i fun x ↦ { x with pos := p }
  { c with used := insert i c.used }

def extSet (i : ℕ) (p : ℤ × ℤ) (c : Cells) : Cells := c.modify i fun x ↦ { x with ext := p }

def posAdd (i : ℕ) (d : ℤ) (c : Cells) : Bool × Cells :=
  let c := seqPosRm i c
  let c := c.modify i fun x ↦ { x with pos := x.pos + d, shift := x.shift + d }
  let c := { c with hasShift := true }
  if (c.get i).pos < 0 then
    let c := c.modify i fun x ↦ { x with seq := ∅, pos := -1, shift := 0 }
    (true, { c with used := c.used.erase i })
  else (false, seqPosAdd i c)

def posDiv (i : ℕ) (d : ℤ) (c : Cells) : Cells :=
  let pOld := (c.get i).pos
  let c := seqPosRm i c
  let c := c.modify i fun x ↦ { x with pos := x.pos.tdiv d }
  let c := c.modify i fun x ↦ { x with shift := x.shift + (pOld - x.pos) }
  { seqPosAdd i c with hasShift := true }

/-! Saving and restoring -/

def cp (idxs : List ℕ) (c : Cells) : Cells :=
  { resize idxs.length with cells := idxs.map fun i ↦ { c.get i with shift := 0 } }

def setUsed (i : ℕ) (other : Cell) (c : Cells) : Cells :=
  let c := if (c.get i).pos = -1 ∧ other.pos ≠ -1 then { c with used := insert i c.used } else c
  if (c.get i).pos ≠ -1 ∧ other.pos = -1 then { c with used := c.used.erase i } else c

def setOne (i : ℕ) (other : Cell) (c : Cells) : Cells :=
  let c := setUsed i other c
  let c := if (c.get i).pos ≠ -1 then seqPosRm i c else c
  let c := c.modify i fun x ↦ { x with pos := other.pos, ext := other.ext, seq := other.seq }
  if (c.get i).pos ≠ -1 then seqPosAdd i c else c

def set (idxs : List ℕ) (other c : Cells) : Cells :=
  (idxs.zip other.cells).foldl (fun c cell ↦ c.setOne cell.1 cell.2) c

/-! What the counters agree with -/

def held (s : SeqId) (x : Cell) : Multiset ℤ := if s ∈ x.seq then {x.pos} else 0

/-- An empty cell holds no sequence and no shift. -/
structure Valid (x : Cell) : Prop where
  pos : -1 ≤ x.pos
  empty : x.pos = -1 → x.seq = ∅ ∧ x.shift = 0

/-- What is kept beside the cells is what a scan of the cells would find. -/
structure Consistent (c : Cells) : Prop where
  used : c.used = marked (fun x ↦ x.pos ≠ -1) c.cells
  seqPos : ∀ s, c.seqPos s = tally (held s) c.cells
  valid : ∀ x ∈ c.cells, Valid x

/-- One cell is exchanged, and what is kept beside the cells follows. -/
structure Replaces (i : ℕ) (x : Cell) (c c' : Cells) : Prop where
  cells : c'.cells = c.cells.set i x
  used : c'.used = if x.pos ≠ -1 then insert i c.used else c.used.erase i
  seqPos : ∀ s, c'.seqPos s + held s (c.get i) = c.seqPos s + held s x

variable {c c' : Cells} {i : ℕ} {s : SeqId} {x : Cell}

theorem held_empty (s : SeqId) : held s .empty = 0 := if_neg (Finset.notMem_empty s)

theorem held_of_mem (h : s ∈ x.seq) : held s x = {x.pos} := if_pos h

theorem held_of_notMem (h : s ∉ x.seq) : held s x = 0 := if_neg h

theorem valid_empty : Valid .empty := ⟨le_rfl, fun _ ↦ ⟨rfl, rfl⟩⟩

theorem getElem?_eq (hi : i < c.size) : c.cells[i]? = some (c.get i) := by
  rw [get, List.getD_eq_getElem?_getD, List.getElem?_eq_getElem hi]
  rfl

theorem Consistent.get_valid (h : Consistent c) (hi : i < c.size) : Valid (c.get i) :=
  h.valid _ (List.mem_of_getElem? (getElem?_eq hi))

theorem Consistent.mem_used (h : Consistent c) (hi : i < c.size) : i ∈ c.used ↔ (c.get i).pos ≠ -1 := by
  rw [h.used, mem_marked, getElem?_eq hi]
  refine ⟨fun hx ↦ ?_, fun hx ↦ ⟨_, rfl, decide_eq_true hx⟩⟩
  obtain ⟨x, hx, hpos⟩ := hx
  cases hx
  exact of_decide_eq_true hpos

theorem Consistent.pos_mem (h : Consistent c) (hi : i < c.size) (hs : s ∈ (c.get i).seq) :
    (c.get i).pos ∈ c.seqPos s := by
  rw [h.seqPos, mem_tally]
  refine ⟨_, List.mem_of_getElem? (getElem?_eq hi), ?_⟩
  rw [held, if_pos hs]
  exact Multiset.mem_singleton_self _

theorem Consistent.pos_ne (h : Consistent c) (hi : i < c.size) (hs : s ∈ (c.get i).seq) : (c.get i).pos ≠ -1 := by
  intro hpos
  rw [((h.get_valid hi).empty hpos).1] at hs
  exact Finset.notMem_empty s hs

theorem Consistent.replaces (h : Consistent c) (hr : Replaces i x c c') (hi : i < c.size) (hx : Valid x) :
    Consistent c' where
  used := by
    rw [hr.used, hr.cells, marked_set _ hi, h.used]
    simp only [decide_eq_true_eq]
  seqPos s := by
    have htally := tally_set (held s) (getElem?_eq hi) x
    have hseq := hr.seqPos s
    rw [h.seqPos s, ← htally] at hseq
    rw [hr.cells]
    exact add_right_cancel hseq
  valid y hy := by
    rw [hr.cells] at hy
    rcases List.mem_or_eq_of_mem_set hy with hy | rfl
    · exact h.valid y hy
    · exact hx

theorem Replaces.size_eq (hr : Replaces i x c c') : c'.size = c.size := by
  rw [size, size, hr.cells, List.length_set]

theorem Consistent.unchanged (h : Consistent c) (hi : i < c.size) : Replaces i (c.get i) c c where
  cells := by
    rw [get, List.getD_eq_getElem?_getD, List.getElem?_eq_getElem hi]
    exact (List.set_getElem_self hi).symm
  used := by
    split
    · rename_i hpos
      exact (Finset.insert_eq_self.mpr ((h.mem_used hi).mpr hpos)).symm
    · rename_i hpos
      exact (Finset.erase_eq_of_notMem fun hmem ↦ hpos ((h.mem_used hi).mp hmem)).symm
  seqPos _ := rfl

theorem consistent_resize (n : ℕ) : Consistent (resize n) where
  used := by
    ext i
    rw [mem_marked]
    refine iff_of_false (Finset.notMem_empty i) fun hx ↦ ?_
    obtain ⟨x, hx, hpos⟩ := hx
    rw [List.eq_of_mem_replicate (List.mem_of_getElem? hx)] at hpos
    exact of_decide_eq_true hpos rfl
  seqPos s := by
    refine (Multiset.eq_zero_of_forall_notMem fun p hp ↦ ?_).symm
    obtain ⟨x, hx, hp⟩ := (mem_tally _).mp hp
    rw [List.eq_of_mem_replicate hx, held_empty] at hp
    exact Multiset.notMem_zero p hp
  valid x hx := by
    rw [List.eq_of_mem_replicate hx]
    exact valid_empty

/-! What each operation does to its cell -/

theorem cells_modify (i : ℕ) (f : Cell → Cell) (c : Cells) (hi : i < c.size) :
    (c.modify i f).cells = c.cells.set i (f (c.get i)) := by
  rw [modify, List.modify_eq_set_getElem?, getElem?_eq hi]
  rfl

theorem get_set {x : Cell} (hcells : c'.cells = c.cells.set i x) (hi : i < c.size) : c'.get i = x := by
  rw [get, hcells, List.getD_eq_getElem?_getD, List.getElem?_set_self hi]
  rfl

theorem get_modify (i : ℕ) (f : Cell → Cell) (hi : i < c.size) : (c.modify i f).get i = f (c.get i) :=
  get_set (cells_modify i f c hi) hi

theorem size_modify (i : ℕ) (f : Cell → Cell) (c : Cells) : (c.modify i f).size = c.size := List.length_modify ..

theorem seqPosRm_seqPos (h : Consistent c) (hi : i < c.size) (s : SeqId) :
    (seqPosRm i c).seqPos s + held s (c.get i) = c.seqPos s := by
  unfold seqPosRm held
  dsimp only
  split
  · rename_i hs
    rw [Multiset.add_comm, Multiset.singleton_add, Multiset.cons_erase (h.pos_mem hi hs)]
  · exact add_zero _

theorem seqPosAdd_seqPos (i : ℕ) (c : Cells) (s : SeqId) :
    (seqPosAdd i c).seqPos s = c.seqPos s + held s (c.get i) := by
  unfold seqPosAdd held
  dsimp only
  split
  · rw [Multiset.add_comm, Multiset.singleton_add]
  · exact (add_zero _).symm

theorem modify_modify (i : ℕ) (f g : Cell → Cell) (c : Cells) :
    (c.modify i f).modify i g = c.modify i fun x ↦ g (f x) := by
  rw [modify, modify, modify, List.modify_modify_eq]
  rfl

theorem rm_replaces (h : Consistent c) (hi : i < c.size) : Replaces i .empty c (rm i c) where
  cells := by
    unfold rm
    dsimp only
    rw [modify_modify, cells_modify i _ (seqPosRm i c) hi]
    rfl
  used := rfl
  seqPos t := by
    rw [held_empty, add_zero]
    exact seqPosRm_seqPos h hi t

/-- What is left of a cell that a sequence leaves. -/
def without (s : SeqId) (x : Cell) : Cell :=
  if x.seq.erase s = ∅ then .empty else { x with seq := x.seq.erase s }

theorem seqRm_replaces (h : Consistent c) (hi : i < c.size) (hs : s ∈ (c.get i).seq) :
    Replaces i (without s (c.get i)) c (seqRm i s c).2 ∧
      ((seqRm i s c).1 ↔ (without s (c.get i)).pos = -1) := by
  have hpos := h.pos_ne hi hs
  have hmem := h.pos_mem hi hs
  have hused := Finset.insert_eq_self.mpr ((h.mem_used hi).mpr hpos)
  have hget := get_modify i (fun x ↦ { x with seq := x.seq.erase s }) hi
  have hothers : ∀ t ≠ s, t ∈ (c.get i).seq.erase s ↔ t ∈ (c.get i).seq := by
    intro t ht
    rw [Finset.mem_erase, and_iff_right ht]
  have hseq : ∀ t, Function.update c.seqPos s ((c.seqPos s).erase (c.get i).pos) t + held t (c.get i) =
      c.seqPos t + held t { c.get i with seq := (c.get i).seq.erase s } := by
    intro t
    by_cases ht : t = s
    · subst ht
      rw [Function.update_self, held_of_mem hs, held_of_notMem (Finset.notMem_erase t _), add_zero, add_comm,
        Multiset.singleton_add, Multiset.cons_erase hmem]
    · rw [Function.update_of_ne ht, held, held]
      simp only [hothers t ht]
  have hget' : ∀ p, (seqPosDec s p (c.modify i fun x ↦ { x with seq := x.seq.erase s })).get i =
      { c.get i with seq := (c.get i).seq.erase s } := fun _ ↦ hget
  unfold seqRm without
  dsimp only
  simp only [hget, hget']
  by_cases hempty : (c.get i).seq.erase s = ∅
  · simp only [if_pos hempty]
    refine ⟨⟨?_, rfl, fun t ↦ ?_⟩, iff_of_true trivial rfl⟩
    · have hcells := congrArg cells (modify_modify i (fun x ↦ { x with seq := x.seq.erase s })
        (fun x ↦ { x with pos := -1, ext := (0, 0), shift := 0 }) c)
      rw [cells_modify i _ c hi] at hcells
      dsimp only at hcells
      rw [hempty] at hcells
      exact hcells
    · refine (hseq t).trans ?_
      rw [held_empty, held_of_notMem (hempty ▸ Finset.notMem_empty t)]
  · simp only [if_neg hempty]
    refine ⟨⟨cells_modify i _ c hi, ?_, hseq⟩, iff_of_false Bool.false_ne_true hpos⟩
    rw [if_pos hpos, hused]
    rfl

/-- What is left of a cell of which only one sequence is kept. -/
def only (s : SeqId) (x : Cell) : Cell :=
  if s ∈ x.seq then { x with seq := {s} } else if x.seq ≠ ∅ then .empty else x

theorem seqKeep_replaces (h : Consistent c) (hi : i < c.size) (s : SeqId) :
    Replaces i (only s (c.get i)) c (seqKeep i s c).2 := by
  have hget := get_modify (c := seqPosRm i c) i (fun x ↦ { x with seq := {s} }) hi
  have hrm := seqPosRm_seqPos h hi
  unfold seqKeep only
  by_cases hs : s ∈ (c.get i).seq
  · have hpos := h.pos_ne hi hs
    simp only [if_pos hs, hget]
    refine ⟨cells_modify i _ (seqPosRm i c) hi, ?_, fun t ↦ ?_⟩
    · rw [if_pos hpos, Finset.insert_eq_self.mpr ((h.mem_used hi).mpr hpos)]
      rfl
    · unfold seqPosInc
      dsimp only
      by_cases ht : t = s
      · subst ht
        rw [Function.update_self, held_of_mem (x := { c.get i with seq := {t} }) (Finset.mem_singleton_self t),
          Multiset.cons_add]
        exact (congrArg _ (hrm t)).trans ((Multiset.singleton_add _ _).symm.trans (add_comm _ _))
      · rw [Function.update_of_ne ht, held_of_notMem (x := { c.get i with seq := {s} }) (by simpa using ht), add_zero]
        exact hrm t
  · simp only [if_neg hs]
    by_cases hany : (c.get i).seq ≠ ∅
    · simp only [if_pos hany]
      exact rm_replaces h hi
    · simp only [if_neg hany]
      exact h.unchanged hi

theorem seqAdd_replaces (h : Consistent c) (hi : i < c.size) (hpos : (c.get i).pos ≠ -1) (hs : s ∉ (c.get i).seq) :
    Replaces i { c.get i with seq := insert s (c.get i).seq } c (seqAdd i s c) := by
  have hget := get_modify i (fun x ↦ { x with seq := insert s x.seq }) hi
  unfold seqAdd
  dsimp only
  rw [hget]
  refine ⟨cells_modify i _ c hi, ?_, fun t ↦ ?_⟩
  · rw [if_pos hpos, Finset.insert_eq_self.mpr ((h.mem_used hi).mpr hpos)]
    rfl
  · unfold seqPosInc
    dsimp only
    by_cases ht : t = s
    · subst ht
      rw [Function.update_self, held_of_notMem hs, add_zero, held_of_mem (Finset.mem_insert_self t _),
        add_comm, Multiset.singleton_add]
      rfl
    · rw [Function.update_of_ne ht, held, held]
      simp only [Finset.mem_insert, ht, false_or]
      rfl

theorem posSet_replaces (h : Consistent c) (hi : i < c.size) (hpos : (c.get i).pos = -1) {p : ℤ} (hp : 0 ≤ p) :
    Replaces i { c.get i with pos := p } c (posSet i p c) where
  cells := cells_modify i _ c hi
  used := by
    rw [if_pos (show p ≠ -1 by omega)]
    rfl
  seqPos t := by
    have hseq := ((h.get_valid hi).empty hpos).1
    have hnot : t ∉ (c.get i).seq := hseq ▸ Finset.notMem_empty t
    rw [held_of_notMem hnot, held_of_notMem (x := { c.get i with pos := p }) hnot]
    rfl

theorem extSet_replaces (h : Consistent c) (hi : i < c.size) (p : ℤ × ℤ) :
    Replaces i { c.get i with ext := p } c (extSet i p c) where
  cells := cells_modify i _ c hi
  used := (h.unchanged hi).used
  seqPos _ := rfl

/-- A cell whose position moves below zero is given up. -/
def shifted (d : ℤ) (x : Cell) : Cell :=
  if x.pos + d < 0 then { x with seq := ∅, pos := -1, shift := 0 }
  else { x with pos := x.pos + d, shift := x.shift + d }

theorem posAdd_replaces (h : Consistent c) (hi : i < c.size) (hpos : (c.get i).pos ≠ -1) (d : ℤ) :
    Replaces i (shifted d (c.get i)) c (posAdd i d c).2 := by
  have hget := get_modify (c := seqPosRm i c) i (fun x ↦ { x with pos := x.pos + d, shift := x.shift + d }) hi
  have hget' : Cells.get i { (seqPosRm i c).modify i fun x ↦ { x with pos := x.pos + d, shift := x.shift + d } with
      hasShift := true } = { c.get i with pos := (c.get i).pos + d, shift := (c.get i).shift + d } := hget
  have hrm := seqPosRm_seqPos h hi
  unfold posAdd shifted
  dsimp only
  rw [hget']
  by_cases hneg : (c.get i).pos + d < 0
  · simp only [if_pos hneg]
    refine ⟨?_, rfl, fun t ↦ ?_⟩
    · dsimp only [modify]
      rw [List.modify_modify_eq]
      exact cells_modify i _ (seqPosRm i c) hi
    · rw [held_of_notMem (x := { c.get i with seq := ∅, pos := -1, shift := 0 }) (Finset.notMem_empty t), add_zero]
      exact hrm t
  · simp only [if_neg hneg]
    refine ⟨cells_modify i _ (seqPosRm i c) hi, ?_, fun t ↦ ?_⟩
    · rw [if_pos (show (c.get i).pos + d ≠ -1 by omega), Finset.insert_eq_self.mpr ((h.mem_used hi).mpr hpos)]
      rfl
    · rw [seqPosAdd_seqPos, hget', add_right_comm]
      exact congrArg (· + _) (hrm t)

def divided (d : ℤ) (x : Cell) : Cell := { x with pos := x.pos.tdiv d, shift := x.shift + (x.pos - x.pos.tdiv d) }

theorem posDiv_replaces (h : Consistent c) (hi : i < c.size) {d : ℤ} (hpos : (c.get i).pos ≠ -1)
    (hdiv : (c.get i).pos.tdiv d ≠ -1) : Replaces i (divided d (c.get i)) c (posDiv i d c) := by
  have hrm := seqPosRm_seqPos h hi
  unfold posDiv divided
  dsimp only
  rw [modify_modify]
  have hget := get_modify (c := seqPosRm i c) i (fun x ↦ { x with
    pos := x.pos.tdiv d
    shift := x.shift + ((c.get i).pos - x.pos.tdiv d) }) hi
  refine ⟨cells_modify i _ (seqPosRm i c) hi, ?_, fun t ↦ ?_⟩
  · rw [if_pos hdiv, Finset.insert_eq_self.mpr ((h.mem_used hi).mpr hpos)]
    rfl
  · dsimp only
    rw [seqPosAdd_seqPos, hget, add_right_comm]
    exact congrArg (· + _) (hrm t)

theorem setUsed_eq (h : Consistent c) (hi : i < c.size) (other : Cell) :
    setUsed i other c = { c with used := if other.pos ≠ -1 then insert i c.used else c.used.erase i } := by
  have hused := (h.unchanged hi).used
  have hget : ∀ used, Cells.get i { c with used } = c.get i := fun _ ↦ rfl
  unfold setUsed
  by_cases hpos : (c.get i).pos = -1 <;> by_cases hother : other.pos = -1
  · rw [if_neg (not_not.mpr hpos)] at hused
    simp only [hpos, hother, ne_eq, not_true, and_false, false_and, if_false, ← hused]
  · simp only [hpos, hother, hget, ne_eq, not_true, not_false_eq_true, and_true, false_and, if_true, if_false]
  · simp only [hpos, hother, ne_eq, not_true, not_false_eq_true, and_true, and_false, if_true, if_false]
  · rw [if_pos hpos] at hused
    simp only [hpos, hother, ne_eq, not_false_eq_true, and_false, false_and, if_true, if_false, ← hused]

/-- A cell takes what another one holds, but keeps its shift. -/
theorem setOne_replaces (h : Consistent c) (hi : i < c.size) (other : Cell) (hother : other.pos = -1 → other.seq = ∅) :
    Replaces i { other with shift := (c.get i).shift } c (setOne i other c) := by
  obtain ⟨used, hused⟩ : ∃ used, used = if other.pos ≠ -1 then insert i c.used else c.used.erase i := ⟨_, rfl⟩
  obtain ⟨c₁, hc₁⟩ : ∃ c₁, c₁ = if (Cells.get i { c with used }).pos ≠ -1 then seqPosRm i { c with used } else
    { c with used } := ⟨_, rfl⟩
  have hcells : c₁.cells = c.cells := by
    rw [hc₁]
    split <;> rfl
  have hseq : ∀ t, c₁.seqPos t + held t (c.get i) = c.seqPos t := by
    intro t
    rw [hc₁]
    split
    · exact seqPosRm_seqPos h hi t
    · rename_i hpos
      have hnot : t ∉ (c.get i).seq := ((h.get_valid hi).empty (not_not.mp hpos)).1 ▸ Finset.notMem_empty t
      rw [held_of_notMem hnot, add_zero]
  have hused₁ : c₁.used = used := by
    rw [hc₁]
    split <;> rfl
  have hi₁ : i < c₁.size := by rwa [size, hcells]
  have hget₁ : c₁.get i = c.get i := by rw [get, hcells, get]
  have hget := get_modify (c := c₁) i (fun x ↦ { x with pos := other.pos, ext := other.ext, seq := other.seq }) hi₁
  rw [hget₁] at hget
  have hset : setOne i other c =
      if other.pos ≠ -1 then
        seqPosAdd i (c₁.modify i fun x ↦ { x with pos := other.pos, ext := other.ext, seq := other.seq })
      else c₁.modify i fun x ↦ { x with pos := other.pos, ext := other.ext, seq := other.seq } := by
    unfold setOne
    dsimp only
    rw [setUsed_eq h hi, ← hused, ← hc₁, hget]
  have hmodify := cells_modify i (fun x ↦ { x with pos := other.pos, ext := other.ext, seq := other.seq }) c₁ hi₁
  rw [hget₁, hcells] at hmodify
  rw [hset]
  split
  · refine ⟨hmodify, ?_, fun t ↦ ?_⟩
    · rw [← hused]
      exact hused₁
    · rw [seqPosAdd_seqPos, hget, add_right_comm]
      exact congrArg (· + _) (hseq t)
  · rename_i hpos
    refine ⟨hmodify, ?_, fun t ↦ ?_⟩
    · rw [← hused]
      exact hused₁
    · have hnot : t ∉ other.seq := hother (not_not.mp hpos) ▸ Finset.notMem_empty t
      rw [held_of_notMem (x := { other with shift := (c.get i).shift }) hnot, add_zero]
      exact hseq t

/-! What the counters say -/

/-- What is read from the counters is what a scan of the cells finds. -/
structure Scanned (c : Cells) : Prop where
  used : c.getUsed = c.cells.countP fun x ↦ x.pos ≠ -1
  usedMaxP1 : ∀ i, c.usedMaxP1 ≤ i → i < c.size → c.isEmpty i
  seqPosMax : ∀ s, (∀ x ∈ c.cells, s ∈ x.seq → x.pos ≤ c.seqPosMax s) ∧
    (c.seqPosMax s ≠ -1 → ∃ x ∈ c.cells, s ∈ x.seq ∧ x.pos = c.seqPosMax s)
  seqPosMin : ∀ s, (∀ x ∈ c.cells, s ∈ x.seq → c.seqPosMin s ≤ x.pos) ∧
    (c.seqPosMin s ≠ -1 → ∃ x ∈ c.cells, s ∈ x.seq ∧ x.pos = c.seqPosMin s)

theorem getLast?_getD {α : Type} [LinearOrder α] {l : List α} (h : l.Pairwise (· ≤ ·)) (d : α) :
    (∀ a ∈ l, a ≤ l.getLast?.getD d) ∧ (l = [] ∨ l.getLast?.getD d ∈ l) := by
  induction l using List.reverseRecOn with
  | nil => exact ⟨fun a ha ↦ absurd ha List.not_mem_nil, .inl rfl⟩
  | append_singleton l b _ =>
    rw [List.getLast?_concat, Option.getD_some]
    refine ⟨fun a ha ↦ ?_, .inr (List.mem_append_right _ (List.mem_singleton_self b))⟩
    rcases List.mem_append.mp ha with ha | ha
    · exact (List.pairwise_append.mp h).2.2 a ha b (List.mem_singleton_self b)
    · exact (List.mem_singleton.mp ha).le

theorem head?_getD {α : Type} [LinearOrder α] {l : List α} (h : l.Pairwise (· ≤ ·)) (d : α) :
    (∀ a ∈ l, l.head?.getD d ≤ a) ∧ (l = [] ∨ l.head?.getD d ∈ l) := by
  cases l with
  | nil => exact ⟨fun a ha ↦ absurd ha List.not_mem_nil, .inl rfl⟩
  | cons b l =>
    refine ⟨fun a ha ↦ ?_, .inr List.mem_cons_self⟩
    rcases List.mem_cons.mp ha with rfl | ha
    · exact le_rfl
    · exact List.rel_of_pairwise_cons h ha

theorem Consistent.mem_seqPos (h : Consistent c) {p : ℤ} : p ∈ c.seqPos s ↔ ∃ x ∈ c.cells, s ∈ x.seq ∧ x.pos = p := by
  rw [h.seqPos, mem_tally]
  refine exists_congr fun x ↦ and_congr_right fun _ ↦ ?_
  unfold held
  split
  · rename_i hs
    rw [Multiset.mem_singleton, and_iff_right hs, eq_comm]
  · rename_i hs
    exact iff_of_false (Multiset.notMem_zero p) fun hx ↦ hs hx.1

theorem Consistent.mem_sort (h : Consistent c) {p : ℤ} :
    p ∈ (c.seqPos s).sort ↔ ∃ x ∈ c.cells, s ∈ x.seq ∧ x.pos = p := by
  rw [Multiset.mem_sort, h.mem_seqPos]

theorem Consistent.scanned (h : Consistent c) : Scanned c where
  used := by
    rw [getUsed, h.used, card_marked]
  usedMaxP1 i hle hi := by
    refine decide_eq_true (not_not.mp fun hpos ↦ ?_)
    have hmem : i ∈ c.used.sort := (Finset.mem_sort (· ≤ ·)).mpr ((h.mem_used hi).mpr hpos)
    have hlast := getLast?_getD (Finset.pairwise_sort c.used (· ≤ ·)) 0
    unfold usedMaxP1 at hle
    cases hsort : c.used.sort.getLast? with
    | none =>
      rw [List.getLast?_eq_none_iff] at hsort
      rw [hsort] at hmem
      exact absurd hmem List.not_mem_nil
    | some m =>
      have him := hlast.1 i hmem
      rw [hsort] at him hle
      exact absurd (Nat.lt_of_succ_le hle) (not_lt.mpr him)
  seqPosMax s := by
    have hlast := getLast?_getD (Multiset.pairwise_sort (c.seqPos s) (· ≤ ·)) (-1)
    refine ⟨fun x hx hs ↦ hlast.1 _ (h.mem_sort.mpr ⟨x, hx, hs, rfl⟩), fun hne ↦ ?_⟩
    rcases hlast.2 with hnil | hmem
    · rw [seqPosMax, hnil] at hne
      exact absurd rfl hne
    · exact h.mem_sort.mp hmem
  seqPosMin s := by
    have hhead := head?_getD (Multiset.pairwise_sort (c.seqPos s) (· ≤ ·)) (-1)
    refine ⟨fun x hx hs ↦ hhead.1 _ (h.mem_sort.mpr ⟨x, hx, hs, rfl⟩), fun hne ↦ ?_⟩
    rcases hhead.2 with hnil | hmem
    · rw [seqPosMin, hnil] at hne
      exact absurd rfl hne
    · exact h.mem_sort.mp hmem

end Cells

end Aigentik.Llama
