import Aigentik.Llama.KvCells
import Aigentik.Effects.StepRuns

/-! The cache of a context with one stream: its operations on sequences, and the slots of batches. -/

namespace Aigentik.Llama

open Collections Cells Effects

/-- A `llama_swa_type`. -/
inductive SwaType
  | none
  | standard
  | chunked
  | symmetric
deriving DecidableEq

def isMaskedSwa (nSwa : ℕ) (swaType : SwaType) (p0 p1 : ℤ) : Bool :=
  match swaType with
  | .none => false
  | .standard => p1 - p0 ≥ nSwa
  | .chunked => p0 < p1 / nSwa * nSwa
  | .symmetric => p1 - p0 < -(nSwa / 2 : ℕ) || p1 - p0 > (nSwa / 2 : ℕ)

structure KvCache where
  cells : Cells
  head : ℕ

namespace KvCache

def create (size : ℕ) : KvCache := ⟨.resize size, 0⟩

def clear (k : KvCache) : KvCache := ⟨k.cells.reset, 0⟩

/-! Operations on sequences -/

def lower (p0 : ℤ) : ℤ := if p0 < 0 then 0 else p0

def upper (p1 : ℤ) : ℤ := if p1 < 0 then 2147483647 else p1

/-- A loop over the cells that tells which of them it frees, with the first freed cell, or the size. -/
def freeing (op : ℕ → Cells → Bool × Cells) (c : Cells) : Cells × ℕ :=
  (List.range c.size).foldl (fun s i ↦
    ((op i s.1).2, if (op i s.1).1 && s.2 = c.size then i else s.2)) (c, c.size)

/-- A search starts at the first freed cell if it is before the head. -/
def withHead (k : KvCache) (s : Cells × ℕ) : KvCache :=
  ⟨s.1, if s.2 ≠ k.cells.size ∧ s.2 < k.head then s.2 else k.head⟩

def seqRmCell (s : SeqId) (p0 p1 : ℤ) (i : ℕ) (c : Cells) : Bool × Cells :=
  if c.posIn i p0 p1 then
    if c.seqHas i s then c.seqRm i s else (false, c)
  else (false, c)

def rmCell (p0 p1 : ℤ) (i : ℕ) (c : Cells) : Bool × Cells :=
  if c.posIn i p0 p1 then (true, c.rm i) else (false, c)

/-- Without a sequence the cells of all sequences are removed. -/
def seqRm (s : Option SeqId) (p0 p1 : ℤ) (k : KvCache) : KvCache :=
  match s with
  | some s => k.withHead (freeing (seqRmCell s (lower p0) (upper p1)) k.cells)
  | none => k.withHead (freeing (rmCell (lower p0) (upper p1)) k.cells)

def seqCpCell (src dst : SeqId) (p0 p1 : ℤ) (i : ℕ) (c : Cells) : Cells :=
  if c.posIn i p0 p1 then
    if c.seqHas i src then c.seqAdd i dst else c
  else c

def seqCp (src dst : SeqId) (p0 p1 : ℤ) (k : KvCache) : KvCache :=
  if src = dst then k
  else
    let cells := (List.range k.cells.size).foldl (fun c i ↦ seqCpCell src dst (lower p0) (upper p1) i c) k.cells
    { k with cells }

def seqKeep (s : SeqId) (k : KvCache) : KvCache := k.withHead (freeing (fun i c ↦ c.seqKeep i s) k.cells)

def seqAddCell (s : SeqId) (p0 p1 shift : ℤ) (i : ℕ) (c : Cells) : Bool × Cells :=
  if c.posIn i p0 p1 then
    if c.seqHas i s then c.posAdd i shift else (false, c)
  else (false, c)

/-- Here the head moves to the first freed cell, or to the start. -/
def seqAdd (s : SeqId) (p0 p1 shift : ℤ) (k : KvCache) : KvCache :=
  if shift = 0 then k
  else if lower p0 = upper p1 then k
  else
    let r := freeing (seqAddCell s (lower p0) (upper p1) shift) k.cells
    ⟨r.1, if r.2 ≠ k.cells.size then r.2 else 0⟩

def seqDivCell (s : SeqId) (p0 p1 d : ℤ) (i : ℕ) (c : Cells) : Cells :=
  if c.posIn i p0 p1 then
    if c.seqHas i s then c.posDiv i d else c
  else c

def seqDiv (s : SeqId) (p0 p1 d : ℤ) (k : KvCache) : KvCache :=
  if d = 1 then k
  else if lower p0 = upper p1 then k
  else
    let cells := (List.range k.cells.size).foldl (fun c i ↦ seqDivCell s (lower p0) (upper p1) d i c) k.cells
    { k with cells }

/-! Slots -/

structure UToken where
  pos : ℤ
  seqId : List SeqId
  ext : Option (ℤ × ℤ)

structure Swa where
  nSwa : ℕ
  swaType : SwaType

variable (w : Swa)

/-- The sequence of a cell with one sequence. -/
def seqGet (i : ℕ) (c : Cells) : Option SeqId := (c.get i).seq.sort.head?

/-- An empty cell, or one whose only sequence has it masked. -/
def canUse (i : ℕ) (c : Cells) : Bool :=
  c.isEmpty i || ((c.get i).seq.card = 1 &&
    (seqGet i c).any fun s ↦ isMaskedSwa w.nSwa w.swaType (c.get i).pos (c.seqPosMax s + 1))

/-- The search for `n` cells from the head on, which starts over at the end of the cells. -/
def search (c : Cells) (hsize : 0 < c.size) (n headCur nTested : ℕ) (idxs : List ℕ) : Option (List ℕ) :=
  if headCur + 1 > c.size then search c hsize n 0 (nTested + (c.size - headCur)) idxs
  else
    let found := if canUse w headCur c then idxs ++ [headCur] else idxs
    if found.length = n then some found
    else if nTested + 1 ≥ c.size then none
    else search c hsize n (headCur + 1) (nTested + 1) found
termination_by 2 * (c.size - nTested) + if c.size ≤ headCur then 1 else 0
decreasing_by
  · rw [if_neg (by omega), if_pos (by omega)]
    omega
  · split <;> split <;> omega

/-- Batches are not empty, so that no slot is searched in a cache without cells. -/
def findSlot (nTokens : ℕ) (k : KvCache) : Option (List ℕ) :=
  let headCur := if k.head > k.cells.getUsed + 2 * nTokens then 0 else k.head
  if nTokens > k.cells.size then none
  else if h : 0 < k.cells.size then search w k.cells h nTokens headCur 0 [] else none

/-- What the loop of `apply_ubatch` does with one token. The positions it overwrites are noted. -/
def place (s : Cells × (SeqId → ℤ)) (idx : ℕ) (t : UToken) : Cells × (SeqId → ℤ) :=
  let s := if s.1.isEmpty idx then s
    else (s.1.rm idx, match seqGet idx s.1 with
      | some q => Function.update s.2 q (max (s.2 q) (s.1.get idx).pos)
      | none => s.2)
  let c := s.1.posSet idx t.pos
  let c := match t.ext with
    | some ext => c.extSet idx ext
    | none => c
  (t.seqId.foldl (fun c q ↦ c.seqAdd idx q) c, s.2)

/-- What comes before an overwritten position of a sequence is removed from it. -/
def purgeSeq (seqPosMaxRm : SeqId → ℤ) (k : KvCache) (s : SeqId) : KvCache :=
  if seqPosMaxRm s = -1 then k
  else if k.cells.seqPosMin s ≤ seqPosMaxRm s then seqRm s (k.cells.seqPosMin s) (seqPosMaxRm s + 1) k
  else k

def purge (seqPosMaxRm : SeqId → ℤ) (k : KvCache) : KvCache := (List.finRange 256).foldl (purgeSeq seqPosMaxRm) k

def applyUbatch (idxs : List ℕ) (ubatch : List UToken) (k : KvCache) : KvCache :=
  let s := (idxs.zip ubatch).foldl (fun s t ↦ place s t.1 t.2) (k.cells, fun _ ↦ -1)
  let k := purge s.2 { k with cells := s.1 }
  { k with head := (idxs.getLast?.map (· + 1)).getD 0 }

/-! What the loops over the cells do -/

variable {c : Cells} {k : KvCache} {s src dst : SeqId} {p0 p1 d shift : ℤ} {x : Cell}

theorem freeing_spec (op : ℕ → Cells → Bool × Cells) (g : Cell → Cell) (h : Consistent c)
    (hop : ∀ i c, Consistent c → i < c.size → Replaces i (g (c.get i)) c (op i c).2) (hg : ∀ x, Valid x → Valid (g x)) :
    (Consistent (freeing op c).1 ∧ (freeing op c).1.size = c.size ∧ (freeing op c).2 ≤ c.size) ∧
      (freeing op c).1.cells = c.cells.map g := by
  refine foldl_range_map (fun r : Cells × ℕ ↦ r.1.cells)
    (fun r ↦ Consistent r.1 ∧ r.1.size = c.size ∧ r.2 ≤ c.size) g (s := (c, c.size)) ⟨h, rfl, le_rfl⟩ ?_
  rintro i ⟨c', n⟩ ⟨hc', hsize, hn⟩ hi -
  have hr := hop i c' hc' hi
  have hcells : (op i c').2.cells = c'.cells.modify i g := hr.cells.trans (cells_modify i g c' hi).symm
  refine ⟨⟨hc'.replaces hr hi (hg _ (hc'.get_valid hi)), ?_, ?_⟩, hcells⟩
  · exact (congrArg List.length hr.cells).trans (List.length_set.trans hsize)
  · dsimp only
    split
    · exact (hi.trans_eq hsize).le
    · exact hn

theorem sweep_spec (op : ℕ → Cells → Cells) (g : Cell → Cell) (P : Cell → Prop) (h : Consistent c)
    (hP : ∀ x ∈ c.cells, P x)
    (hop : ∀ i c, Consistent c → i < c.size → P (c.get i) → Replaces i (g (c.get i)) c (op i c))
    (hg : ∀ x, Valid x → P x → Valid (g x)) :
    Consistent ((List.range c.size).foldl (fun c i ↦ op i c) c) ∧
      ((List.range c.size).foldl (fun c i ↦ op i c) c).cells = c.cells.map g := by
  refine foldl_range_map Cells.cells Consistent g h ?_
  intro i c' hc' hi hkept
  have hPi : P (c'.get i) := by
    rw [getElem?_eq hi] at hkept
    exact hP _ (List.mem_of_getElem? hkept.symm)
  have hr := hop i c' hc' hi hPi
  exact ⟨hc'.replaces hr hi (hg _ (hc'.get_valid hi) hPi), hr.cells.trans (cells_modify i g c' hi).symm⟩

/-- The cells of a sequence in a range of positions. -/
def inRange (s : SeqId) (p0 p1 : ℤ) (x : Cell) : Prop := (p0 ≤ x.pos ∧ x.pos < p1) ∧ s ∈ x.seq

instance : Decidable (inRange s p0 p1 x) := inferInstanceAs (Decidable (_ ∧ _))

theorem ite_inRange {α : Type} (i : ℕ) (c : Cells) (a b : α) :
    (if c.posIn i p0 p1 then if c.seqHas i s then a else b else b) = if inRange s p0 p1 (c.get i) then a else b := by
  unfold posIn seqHas inRange
  by_cases hpos : p0 ≤ (c.get i).pos ∧ (c.get i).pos < p1 <;> by_cases hs : s ∈ (c.get i).seq <;> simp [hpos, hs]

theorem valid_without (h : Valid x) (s : SeqId) : Valid (without s x) := by
  unfold without
  split
  · exact valid_empty
  · refine ⟨h.pos, fun hpos ↦ ⟨?_, (h.empty hpos).2⟩⟩
    dsimp only
    rw [(h.empty hpos).1]
    rfl

theorem valid_only (h : Valid x) (s : SeqId) : Valid (only s x) := by
  unfold only
  split
  · rename_i hs
    refine ⟨h.pos, fun hpos ↦ ?_⟩
    rw [(h.empty hpos).1] at hs
    exact absurd hs (Finset.notMem_empty s)
  · split
    · exact valid_empty
    · exact h

theorem valid_shifted (x : Cell) (d : ℤ) : Valid (shifted d x) := by
  unfold shifted
  split
  · exact ⟨le_rfl, fun _ ↦ ⟨rfl, rfl⟩⟩
  · rename_i hpos
    refine ⟨?_, fun hneg ↦ ?_⟩
    · dsimp only
      omega
    · dsimp only at hneg
      omega

/-- What removing a sequence does to a cell. -/
def removed (s : SeqId) (p0 p1 : ℤ) (x : Cell) : Cell := if inRange s p0 p1 x then without s x else x

theorem valid_removed (h : Valid x) : Valid (removed s p0 p1 x) := by
  unfold removed
  split
  · exact valid_without h s
  · exact h

theorem seqRmCell_replaces {i : ℕ} (h : Consistent c) (hi : i < c.size) :
    Replaces i (removed s p0 p1 (c.get i)) c (seqRmCell s p0 p1 i c).2 := by
  unfold seqRmCell removed
  rw [ite_inRange]
  split
  · rename_i hrange
    exact (seqRm_replaces h hi hrange.2).1
  · exact h.unchanged hi

/-- The cells agree with what is kept beside them, and the head is one of them or their end. -/
structure Inv (k : KvCache) : Prop where
  cells : Consistent k.cells
  head : k.head ≤ k.cells.size

theorem withHead_inv {r : Cells × ℕ} (h : k.Inv) (hr : Consistent r.1) (hsize : r.1.size = k.cells.size) :
    (k.withHead r).Inv := by
  refine ⟨hr, ?_⟩
  have hhead := h.head
  unfold withHead
  dsimp only
  rw [hsize]
  split
  · rename_i hlt
    exact hlt.2.le.trans hhead
  · exact hhead

theorem seqRm_some_spec (p0 p1 : ℤ) (h : k.Inv) : (k.seqRm (some s) p0 p1).Inv ∧
    (k.seqRm (some s) p0 p1).cells.cells = k.cells.cells.map (removed s (lower p0) (upper p1)) := by
  obtain ⟨⟨hr, hsize, -⟩, hcells⟩ := freeing_spec (seqRmCell s (lower p0) (upper p1)) _ h.cells
    (fun i c hc hi ↦ seqRmCell_replaces hc hi) fun x hx ↦ valid_removed hx
  exact ⟨withHead_inv h hr hsize, hcells⟩

theorem inv_create (size : ℕ) : (create size).Inv := ⟨consistent_resize size, Nat.zero_le _⟩

theorem clear_inv (k : KvCache) : k.clear.Inv := by
  refine ⟨?_, Nat.zero_le _⟩
  have hreset : k.cells.reset = .resize k.cells.size := by
    rw [reset, resize, List.map_const']
    rfl
  rw [clear, hreset]
  exact consistent_resize _

/-- What removing a range of positions does to a cell. -/
def cleared (p0 p1 : ℤ) (x : Cell) : Cell := if p0 ≤ x.pos ∧ x.pos < p1 then .empty else x

theorem valid_cleared (h : Valid x) : Valid (cleared p0 p1 x) := by
  unfold cleared
  split
  · exact valid_empty
  · exact h

theorem rmCell_replaces {i : ℕ} (h : Consistent c) (hi : i < c.size) :
    Replaces i (cleared p0 p1 (c.get i)) c (rmCell p0 p1 i c).2 := by
  unfold rmCell cleared posIn
  simp only [Bool.and_eq_true, decide_eq_true_eq]
  split
  · exact rm_replaces h hi
  · exact h.unchanged hi

theorem seqRm_none_spec (h : k.Inv) : (k.seqRm none p0 p1).Inv ∧
    (k.seqRm none p0 p1).cells.cells = k.cells.cells.map (cleared (lower p0) (upper p1)) := by
  obtain ⟨⟨hr, hsize, -⟩, hcells⟩ := freeing_spec (rmCell (lower p0) (upper p1)) _ h.cells
    (fun i c hc hi ↦ rmCell_replaces hc hi) fun x hx ↦ valid_cleared hx
  exact ⟨withHead_inv h hr hsize, hcells⟩

theorem seqKeep_spec (h : k.Inv) : (k.seqKeep s).Inv ∧ (k.seqKeep s).cells.cells = k.cells.cells.map (only s) := by
  obtain ⟨⟨hr, hsize, -⟩, hcells⟩ := freeing_spec (fun i c ↦ c.seqKeep i s) (only s) h.cells
    (fun i c hc hi ↦ seqKeep_replaces hc hi s) fun x hx ↦ valid_only hx s
  exact ⟨withHead_inv h hr hsize, hcells⟩

/-- What moving a sequence does to a cell. -/
def moved (s : SeqId) (p0 p1 shift : ℤ) (x : Cell) : Cell := if inRange s p0 p1 x then shifted shift x else x

theorem valid_moved (h : Valid x) : Valid (moved s p0 p1 shift x) := by
  unfold moved
  split
  · exact valid_shifted x shift
  · exact h

theorem seqAddCell_replaces {i : ℕ} (h : Consistent c) (hi : i < c.size) :
    Replaces i (moved s p0 p1 shift (c.get i)) c (seqAddCell s p0 p1 shift i c).2 := by
  unfold seqAddCell moved
  rw [ite_inRange]
  split
  · rename_i hrange
    exact posAdd_replaces h hi (h.pos_ne hi hrange.2) shift
  · exact h.unchanged hi

theorem seqAdd_spec (h : k.Inv) (hshift : shift ≠ 0) (hrange : lower p0 ≠ upper p1) : (k.seqAdd s p0 p1 shift).Inv ∧
    (k.seqAdd s p0 p1 shift).cells.cells = k.cells.cells.map (moved s (lower p0) (upper p1) shift) := by
  obtain ⟨⟨hr, hsize, hhead⟩, hcells⟩ := freeing_spec (seqAddCell s (lower p0) (upper p1) shift) _ h.cells
    (fun i c hc hi ↦ seqAddCell_replaces hc hi) fun x hx ↦ valid_moved hx
  unfold seqAdd
  rw [if_neg hshift, if_neg hrange]
  refine ⟨⟨hr, ?_⟩, hcells⟩
  dsimp only
  rw [hsize]
  split
  · exact hhead
  · exact Nat.zero_le _

/-- What copying a sequence does to a cell. -/
def joined (src dst : SeqId) (p0 p1 : ℤ) (x : Cell) : Cell :=
  if inRange src p0 p1 x then { x with seq := insert dst x.seq } else x

theorem valid_joined (h : Valid x) : Valid (joined src dst p0 p1 x) := by
  unfold joined
  split
  · rename_i hrange
    refine ⟨h.pos, fun hpos ↦ ?_⟩
    have hsrc := hrange.2
    rw [(h.empty hpos).1] at hsrc
    exact absurd hsrc (Finset.notMem_empty src)
  · exact h

theorem seqCpCell_replaces {i : ℕ} (h : Consistent c) (hi : i < c.size)
    (hdst : inRange src p0 p1 (c.get i) → dst ∉ (c.get i).seq) :
    Replaces i (joined src dst p0 p1 (c.get i)) c (seqCpCell src dst p0 p1 i c) := by
  unfold seqCpCell joined
  rw [ite_inRange]
  split
  · rename_i hrange
    exact seqAdd_replaces h hi (h.pos_ne hi hrange.2) (hdst hrange)
  · exact h.unchanged hi

theorem sweep_inv (h : k.Inv) {c : Cells} {g : Cell → Cell} (hc : Consistent c)
    (hcells : c.cells = k.cells.cells.map g) :
    Inv { k with cells := c } := by
  refine ⟨hc, h.head.trans_eq ?_⟩
  rw [size, size, hcells, List.length_map]

/-- A sequence is copied to one that none of its cells in the range belongs to yet. -/
def Fresh (src dst : SeqId) (p0 p1 : ℤ) (c : Cells) : Prop := ∀ x ∈ c.cells, inRange src p0 p1 x → dst ∉ x.seq

theorem seqCp_spec (h : k.Inv) (hne : src ≠ dst) (hfresh : Fresh src dst (lower p0) (upper p1) k.cells) :
    (k.seqCp src dst p0 p1).Inv ∧
      (k.seqCp src dst p0 p1).cells.cells = k.cells.cells.map (joined src dst (lower p0) (upper p1)) := by
  obtain ⟨hr, hcells⟩ := sweep_spec (seqCpCell src dst (lower p0) (upper p1)) _
    (fun x ↦ inRange src (lower p0) (upper p1) x → dst ∉ x.seq) h.cells hfresh
    (fun i c hc hi hdst ↦ seqCpCell_replaces hc hi hdst) fun x hx _ ↦ valid_joined hx
  unfold seqCp
  rw [if_neg hne]
  exact ⟨sweep_inv h hr hcells, hcells⟩

theorem lower_nonneg (p0 : ℤ) : 0 ≤ lower p0 := by
  unfold lower
  split <;> omega

/-- What dividing the positions of a sequence does to a cell. -/
def scaled (s : SeqId) (p0 p1 d : ℤ) (x : Cell) : Cell := if inRange s p0 p1 x then divided d x else x

theorem tdiv_nonneg (hp0 : 0 ≤ p0) (hd : 1 < d) (hrange : inRange s p0 p1 x) : 0 ≤ x.pos.tdiv d :=
  Int.tdiv_nonneg (hp0.trans hrange.1.1) (by omega)

theorem valid_scaled (hp0 : 0 ≤ p0) (hd : 1 < d) (h : Valid x) : Valid (scaled s p0 p1 d x) := by
  unfold scaled
  split
  · rename_i hrange
    have hpos := tdiv_nonneg hp0 hd hrange
    refine ⟨?_, fun hneg ↦ ?_⟩
    · dsimp only [divided]
      omega
    · dsimp only [divided] at hneg
      omega
  · exact h

theorem seqDivCell_replaces {i : ℕ} (hp0 : 0 ≤ p0) (hd : 1 < d) (h : Consistent c) (hi : i < c.size) :
    Replaces i (scaled s p0 p1 d (c.get i)) c (seqDivCell s p0 p1 d i c) := by
  unfold seqDivCell scaled
  rw [ite_inRange]
  split
  · rename_i hrange
    have hpos := tdiv_nonneg hp0 hd hrange
    exact posDiv_replaces h hi (h.pos_ne hi hrange.2) (by omega)
  · exact h.unchanged hi

theorem seqDiv_spec (h : k.Inv) (hd : 1 < d) (hrange : lower p0 ≠ upper p1) : (k.seqDiv s p0 p1 d).Inv ∧
    (k.seqDiv s p0 p1 d).cells.cells = k.cells.cells.map (scaled s (lower p0) (upper p1) d) := by
  have hp0 := lower_nonneg p0
  obtain ⟨hr, hcells⟩ := sweep_spec (seqDivCell s (lower p0) (upper p1) d) _ (fun _ ↦ True) h.cells
    (fun _ _ ↦ trivial) (fun i c hc hi _ ↦ seqDivCell_replaces hp0 hd hc hi) fun x hx _ ↦ valid_scaled hp0 hd hx
  unfold seqDiv
  rw [if_neg hd.ne', if_neg hrange]
  exact ⟨sweep_inv h hr hcells, hcells⟩

/-! The search for a slot -/

variable {w : Swa} {n head tested : ℕ} {idxs : List ℕ}

/-- The cells of a run of indices that can be used. -/
def usable (w : Swa) (c : Cells) (order : List ℕ) : List ℕ := order.filter fun i ↦ canUse w i c

/-- The first cells that can be used, if there are enough of them. -/
def firstUsable (w : Swa) (c : Cells) (n : ℕ) (idxs order : List ℕ) : Option (List ℕ) :=
  if n ≤ idxs.length + (usable w c order).length then some ((idxs ++ usable w c order).take n) else none

theorem firstUsable_found {found : List ℕ} (hlen : found.length = n) (order : List ℕ) :
    firstUsable w c n found order = some found := by
  rw [firstUsable, if_pos (by omega), List.take_append_of_le_length (by omega), List.take_of_length_le hlen.le]

theorem firstUsable_nil (hn : idxs.length < n) : firstUsable w c n idxs [] = none :=
  if_neg (not_le.mpr hn)

theorem firstUsable_cons (i : ℕ) (order : List ℕ) : firstUsable w c n idxs (i :: order) =
    firstUsable w c n (if canUse w i c then idxs ++ [i] else idxs) order := by
  unfold firstUsable usable
  by_cases hi : canUse w i c
  · rw [List.filter_cons_of_pos (by simpa using hi), if_pos hi, List.length_cons, List.length_append,
      List.length_singleton, List.append_assoc, List.singleton_append, Nat.add_assoc, Nat.add_comm 1]
  · rw [List.filter_cons_of_neg (by simpa using hi), if_neg hi]

theorem found_length (hn : idxs.length < n) (i : ℕ) :
    (if canUse w i c then idxs ++ [i] else idxs).length ≤ n := by
  split
  · rw [List.length_append, List.length_singleton]
    exact hn
  · exact hn.le

/-- After the end of the cells the search goes on from the start to where it began. -/
theorem search_wrapped (hsize : 0 < c.size) {stop : ℕ} (hstop : stop ≤ c.size) (hlt : head < stop)
    (htested : tested + (stop - head) = c.size) (hn : idxs.length < n) :
    search w c hsize n head tested idxs = firstUsable w c n idxs (List.range' head (stop - head)) := by
  induction hm : stop - head generalizing head tested idxs with
  | zero => omega
  | succ m ih =>
    have hle := found_length (w := w) (c := c) hn head
    rw [search, if_neg (by omega), List.range'_succ, firstUsable_cons]
    dsimp only
    generalize (if canUse w head c then idxs ++ [head] else idxs) = found at hle ⊢
    by_cases hfound : found.length = n
    · rw [if_pos hfound, firstUsable_found hfound]
    · have hlt' := lt_of_le_of_ne hle hfound
      rw [if_neg hfound]
      split
      · obtain rfl : m = 0 := by omega
        exact (firstUsable_nil hlt').symm
      · exact ih (by omega) (by omega) hlt' (by omega)

/-- The order in which the cells are tested. -/
def order (size head : ℕ) : List ℕ := List.range' head (size - head) ++ List.range' 0 head

theorem search_eq (hsize : 0 < c.size) {start : ℕ} (hstart : start ≤ c.size) (hle : start ≤ head)
    (hhead : head ≤ c.size) (htested : tested = head - start) (hn : idxs.length < n) (hleft : tested < c.size) :
    search w c hsize n head tested idxs =
      firstUsable w c n idxs (List.range' head (c.size - head) ++ List.range' 0 start) := by
  induction hm : c.size - head generalizing head tested idxs with
  | zero =>
    rw [search, if_pos (by omega), List.range'_zero, List.nil_append,
      search_wrapped hsize hstart (by omega) (by omega) hn, Nat.sub_zero]
  | succ m ih =>
    have hle' := found_length (w := w) (c := c) hn head
    rw [search, if_neg (by omega), List.range'_succ, List.cons_append, firstUsable_cons]
    dsimp only
    generalize (if canUse w head c then idxs ++ [head] else idxs) = found at hle' ⊢
    by_cases hfound : found.length = n
    · rw [if_pos hfound, firstUsable_found hfound]
    · have hlt' := lt_of_le_of_ne hle' hfound
      rw [if_neg hfound]
      split
      · obtain rfl : m = 0 := by omega
        obtain rfl : start = 0 := by omega
        exact (firstUsable_nil hlt').symm
      · exact ih (by omega) (by omega) (by omega) hlt' (by omega) (by omega)

theorem order_perm {size start : ℕ} (h : start ≤ size) : (order size start).Perm (List.range size) := by
  have happend :
      List.range' 0 start ++ List.range' (0 + start) (size - start) = List.range' 0 (start + (size - start)) :=
    List.range'_append_1
  rw [Nat.zero_add, Nat.add_sub_cancel' h] at happend
  rw [order, List.range_eq_range', ← happend]
  exact List.perm_append_comm

/-- A slot is the first cells that can be used, in the order of the search. -/
theorem findSlot_eq (h : k.Inv) (hn : 0 < n) : ∃ start ≤ k.cells.size,
    findSlot w n k = firstUsable w k.cells n [] (order k.cells.size start) := by
  have hhead := h.head
  obtain ⟨start, hstart⟩ : ∃ start, start = if k.head > k.cells.getUsed + 2 * n then 0 else k.head := ⟨_, rfl⟩
  have hle : start ≤ k.cells.size := by
    rw [hstart]
    split <;> omega
  refine ⟨start, hle, ?_⟩
  unfold findSlot
  dsimp only
  rw [← hstart]
  split
  · rename_i hlarge
    refine (if_neg ?_).symm
    have hlen := List.length_filter_le (fun i ↦ canUse w i k.cells) (order k.cells.size start)
    rw [(order_perm hle).length_eq, List.length_range] at hlen
    rw [List.length_nil, usable]
    omega
  · rename_i hlarge
    rw [dif_pos (by omega)]
    exact search_eq _ hle le_rfl hle (Nat.sub_self _).symm hn (by omega)

/-- How many cells can be used. -/
def room (w : Swa) (c : Cells) : ℕ := (usable w c (List.range c.size)).length

/-- A slot has room for the batch in different cells that can be used, and is found whenever there are enough. -/
theorem findSlot_spec (h : k.Inv) (hn : 0 < n) : ((findSlot w n k).isSome ↔ n ≤ room w k.cells) ∧
    ∀ idxs, findSlot w n k = some idxs →
      idxs.length = n ∧ idxs.Nodup ∧ ∀ i ∈ idxs, i < k.cells.size ∧ canUse w i k.cells := by
  obtain ⟨start, hle, heq⟩ := findSlot_eq (w := w) h hn
  have hperm := (order_perm hle).filter fun i ↦ canUse w i k.cells
  have hroom : (usable w k.cells (order k.cells.size start)).length = room w k.cells := hperm.length_eq
  rw [heq, firstUsable, List.length_nil, Nat.zero_add, List.nil_append, hroom]
  split
  · rename_i hfits
    refine ⟨iff_of_true rfl hfits, ?_⟩
    rintro idxs ⟨⟩
    refine ⟨?_, ?_, fun i hi ↦ ?_⟩
    · rw [List.length_take, hroom, Nat.min_eq_left hfits]
    · exact (hperm.nodup_iff.mpr (List.nodup_range.filter _)).sublist (List.take_sublist _ _)
    · have hmem := hperm.mem_iff.mp (List.mem_of_mem_take hi)
      rw [List.mem_filter, List.mem_range] at hmem
      exact hmem
  · rename_i hfits
    exact ⟨iff_of_false Bool.false_ne_true hfits, fun idxs hidxs ↦ by cases hidxs⟩

/-! Placing a batch -/

/-- A token that a batch may hold. -/
structure UToken.Wf (t : UToken) : Prop where
  pos : 0 ≤ t.pos
  seqId : t.seqId.Nodup

/-- The cell that a token is placed in. -/
def placed (t : UToken) (x : Cell) : Cell :=
  { (if x.pos = -1 then x else .empty) with
    pos := t.pos
    seq := t.seqId.toFinset
    ext := t.ext.getD (if x.pos = -1 then x.ext else (0, 0)) }

theorem seqAdds_spec {i : ℕ} (seqId : List SeqId) (h : Consistent c) (hi : i < c.size) (hpos : (c.get i).pos ≠ -1)
    (hnodup : seqId.Nodup) (hdisjoint : ∀ q ∈ seqId, q ∉ (c.get i).seq) :
    Consistent (seqId.foldl (fun c q ↦ c.seqAdd i q) c) ∧ (seqId.foldl (fun c q ↦ c.seqAdd i q) c).cells =
      c.cells.set i { c.get i with seq := seqId.toFinset ∪ (c.get i).seq } := by
  induction seqId generalizing c with
  | nil =>
    refine ⟨h, ?_⟩
    rw [List.toFinset_nil, Finset.empty_union]
    exact (h.unchanged hi).cells
  | cons q seqId ih =>
    obtain ⟨hq, hnodup⟩ := List.nodup_cons.mp hnodup
    obtain ⟨hnot, hdisjoint⟩ := List.forall_mem_cons.mp hdisjoint
    have hr := seqAdd_replaces h hi hpos hnot
    have hvalid : Valid { c.get i with seq := insert q (c.get i).seq } :=
      ⟨(h.get_valid hi).pos, fun heq ↦ absurd heq hpos⟩
    have hget : (c.seqAdd i q).get i = { c.get i with seq := insert q (c.get i).seq } := get_set hr.cells hi
    have hi' : i < (c.seqAdd i q).size := by
      rw [size, hr.cells, List.length_set]
      exact hi
    have hdisjoint' : ∀ r ∈ seqId, r ∉ ((c.seqAdd i q).get i).seq := by
      intro r hr'
      rw [hget, Finset.mem_insert, not_or]
      exact ⟨fun heq ↦ hq (heq ▸ hr'), hdisjoint r hr'⟩
    obtain ⟨hconsistent, hcells⟩ := ih (h.replaces hr hi hvalid) hi' (by rw [hget]; exact hpos) hnodup hdisjoint'
    refine ⟨hconsistent, ?_⟩
    rw [List.foldl_cons, hcells, hget, hr.cells, List.set_set, List.toFinset_cons, Finset.union_insert,
      Finset.insert_union]

/-- An empty cell is given a position, then what else the token has. -/
theorem fill_spec {i : ℕ} {t : UToken} (h : Consistent c) (hi : i < c.size) (ht : t.Wf) (hpos : (c.get i).pos = -1) :
    let c₁ := c.posSet i t.pos
    let c₂ := match t.ext with
      | some ext => c₁.extSet i ext
      | none => c₁
    Consistent (t.seqId.foldl (fun c q ↦ c.seqAdd i q) c₂) ∧
      (t.seqId.foldl (fun c q ↦ c.seqAdd i q) c₂).cells = c.cells.set i { c.get i with
        pos := t.pos
        seq := t.seqId.toFinset
        ext := t.ext.getD (c.get i).ext } := by
  intro c₁ c₂
  have hseq := ((h.get_valid hi).empty hpos).1
  have hr₁ := posSet_replaces h hi hpos ht.pos
  have hne : t.pos ≠ -1 := by
    have hnonneg := ht.pos
    omega
  have hvalid : ∀ ext, Valid { c.get i with pos := t.pos, ext } := fun ext ↦
    ⟨by have hnonneg := ht.pos; dsimp only; omega, fun heq ↦ absurd heq hne⟩
  have h₁ : Consistent c₁ := h.replaces hr₁ hi (hvalid _)
  have hi₁ : i < c₁.size := hr₁.size_eq.symm ▸ hi
  have h₂ : Consistent c₂ ∧
      c₂.cells = c.cells.set i { c.get i with pos := t.pos, ext := t.ext.getD (c.get i).ext } := by
    cases hext : t.ext with
    | none =>
      have hc₂ : c₂ = c₁ := by
        dsimp only [c₂]
        rw [hext]
      rw [hc₂]
      exact ⟨h₁, hr₁.cells⟩
    | some ext =>
      have hc₂ : c₂ = c₁.extSet i ext := by
        dsimp only [c₂]
        rw [hext]
      have hr₂ := extSet_replaces h₁ hi₁ ext
      rw [get_set hr₁.cells hi] at hr₂
      rw [hc₂]
      refine ⟨h₁.replaces hr₂ hi₁ (hvalid ext), ?_⟩
      rw [hr₂.cells, hr₁.cells, List.set_set]
      rfl
  obtain ⟨h₂, hcells₂⟩ := h₂
  have hi₂ : i < c₂.size := by
    rw [size, hcells₂, List.length_set]
    exact hi
  have hget₂ := get_set hcells₂ hi
  have hdisjoint : ∀ q ∈ t.seqId, q ∉ (c₂.get i).seq := by
    intro q _
    rw [hget₂]
    exact hseq ▸ Finset.notMem_empty q
  obtain ⟨h₃, hcells₃⟩ := seqAdds_spec t.seqId h₂ hi₂ (by rw [hget₂]; exact hne) ht.seqId hdisjoint
  refine ⟨h₃, ?_⟩
  rw [hcells₃, hget₂, hcells₂, List.set_set]
  dsimp only
  rw [hseq, Finset.union_empty]

theorem place_spec {i : ℕ} {t : UToken} (rmMax : SeqId → ℤ) (h : Consistent c) (hi : i < c.size) (ht : t.Wf) :
    Consistent (place (c, rmMax) i t).1 ∧
      (place (c, rmMax) i t).1.cells = c.cells.set i (placed t (c.get i)) := by
  by_cases hpos : (c.get i).pos = -1
  · have hfill := fill_spec h hi ht hpos
    unfold place placed isEmpty
    simp only [hpos, decide_true, if_true]
    exact hfill
  · have hr := rm_replaces h hi
    have hi' : i < (c.rm i).size := hr.size_eq.symm ▸ hi
    have hget := get_set hr.cells hi
    have hfill := fill_spec (h.replaces hr hi valid_empty) hi' ht (by rw [hget]; rfl)
    rw [hget, hr.cells, List.set_set] at hfill
    unfold place placed isEmpty
    simp only [hpos, decide_false, Bool.false_eq_true, if_false]
    exact hfill

theorem places_spec {ps : List (ℕ × UToken)} (rmMax : SeqId → ℤ) (h : Consistent c)
    (hps : ∀ t ∈ ps, t.1 < c.size ∧ t.2.Wf) :
    Consistent (ps.foldl (fun s t ↦ place s t.1 t.2) (c, rmMax)).1 ∧
      (ps.foldl (fun s t ↦ place s t.1 t.2) (c, rmMax)).1.size = c.size := by
  induction ps generalizing c rmMax with
  | nil => exact ⟨h, rfl⟩
  | cons t ps ih =>
    obtain ⟨⟨hi, ht⟩, hps⟩ := List.forall_mem_cons.mp hps
    obtain ⟨hconsistent, hcells⟩ := place_spec rmMax h hi ht
    have hsize : (place (c, rmMax) t.1 t.2).1.size = c.size := by
      rw [size, hcells, List.length_set]
      rfl
    obtain ⟨hrest, hrestsize⟩ := ih (place (c, rmMax) t.1 t.2).2 hconsistent
      fun t' ht' ↦ ⟨hsize ▸ (hps t' ht').1, (hps t' ht').2⟩
    exact ⟨hrest, hrestsize.trans hsize⟩

theorem purgeSeq_spec (h : k.Inv) (rmMax : SeqId → ℤ) (s : SeqId) :
    (purgeSeq rmMax k s).Inv ∧ (purgeSeq rmMax k s).cells.size = k.cells.size := by
  unfold purgeSeq
  split
  · exact ⟨h, rfl⟩
  · split
    · obtain ⟨hinv, hcells⟩ := seqRm_some_spec (s := s) (k.cells.seqPosMin s) (rmMax s + 1) h
      refine ⟨hinv, ?_⟩
      rw [size, hcells, List.length_map]
      rfl
    · exact ⟨h, rfl⟩

theorem purge_spec (h : k.Inv) (rmMax : SeqId → ℤ) :
    (purge rmMax k).Inv ∧ (purge rmMax k).cells.size = k.cells.size := by
  unfold purge
  generalize List.finRange 256 = l
  induction l generalizing k with
  | nil => exact ⟨h, rfl⟩
  | cons s l ih =>
    obtain ⟨hinv, hsize⟩ := purgeSeq_spec h rmMax s
    obtain ⟨hrest, hrestsize⟩ := ih hinv
    exact ⟨hrest, hrestsize.trans hsize⟩

theorem applyUbatch_inv (h : k.Inv) {ubatch : List UToken} (hidxs : ∀ i ∈ idxs, i < k.cells.size)
    (hubatch : ∀ t ∈ ubatch, t.Wf) : (applyUbatch idxs ubatch k).Inv := by
  obtain ⟨hplaces, hsize⟩ := places_spec (fun _ ↦ -1) h.cells
    fun t ht ↦ ⟨hidxs _ (List.of_mem_zip ht).1, hubatch _ (List.of_mem_zip ht).2⟩
  obtain ⟨hpurge, hpurgesize⟩ := purge_spec (k := ⟨_, k.head⟩) ⟨hplaces, h.head.trans_eq hsize.symm⟩
    ((idxs.zip ubatch).foldl (fun s t ↦ place s t.1 t.2) (k.cells, fun _ ↦ -1)).2
  refine ⟨hpurge.cells, ?_⟩
  unfold applyUbatch
  dsimp only at hpurgesize ⊢
  rw [hpurgesize, hsize]
  cases hlast : idxs.getLast? with
  | none => exact Nat.zero_le _
  | some i => exact hidxs i (List.mem_of_getLast? hlast)

/-! Runs -/

inductive Op
  | clear
  | seqRm (s : Option SeqId) (p0 p1 : ℤ)
  | seqCp (src dst : SeqId) (p0 p1 : ℤ)
  | seqKeep (s : SeqId)
  | seqAdd (s : SeqId) (p0 p1 shift : ℤ)
  | seqDiv (s : SeqId) (p0 p1 d : ℤ)
  | ubatch (ubatch : List UToken)
  | resetShift

/-- A batch is placed where a slot is found for it. -/
def apply (w : Swa) : Op → KvCache → KvCache
  | .clear, k => k.clear
  | .seqRm s p0 p1, k => k.seqRm s p0 p1
  | .seqCp src dst p0 p1, k => k.seqCp src dst p0 p1
  | .seqKeep s, k => k.seqKeep s
  | .seqAdd s p0 p1 shift, k => k.seqAdd s p0 p1 shift
  | .seqDiv s p0 p1 d, k => k.seqDiv s p0 p1 d
  | .ubatch ubatch, k =>
    match findSlot w ubatch.length k with
    | some idxs => applyUbatch idxs ubatch k
    | none => k
  | .resetShift, k => { k with cells := k.cells.resetShift }

/-- What the callers have to keep: a sequence is copied only to one that the copied cells do not belong to yet, and
positions are divided by more than one. -/
def Allowed (k : KvCache) : Op → Prop
  | .seqCp src dst p0 p1 => src = dst ∨ Fresh src dst (lower p0) (upper p1) k.cells
  | .seqDiv _ _ _ d => 1 ≤ d
  | .ubatch ubatch => ubatch ≠ [] ∧ ∀ t ∈ ubatch, t.Wf
  | _ => True

def Step (w : Swa) (k : KvCache) (op : Op) (k' : KvCache) : Prop := Allowed k op ∧ k' = apply w op k

theorem resetShift_consistent (h : Consistent c) : Consistent c.resetShift where
  used := by
    rw [resetShift, marked_map]
    exact h.used
  seqPos s := by
    rw [resetShift, tally_map]
    exact h.seqPos s
  valid x hx := by
    obtain ⟨y, hy, rfl⟩ := List.mem_map.mp hx
    exact ⟨(h.valid y hy).pos, fun hpos ↦ ⟨((h.valid y hy).empty hpos).1, rfl⟩⟩

theorem Inv.step {op : Op} {k' : KvCache} (h : k.Inv) (hstep : Step w k op k') : k'.Inv := by
  obtain ⟨hallowed, rfl⟩ := hstep
  cases op with
  | clear => exact clear_inv k
  | seqRm s p0 p1 =>
    cases s with
    | none => exact (seqRm_none_spec h).1
    | some s => exact (seqRm_some_spec p0 p1 h).1
  | seqCp src dst p0 p1 =>
    dsimp only [apply]
    by_cases hsame : src = dst
    · rwa [seqCp, if_pos hsame]
    · exact (seqCp_spec h hsame (hallowed.resolve_left hsame)).1
  | seqKeep s => exact (seqKeep_spec h).1
  | seqAdd s p0 p1 shift =>
    dsimp only [apply]
    by_cases hzero : shift = 0
    · rwa [seqAdd, if_pos hzero]
    · by_cases hrange : lower p0 = upper p1
      · rwa [seqAdd, if_neg hzero, if_pos hrange]
      · exact (seqAdd_spec h hzero hrange).1
  | seqDiv s p0 p1 d =>
    dsimp only [apply]
    by_cases hone : d = 1
    · rwa [seqDiv, if_pos hone]
    · by_cases hrange : lower p0 = upper p1
      · rwa [seqDiv, if_neg hone, if_pos hrange]
      · exact (seqDiv_spec h (lt_of_le_of_ne hallowed (Ne.symm hone)) hrange).1
  | ubatch ubatch =>
    obtain ⟨hne, hwf⟩ := hallowed
    dsimp only [apply]
    cases hslot : findSlot w ubatch.length k with
    | none => exact h
    | some idxs =>
      obtain ⟨-, -, hidxs⟩ := (findSlot_spec h (List.length_pos_iff.mpr hne)).2 idxs hslot
      exact applyUbatch_inv h (fun i hi ↦ (hidxs i hi).1) hwf
  | resetShift =>
    refine ⟨resetShift_consistent h.cells, h.head.trans_eq ?_⟩
    exact (List.length_map _).symm

end KvCache

end Aigentik.Llama
