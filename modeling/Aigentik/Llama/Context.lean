import Aigentik.Llama.KvPrepare
import Aigentik.Llama.AttentionMask
import Mathlib

/-! Decoding with a context: the tokens whose keys and values its cache holds. -/

namespace Aigentik.Llama.Context

open Collections Cells KvCache AttentionMask Effects

/-- A `ggml_status`. -/
inductive Status
  | success
  | aborted
  | allocFailed
  | failed
deriving DecidableEq

/-- A row has the token whose keys and values were last computed into it, if they are known. -/
structure Memory (Token : Type) where
  cache : KvCache
  rows : ℕ → Option Token

structure Params where
  nCtx : ℕ
  nBatch : ℕ
  nUbatch : ℕ

def pad (x n : ℕ) : ℕ := (x + n - 1) / n * n

/-- The parameters of the context that `loadModel` asks for, with one sequence and causal attention. -/
def Params.create (contextSize nCtxTrain : ℕ) : Params :=
  let nCtx := if contextSize = 0 then nCtxTrain else contextSize
  let nBatch := min nCtx contextSize
  ⟨pad nCtx 256, nBatch, min nBatch 512⟩

variable {Token : Type}

/-- The cells of the cache are as many as tokens fit in the context. -/
def create (p : Params) : Memory Token := ⟨.create p.nCtx, fun _ ↦ none⟩

/-- What is left open here: whether the outputs can be reserved, and how the computations end. -/
structure Backend where
  reserved : Bool
  status : ℕ → Status

/-- The tokens of a batch without positions follow those of their sequence, which is the first one. -/
def positions (p0 : ℤ) (tokens : List Token) : List (UToken × Token) :=
  tokens.mapIdx fun i token ↦ (⟨p0 + i, [seqId0], none⟩, token)

def init (valid : Token → Bool) (tokens : List Token) (m : Memory Token) : Option (List (UToken × Token)) :=
  if tokens.all valid then some (positions (m.cache.cells.seqPosMax seqId0 + 1) tokens) else none

/-- A batch of at least one token is taken at a time. -/
def splitSimple {α : Type} (nUbatch : ℕ) : List α → List (List α)
  | [] => []
  | t :: batch => (t :: batch).take (max 1 nUbatch) :: splitSimple nUbatch ((t :: batch).drop (max 1 nUbatch))
termination_by batch => batch.length
decreasing_by
  rw [List.length_drop, List.length_cons]
  omega

/-- Pending shifts are applied to the rows, which stay those of their tokens. -/
def memoryUpdate (m : Memory Token) : Memory Token :=
  if m.cache.cells.hasShift then { m with cache := { m.cache with cells := m.cache.cells.resetShift } } else m

def write (idxs : List ℕ) (values : List (Option Token)) (rows : ℕ → Option Token) : ℕ → Option Token :=
  (idxs.zip values).foldl (fun rows r ↦ Function.update rows r.1 r.2) rows

/-- What is done after a failed batch. -/
def removePositions (ubatch : List UToken) (k : KvCache) : KvCache :=
  (List.finRange 256).foldl (fun k s ↦
    if seqPosMin ubatch s = 2147483647 then k else seqRm (some s) (seqPosMin ubatch s) (-1) k) k

def Status.code : Status → ℤ
  | .success => 0
  | .aborted => 2
  | .allocFailed => -2
  | .failed => -3

/-- The loop over the batches. What a failed computation leaves in its rows is not known. -/
def processUbatches (b : Backend) : ℕ → List (List ℕ × List (UToken × Token)) → Memory Token → ℤ × Memory Token
  | _, [], m => (0, m)
  | i, (idxs, ubatch) :: rest, m =>
    let cache := applyUbatch idxs (ubatch.map Prod.fst) m.cache
    match b.status i with
    | .success => processUbatches b (i + 1) rest ⟨cache, write idxs (ubatch.map fun t ↦ some t.2) m.rows⟩
    | status =>
      (status.code, ⟨removePositions (ubatch.map Prod.fst) cache, write idxs (ubatch.map fun _ ↦ none) m.rows⟩)

/-- There is no result if the assertion on the size of the batch ends the process. After a failed search there are no
shifts left, so that there is no second one. -/
def decode (p : Params) (w : Swa) (valid : Token → Bool) (b : Backend) (tokens : List Token) (m : Memory Token) :
    Option (ℤ × Memory Token) :=
  if tokens.isEmpty then some (-1, m)
  else match init valid tokens m with
    | none => some (-1, m)
    | some batch =>
      if batch.length > p.nBatch then none
      else
        let m := memoryUpdate m
        let ubatches := splitSimple p.nUbatch batch
        let prepared := prepare w (ubatches.map (·.map Prod.fst)) m.cache
        let m := { m with cache := prepared.2 }
        match prepared.1 with
        | none => some (1, m)
        | some slots =>
          if !b.reserved then some (-2, m) else some (processUbatches b 0 (slots.zip ubatches) m)

/-! What the rows of the cells in use hold -/

/-- The cells of sequence 0, by position, and what is known of the rows. No other cell is in use. -/
structure Holds (nCells : ℕ) (m : Memory Token) (kv : List (Option Token)) (loc : List ℕ) : Prop where
  inv : m.cache.Inv
  size : m.cache.cells.size = nCells
  hasShift : m.cache.cells.hasShift = false
  nodup : loc.Nodup
  length : loc.length = kv.length
  held : ∀ p i : ℕ, loc[p]? = some i → i < m.cache.cells.size ∧ (m.cache.cells.get i).pos = p ∧
    (m.cache.cells.get i).seq = {seqId0} ∧ kv[p]? = some (m.rows i)
  others : ∀ i < m.cache.cells.size, i ∉ loc → m.cache.cells.isEmpty i

variable {m : Memory Token} {kv values : List (Option Token)} {loc idxs : List ℕ} {us : List UToken} {w : Swa}
  {p : Params} {i nCells : ℕ}

theorem holds_create (p : Params) : Holds p.nCtx (create p : Memory Token) [] [] where
  inv := inv_create p.nCtx
  size := List.length_replicate
  hasShift := rfl
  nodup := List.nodup_nil
  length := rfl
  held _ _ hp := by cases hp
  others i hi _ := by
    have hget : (create p : Memory Token).cache.cells.get i = .empty := by
      have hi' : i < p.nCtx := hi.trans_eq List.length_replicate
      change (List.replicate p.nCtx Cell.empty).getD i .empty = .empty
      rw [List.getD_eq_getElem?_getD, List.getElem?_replicate_of_lt hi']
      rfl
    rw [isEmpty, hget]
    rfl

theorem Holds.pos_ne (h : Holds nCells m kv loc) (hi : i ∈ loc) :
    i < m.cache.cells.size ∧ (m.cache.cells.get i).pos ≠ -1 := by
  obtain ⟨p, hp⟩ := List.mem_iff_getElem?.mp hi
  obtain ⟨hlt, hpos, -⟩ := h.held p i hp
  refine ⟨hlt, ?_⟩
  omega

theorem Holds.mem_used (h : Holds nCells m kv loc) : i ∈ m.cache.cells.used ↔ i ∈ loc := by
  rw [mem_used_iff h.inv.cells]
  constructor
  · rintro ⟨hi, hpos⟩
    by_contra hnot
    exact hpos (of_decide_eq_true (h.others i hi hnot))
  · exact h.pos_ne

theorem Holds.getUsed (h : Holds nCells m kv loc) : m.cache.cells.getUsed = kv.length := by
  have hused : m.cache.cells.used = loc.toFinset := Finset.ext fun i ↦ h.mem_used.trans List.mem_toFinset.symm
  rw [Cells.getUsed, hused, List.toFinset_card_of_nodup h.nodup, h.length]

theorem Holds.of_seq (h : Holds nCells m kv loc) (hi : i < m.cache.cells.size) (hs : seqId0 ∈ (m.cache.cells.get i).seq) :
    ∃ p : ℕ, loc[p]? = some i ∧ p < kv.length ∧ (m.cache.cells.get i).pos = p := by
  have hmem : i ∈ loc := by
    by_contra hnot
    have hempty := of_decide_eq_true (h.others i hi hnot)
    rw [((h.inv.cells.get_valid hi).empty hempty).1] at hs
    exact Finset.notMem_empty 0 hs
  obtain ⟨p, hp⟩ := List.mem_iff_getElem?.mp hmem
  exact ⟨p, hp, h.length ▸ (List.getElem?_eq_some_iff.mp hp).1, (h.held p i hp).2.1⟩

/-- The last position counts what is held. -/
theorem Holds.seqPosMax (h : Holds nCells m kv loc) : m.cache.cells.seqPosMax seqId0 + 1 = kv.length := by
  obtain ⟨hupper, hattained⟩ := h.inv.cells.scanned.seqPosMax seqId0
  have hlt : -1 ≤ m.cache.cells.seqPosMax seqId0 ∧ m.cache.cells.seqPosMax seqId0 < kv.length := by
    by_cases hnone : m.cache.cells.seqPosMax seqId0 = -1
    · omega
    · obtain ⟨x, hx, hs, hpos⟩ := hattained hnone
      obtain ⟨i, hi⟩ := List.mem_iff_getElem?.mp hx
      have hisize : i < m.cache.cells.size := (List.getElem?_eq_some_iff.mp hi).1
      have hget : m.cache.cells.get i = x := Option.some.inj ((getElem?_eq hisize).symm.trans hi)
      obtain ⟨p, -, hp, heq⟩ := h.of_seq hisize (hget ▸ hs)
      rw [hget] at heq
      omega
  rcases Nat.eq_zero_or_pos kv.length with hzero | hpos
  · omega
  · obtain ⟨i, hi⟩ : ∃ i, loc[kv.length - 1]? = some i := by
      refine ⟨_, List.getElem?_eq_getElem ?_⟩
      rw [h.length]
      omega
    obtain ⟨hisize, hpos, hseq, -⟩ := h.held _ i hi
    have hle := hupper _ (List.mem_of_getElem? (getElem?_eq hisize)) (hseq ▸ Finset.mem_singleton_self 0)
    omega

/-! Placing a batch -/

theorem write_other {rows : ℕ → Option Token} {j : ℕ} (hj : j ∉ idxs) : write idxs values rows j = rows j := by
  unfold write
  induction idxs generalizing values rows with
  | nil => rfl
  | cons i idxs ih =>
    rw [List.mem_cons, not_or] at hj
    cases values with
    | nil => rfl
    | cons v values =>
      rw [List.zip_cons_cons, List.foldl_cons, ih hj.2, Function.update_of_ne hj.1]

theorem write_self (rows : ℕ → Option Token) {j n : ℕ} (hnodup : idxs.Nodup) (hlen : idxs.length = values.length)
    (hj : idxs[n]? = some j) : values[n]? = some (write idxs values rows j) := by
  induction idxs generalizing values rows n with
  | nil => cases hj
  | cons i idxs ih =>
    rw [List.nodup_cons] at hnodup
    cases values with
    | nil => cases hlen
    | cons v values =>
      have hlen' : idxs.length = values.length := Nat.succ.inj hlen
      have hcons : write (i :: idxs) (v :: values) rows = write idxs values (Function.update rows i v) := rfl
      rw [hcons]
      cases n with
      | zero =>
        obtain rfl : i = j := Option.some.inj hj
        rw [write_other hnodup.1, Function.update_self]
        rfl
      | succ n => exact ih _ hnodup.2 hlen' hj

/-- Tokens of the first sequence at consecutive positions. -/
def Follows (p0 : ℤ) (us : List UToken) : Prop := ∀ (i : ℕ) (t : UToken), us[i]? = some t → t = ⟨p0 + i, [seqId0], none⟩

theorem Follows.wf {p0 : ℤ} (hp0 : 0 ≤ p0) (h : Follows p0 us) : ∀ t ∈ us, t.Wf := by
  intro t ht
  obtain ⟨i, hi⟩ := List.mem_iff_getElem?.mp ht
  rw [h i t hi]
  exact ⟨add_nonneg hp0 (Int.natCast_nonneg i), List.nodup_singleton 0⟩

theorem Holds.notMem_of_slot (h : Holds nCells m kv loc) (hslot : Slot idxs m.cache.cells) (hi : i ∈ loc) : i ∉ idxs :=
  fun hmem ↦ (h.pos_ne hi).2 (of_decide_eq_true (hslot.empty i hmem).2)

/-- A placed batch comes after what is held. -/
theorem Holds.place (h : Holds nCells m kv loc) (hslot : Slot idxs m.cache.cells) (hlen : idxs.length = us.length)
    (hvalues : idxs.length = values.length) (hus : Follows kv.length us) :
    Holds nCells ⟨applyUbatch idxs us m.cache, write idxs values m.rows⟩ (kv ++ values) (loc ++ idxs) := by
  have hwf := hus.wf (Int.natCast_nonneg _)
  have hplaced := applyUbatch_placed h.inv hslot hlen hwf
  have hfst : (idxs.zip us).map Prod.fst = idxs := List.map_fst_zip hlen.le
  constructor
  · exact applyUbatch_inv h.inv (fun i hi ↦ (hslot.empty i hi).1) hwf
  · exact hplaced.size.trans h.size
  · exact hplaced.hasShift.trans h.hasShift
  · exact List.nodup_append'.mpr ⟨h.nodup, hslot.nodup, fun i hi hi' ↦ h.notMem_of_slot hslot hi hi'⟩
  · rw [List.length_append, List.length_append, h.length, hvalues]
  · intro p i hp
    dsimp only
    rw [hplaced.size]
    rcases lt_or_ge p loc.length with hlt | hge
    · rw [List.getElem?_append_left hlt] at hp
      have hnot := h.notMem_of_slot hslot (List.mem_of_getElem? hp)
      rw [hplaced.others i (hfst.symm ▸ hnot), write_other hnot, List.getElem?_append_left (h.length ▸ hlt)]
      exact h.held p i hp
    · rw [List.getElem?_append_right hge] at hp
      have hmem := List.mem_of_getElem? hp
      have hvalue := write_self m.rows hslot.nodup hvalues hp
      obtain ⟨t, ht⟩ : ∃ t, us[p - loc.length]? = some t :=
        ⟨_, List.getElem?_eq_getElem (hlen ▸ (List.getElem?_eq_some_iff.mp hp).1)⟩
      have hzip : (i, t) ∈ idxs.zip us := List.mem_of_getElem? (List.getElem?_zip_eq_some.mpr ⟨hp, ht⟩)
      rw [hplaced.cells _ hzip, List.getElem?_append_right (h.length ▸ hge), ← h.length]
      obtain rfl := hus _ _ ht
      refine ⟨(hslot.empty i hmem).1, ?_, rfl, hvalue⟩
      dsimp only
      have hlength := h.length
      omega
  · intro i hi hnot
    rw [List.mem_append, not_or] at hnot
    rw [isEmpty, hplaced.others i (hfst.symm ▸ hnot.2)]
    exact h.others i (hplaced.size ▸ hi) hnot.1

/-! Taking a batch back -/

theorem foldl_keep {σ α β : Type} (f : σ → β) (op : σ → α → σ) (l : List α) (hop : ∀ s x, f (op s x) = f s) (s : σ) :
    f (l.foldl op s) = f s := by
  induction l generalizing s with
  | nil => rfl
  | cons x l ih => exact (ih (op s x)).trans (hop s x)

theorem seqRm_hasShift (s : SeqId) (p0 p1 : ℤ) (k : KvCache) :
    (k.seqRm (some s) p0 p1).cells.hasShift = k.cells.hasShift := by
  refine foldl_keep (fun r : Cells × ℕ ↦ r.1.hasShift) _ _ (fun r i ↦ ?_) (k.cells, k.cells.size)
  dsimp only
  unfold seqRmCell Cells.seqRm
  dsimp only
  split
  · split
    · split <;> rfl
    · rfl
  · rfl

theorem get_map {c c' : Cells} {g : Cell → Cell} (hcells : c'.cells = c.cells.map g) (hi : i < c.size) :
    c'.get i = g (c.get i) := by
  rw [Cells.get, hcells, List.getD_eq_getElem?_getD, List.getElem?_map, getElem?_eq hi]
  rfl

/-- Removing the positions from some one on leaves what comes before it. -/
theorem Holds.truncate (h : Holds nCells m kv loc) (n : ℕ) (hlen : kv.length ≤ 2147483647) :
    Holds nCells { m with cache := m.cache.seqRm (some seqId0) n (-1) } (kv.take n) (loc.take n) := by
  obtain ⟨hinv, hcells⟩ := seqRm_some_spec (s := seqId0) n (-1) h.inv
  have hlower : lower n = n := if_neg (by omega)
  have hupper : upper (-1) = 2147483647 := rfl
  rw [hlower, hupper] at hcells
  have hsize : (m.cache.seqRm (some seqId0) n (-1)).cells.size = m.cache.cells.size := by
    rw [Cells.size, hcells, List.length_map]
    rfl
  constructor
  · exact hinv
  · exact hsize.trans h.size
  · exact (seqRm_hasShift ..).trans h.hasShift
  · exact h.nodup.sublist (List.take_sublist _ _)
  · rw [List.length_take, List.length_take, h.length]
  · intro p i hp
    have hpn : p < n := by
      have hlt := (List.getElem?_eq_some_iff.mp hp).1
      rw [List.length_take] at hlt
      omega
    rw [List.getElem?_take_of_lt hpn] at hp
    obtain ⟨hi, hpos, hseq, hrow⟩ := h.held p i hp
    have hkept : removed seqId0 n 2147483647 (m.cache.cells.get i) = m.cache.cells.get i :=
      if_neg fun hrange ↦ absurd hrange.1.1 (by omega)
    dsimp only
    rw [hsize, get_map hcells hi, hkept, List.getElem?_take_of_lt hpn]
    exact ⟨hi, hpos, hseq, hrow⟩
  · intro i hi hnot
    dsimp only at hi ⊢
    rw [hsize] at hi
    rw [isEmpty, get_map hcells hi]
    by_cases hmem : i ∈ loc
    · obtain ⟨p, hp⟩ := List.mem_iff_getElem?.mp hmem
      obtain ⟨-, hpos, hseq, -⟩ := h.held p i hp
      have hlt := (List.getElem?_eq_some_iff.mp hp).1
      have hge : n ≤ p := by
        by_contra hlt
        exact hnot (List.mem_of_getElem? ((List.getElem?_take_of_lt (not_le.mp hlt)).trans hp))
      have hlength := h.length
      have hrange : inRange seqId0 n 2147483647 (m.cache.cells.get i) :=
        ⟨⟨by omega, by omega⟩, hseq ▸ Finset.mem_singleton_self 0⟩
      have hgone : removed seqId0 n 2147483647 (m.cache.cells.get i) = .empty := by
        rw [removed, if_pos hrange, without, hseq, if_pos (Finset.erase_singleton 0)]
      rw [hgone]
      rfl
    · have hempty := h.others i hi hmem
      have hkept : removed seqId0 n 2147483647 (m.cache.cells.get i) = m.cache.cells.get i :=
        if_neg fun hrange ↦ absurd (of_decide_eq_true hempty) (by have hpos := hrange.1.1; omega)
      rw [hkept]
      exact hempty

theorem Follows.seqPosMin_zero {p0 : ℤ} (h : Follows p0 us) (hne : us ≠ []) (hp0 : p0 ≤ 2147483647) :
    AttentionMask.seqPosMin us seqId0 = p0 := by
  have hge : p0 ≤ AttentionMask.seqPosMin us seqId0 := by
    refine le_seqPosMin hp0 fun t ht ↦ ?_
    obtain ⟨i, hi⟩ := List.mem_iff_getElem?.mp ht
    rw [h i t hi]
    exact le_add_of_nonneg_right (Int.natCast_nonneg i)
  obtain ⟨t, ht⟩ : ∃ t, us[0]? = some t := ⟨_, List.getElem?_eq_getElem (List.length_pos_iff.mpr hne)⟩
  have heq := h 0 t ht
  have hle : AttentionMask.seqPosMin us seqId0 ≤ t.pos := seqPosMin_le (List.mem_of_getElem? ht) (heq ▸ rfl)
  rw [heq, Nat.cast_zero, add_zero] at hle
  exact le_antisymm hle hge

theorem Follows.seqPosMin_of_ne {p0 : ℤ} {s : SeqId} (h : Follows p0 us) (hs : s ≠ 0) :
    AttentionMask.seqPosMin us s = 2147483647 := by
  refine AttentionMask.seqPosMin_of_ne fun t ht heq ↦ ?_
  obtain ⟨i, hi⟩ := List.mem_iff_getElem?.mp ht
  rw [h i t hi] at heq
  exact hs heq.symm

theorem Follows.removePositions_eq {p0 : ℤ} (h : Follows p0 us) (hne : us ≠ []) (hp0 : p0 < 2147483647) (k : KvCache) :
    removePositions us k = k.seqRm (some seqId0) p0 (-1) := by
  have hothers : ∀ (l : List SeqId), (∀ s ∈ l, s ≠ 0) → ∀ k : KvCache, l.foldl (fun k s ↦
      if AttentionMask.seqPosMin us s = 2147483647 then k
      else KvCache.seqRm (some s) (AttentionMask.seqPosMin us s) (-1) k) k = k := by
    intro l hl k
    induction l with
    | nil => rfl
    | cons s l ih =>
      obtain ⟨hs, hl⟩ := List.forall_mem_cons.mp hl
      rw [List.foldl_cons, if_pos (h.seqPosMin_of_ne hs)]
      exact ih hl
  have hzero := h.seqPosMin_zero hne hp0.le
  unfold removePositions
  rw [List.finRange_succ, List.foldl_cons, hothers, if_neg, hzero]
  · rw [hzero]
    exact hp0.ne
  · intro s hs
    obtain ⟨i, -, rfl⟩ := List.mem_map.mp hs
    exact Fin.succ_ne_zero i

/-- A batch that is placed and removed again leaves what was held before it. -/
theorem Holds.takenBack (h : Holds nCells m kv loc) (hslot : Slot idxs m.cache.cells) (hlen : idxs.length = us.length)
    (hvalues : idxs.length = values.length) (hus : Follows kv.length us) (hne : us ≠ [])
    (hbound : kv.length + us.length ≤ 2147483647) :
    Holds nCells ⟨removePositions us (applyUbatch idxs us m.cache), write idxs values m.rows⟩ kv loc := by
  have hpos := List.length_pos_iff.mpr hne
  have hplaced := h.place hslot hlen hvalues hus
  have htruncated := hplaced.truncate kv.length (by rw [List.length_append]; omega)
  rw [List.take_left, ← h.length, List.take_left, h.length] at htruncated
  rw [hus.removePositions_eq hne (by omega)]
  exact htruncated

/-! A whole decode -/

variable {tokens : List Token} {b : Backend} {valid : Token → Bool} {code : ℤ} {m' : Memory Token}

theorem getElem?_positions (p0 : ℤ) (tokens : List Token) (i : ℕ) :
    (positions p0 tokens)[i]? = tokens[i]?.map fun token ↦ (⟨p0 + i, [seqId0], none⟩, token) := List.getElem?_mapIdx

theorem positions_take (p0 : ℤ) (tokens : List Token) (n : ℕ) :
    (positions p0 tokens).take n = positions p0 (tokens.take n) := by
  refine List.ext_getElem? fun i ↦ ?_
  rw [List.getElem?_take, getElem?_positions, getElem?_positions, List.getElem?_take]
  split <;> rfl

theorem positions_drop (p0 : ℤ) (tokens : List Token) (n : ℕ) :
    (positions p0 tokens).drop n = positions (p0 + n) (tokens.drop n) := by
  refine List.ext_getElem? fun i ↦ ?_
  rw [List.getElem?_drop, getElem?_positions, getElem?_positions, List.getElem?_drop]
  simp only [Nat.cast_add, add_assoc]

theorem follows_positions (p0 : ℤ) (tokens : List Token) : Follows p0 ((positions p0 tokens).map Prod.fst) := by
  intro i t ht
  rw [List.getElem?_map, getElem?_positions, Option.map_map] at ht
  obtain ⟨token, -, rfl⟩ := Option.map_eq_some_iff.mp ht
  rfl

theorem positions_snd (p0 : ℤ) (tokens : List Token) :
    (positions p0 tokens).map (fun t ↦ some t.2) = tokens.map some := by
  refine List.ext_getElem? fun i ↦ ?_
  rw [List.getElem?_map, getElem?_positions, List.getElem?_map, Option.map_map]
  rfl

theorem length_positions (p0 : ℤ) (tokens : List Token) : (positions p0 tokens).length = tokens.length :=
  List.length_mapIdx

theorem splitSimple_of_ne {α : Type} {batch : List α} (n : ℕ) (hne : batch ≠ []) :
    splitSimple n batch = batch.take (max 1 n) :: splitSimple n (batch.drop (max 1 n)) := by
  obtain ⟨t, batch, rfl⟩ := List.exists_cons_of_ne_nil hne
  rw [splitSimple]

/-- How a decode of some tokens ends once it has its slots: with all of them, or with the whole batches before one whose
computation has not succeeded. -/
inductive Ended (b : Backend) (nUbatch length : ℕ) : ℤ → ℕ → Prop
  | all : Ended b nUbatch length 0 length
  | part (i k : ℕ) : b.status i ≠ .success → k < length → max 1 nUbatch ∣ k →
      Ended b nUbatch length (b.status i).code k

theorem Ended.later {n length : ℕ} {code : ℤ} {k : ℕ} (h : Ended b n (length - max 1 n) code k) :
    Ended b n length code (min (max 1 n) length + k) := by
  cases h with
  | all =>
    have hsum : min (max 1 n) length + (length - max 1 n) = length := by omega
    rw [hsum]
    exact .all
  | part i _ hstatus hk hdvd =>
    have hmin : min (max 1 n) length = max 1 n := by omega
    rw [hmin]
    exact .part i _ hstatus (by omega) (Nat.dvd_add (Nat.dvd_refl _) hdvd)

theorem Ended.ne_one {n length : ℕ} {code : ℤ} {k : ℕ} (h : Ended b n length code k) : code ≠ 1 := by
  cases h with
  | all => decide
  | part i _ _ _ _ =>
    generalize b.status i = status
    cases status <;> decide

theorem take_append_take (tokens : List Token) (q k : ℕ) :
    tokens.take q ++ (tokens.drop q).take k = tokens.take (min q tokens.length + k) := by
  rcases le_total q tokens.length with hle | hle
  · rw [Nat.min_eq_left hle, List.take_add]
  · rw [List.drop_of_length_le hle, List.take_nil, List.append_nil, Nat.min_eq_right hle, List.take_of_length_le hle,
      List.take_of_length_le (Nat.le_add_right _ _)]

/-- What is held after each batch is what was held before, and its tokens. A failed batch leaves what the batches
before it left. -/
theorem processUbatches_holds (n j : ℕ) (tokens : List Token) {slots : List (List ℕ)} (h : Holds nCells m kv loc)
    (hlen : kv.length + tokens.length ≤ 2147483647)
    (hslots : Slots slots ((splitSimple n (positions kv.length tokens)).map (·.map Prod.fst)) m.cache.cells) :
    ∃ k, Ended b n tokens.length (processUbatches b j (slots.zip (splitSimple n (positions kv.length tokens))) m).1 k ∧
      ∃ loc', Holds nCells (processUbatches b j (slots.zip (splitSimple n (positions kv.length tokens))) m).2
        (kv ++ (tokens.take k).map some) loc' := by
  induction hlength : tokens.length using Nat.strong_induction_on generalizing tokens slots j m kv loc with
  | _ length ih =>
    subst hlength
    rcases eq_or_ne tokens [] with rfl | hne
    · have hnil : slots.zip (splitSimple n (positions kv.length ([] : List Token))) = [] := by
        rw [positions, List.mapIdx_nil, splitSimple, List.zip_nil_right]
      rw [hnil]
      refine ⟨0, .all, loc, ?_⟩
      rw [List.take_nil, List.map_nil, List.append_nil]
      exact h
    · obtain ⟨q, hq⟩ : ∃ q, q = max 1 n := ⟨_, rfl⟩
      have hpos := List.length_pos_iff.mpr hne
      have hsplit : splitSimple n (positions kv.length tokens) =
          positions kv.length (tokens.take q) :: splitSimple n (positions (kv.length + q) (tokens.drop q)) := by
        have hbatch : positions (kv.length : ℤ) tokens ≠ [] := by
          rw [← List.length_pos_iff, length_positions]
          exact hpos
        rw [splitSimple_of_ne n hbatch, ← hq, positions_take, positions_drop]
      obtain ⟨us, hus⟩ : ∃ us, us = (positions (kv.length : ℤ) (tokens.take q)).map Prod.fst := ⟨_, rfl⟩
      have hfollows : Follows kv.length us := hus ▸ follows_positions _ _
      rw [hsplit] at hslots ⊢
      cases slots with
      | nil => cases hslots.lengths
      | cons idxs slots =>
        rw [List.map_cons, ← hus] at hslots
        obtain ⟨⟨hslot, hidxs⟩, hrest⟩ := hslots.tail h.inv (hfollows.wf (Int.natCast_nonneg _))
        have huslen : us.length = (tokens.take q).length := by rw [hus, List.length_map, length_positions]
        rw [List.zip_cons_cons]
        unfold processUbatches
        dsimp only
        rw [← hus, positions_snd]
        have hvalues : idxs.length = ((tokens.take q).map some).length := by rw [List.length_map, hidxs, huslen]
        have htake : (tokens.take q).length = min q tokens.length := List.length_take
        have husne : us ≠ [] := by
          rw [← List.length_pos_iff, huslen]
          omega
        have hfailed : b.status j ≠ .success → ∃ k, Ended b n tokens.length (b.status j).code k ∧
            ∃ loc', Holds nCells ⟨removePositions us (applyUbatch idxs us m.cache),
              write idxs ((positions kv.length (tokens.take q)).map fun _ ↦ none) m.rows⟩
              (kv ++ (tokens.take k).map some) loc' := by
          intro hstatus
          refine ⟨0, .part j 0 hstatus hpos (Nat.dvd_zero _), loc, ?_⟩
          rw [List.take_zero, List.map_nil, List.append_nil]
          refine h.takenBack hslot hidxs ?_ hfollows husne (by omega)
          rw [List.length_map, length_positions, hidxs, huslen]
        cases hstatus : b.status j with
        | success =>
          have hplaced := h.place hslot hidxs hvalues hfollows
          have hdrop : (tokens.drop q).length = tokens.length - q := List.length_drop
          have hnext : positions ((kv.length : ℤ) + q) (tokens.drop q) =
              positions ((kv ++ (tokens.take q).map some).length : ℤ) (tokens.drop q) := by
            rcases le_total q tokens.length with hle | hle
            · rw [List.length_append, List.length_map, htake, Nat.min_eq_left hle, Nat.cast_add]
            · rw [List.drop_of_length_le hle]
              rfl
          rw [hnext] at hrest ⊢
          obtain ⟨k, hended, loc', hholds⟩ := ih _ (by omega) (j + 1) (tokens.drop q) hplaced
            (by rw [List.length_append, List.length_map]; omega) hrest rfl
          refine ⟨min q tokens.length + k, ?_, loc', ?_⟩
          · rw [hdrop, hq] at hended
            rw [hq]
            exact hended.later
          · rw [← take_append_take, List.map_append, ← List.append_assoc]
            exact hholds
        | aborted | allocFailed | failed =>
          rw [hstatus] at hfailed
          exact hfailed (by decide)

theorem splitSimple_parts {α : Type} (n : ℕ) (batch : List α) :
    (splitSimple n batch).flatten = batch ∧ ∀ ubatch ∈ splitSimple n batch, ubatch ≠ [] := by
  induction hlength : batch.length using Nat.strong_induction_on generalizing batch with
  | _ length ih =>
    subst hlength
    rcases eq_or_ne batch [] with rfl | hne
    · rw [splitSimple]
      exact ⟨rfl, fun _ hmem ↦ absurd hmem List.not_mem_nil⟩
    · have hpos := List.length_pos_iff.mpr hne
      rw [splitSimple_of_ne n hne]
      obtain ⟨hflatten, hparts⟩ := ih _ (by rw [List.length_drop]; omega) (batch.drop (max 1 n)) rfl
      constructor
      · rw [List.flatten_cons, hflatten, List.take_append_drop]
      · refine List.forall_mem_cons.mpr ⟨?_, hparts⟩
        rw [← List.length_pos_iff, List.length_take]
        omega

theorem splitSimple_wf {p0 : ℤ} (hp0 : 0 ≤ p0) (n : ℕ) (tokens : List Token) :
    ∀ us ∈ (splitSimple n (positions p0 tokens)).map (·.map Prod.fst), us ≠ [] ∧ ∀ t ∈ us, t.Wf := by
  intro us hus
  obtain ⟨ubatch, hmem, rfl⟩ := List.mem_map.mp hus
  obtain ⟨hflatten, hparts⟩ := splitSimple_parts n (positions p0 tokens)
  refine ⟨fun hnil ↦ hparts ubatch hmem (List.map_eq_nil_iff.mp hnil), fun t ht ↦ ?_⟩
  obtain ⟨pair, hpair, rfl⟩ := List.mem_map.mp ht
  refine (follows_positions p0 tokens).wf hp0 _ (List.mem_map_of_mem ?_)
  rw [← hflatten]
  exact List.mem_flatten_of_mem hmem hpair

theorem splitSimple_lengths {α β : Type} (n : ℕ) (f : α → β) (batch : List α) :
    (((splitSimple n batch).map (·.map f)).map List.length).sum = batch.length := by
  have hlength : List.length ∘ (fun ubatch : List α ↦ ubatch.map f) = List.length :=
    funext fun ubatch ↦ List.length_map f
  rw [List.map_map, hlength, ← List.length_flatten, (splitSimple_parts n batch).1]

theorem memoryUpdate_eq (h : m.cache.cells.hasShift = false) : memoryUpdate m = m := by
  rw [memoryUpdate, h, if_neg Bool.false_ne_true]

/-- The tokens whose keys and values a context has cached. -/
def Caches (p : Params) (m : Memory Token) (kv : List Token) : Prop := ∃ loc, Holds p.nCtx m (kv.map some) loc

theorem caches_create (p : Params) : Caches p (create p : Memory Token) [] := ⟨[], holds_create p⟩

/-- What the decode of a batch comes to: a code, and the tokens that are cached afterwards. -/
inductive Decodes (p : Params) (valid : Token → Bool) (kv : List Token) :
    Backend × List Token × ℤ → List Token → Prop
  | refused (b : Backend) (tokens : List Token) : tokens = [] ∨ tokens.all valid = false →
      Decodes p valid kv (b, tokens, -1) kv
  | full (b : Backend) (tokens : List Token) : p.nCtx < kv.length + tokens.length → Decodes p valid kv (b, tokens, 1) kv
  | unreserved (b : Backend) (tokens : List Token) : kv.length + tokens.length ≤ p.nCtx →
      Decodes p valid kv (b, tokens, -2) kv
  | ended (b : Backend) (tokens : List Token) (code : ℤ) (k : ℕ) : kv.length + tokens.length ≤ p.nCtx →
      Ended b p.nUbatch tokens.length code k → Decodes p valid kv (b, tokens, code) (kv ++ tokens.take k)

theorem decode_decodes {kv : List Token} (hw : w.swaType = .none) (hn : p.nCtx ≤ 2147483647) (h : Caches p m kv)
    (hdecode : decode p w valid b tokens m = some (code, m')) :
    ∃ kv', Decodes p valid kv (b, tokens, code) kv' ∧ Caches p m' kv' := by
  obtain ⟨loc, hholds⟩ := h
  have hlength : (kv.map some).length = kv.length := List.length_map _
  unfold decode init at hdecode
  split at hdecode
  · rename_i hempty
    cases hdecode
    exact ⟨kv, .refused b tokens (.inl (List.isEmpty_iff.mp hempty)), loc, hholds⟩
  · by_cases hvalid : tokens.all valid = true
    · rw [if_pos hvalid, hholds.seqPosMax, hlength] at hdecode
      dsimp only at hdecode
      have hprepared := prepare_spec (w := w) hw hholds.inv
        (splitSimple_wf (Int.natCast_nonneg kv.length) p.nUbatch tokens)
      rw [splitSimple_lengths, length_positions, hholds.getUsed, hholds.size, hlength] at hprepared
      obtain ⟨hrestored, hfits, hslots⟩ := hprepared
      split at hdecode
      · cases hdecode
      · rw [memoryUpdate_eq hholds.hasShift, hrestored] at hdecode
        cases hfound : (prepare w ((splitSimple p.nUbatch (positions kv.length tokens)).map (·.map Prod.fst))
          m.cache).1 with
        | none =>
          rw [hfound] at hdecode hfits
          cases hdecode
          refine ⟨kv, .full b tokens (not_le.mp fun hle ↦ ?_), loc, hholds⟩
          exact Bool.false_ne_true (hfits.mpr (by omega))
        | some slots =>
          rw [hfound] at hdecode hfits
          have hle : kv.length + tokens.length ≤ p.nCtx := by
            have hsum := hfits.mp rfl
            omega
          dsimp only at hdecode
          split at hdecode
          · cases hdecode
            exact ⟨kv, .unreserved b tokens hle, loc, hholds⟩
          · have hprocess := Option.some.inj hdecode
            obtain ⟨k, hended, loc', hholds'⟩ := processUbatches_holds (b := b) p.nUbatch 0 tokens hholds
              (by omega) (hlength.symm ▸ hslots slots hfound)
            rw [hlength, hprocess] at hended hholds'
            refine ⟨kv ++ tokens.take k, .ended b tokens code k hle hended, loc', ?_⟩
            rw [List.map_append]
            exact hholds'
    · rw [if_neg hvalid] at hdecode
      cases hdecode
      exact ⟨kv, .refused b tokens (.inr (Bool.eq_false_iff.mpr hvalid)), loc, hholds⟩

/-- A batch is decoded, and the process goes on. -/
def DecodeStep (p : Params) (w : Swa) (valid : Token → Bool) (m : Memory Token) (e : Backend × List Token × ℤ)
    (m' : Memory Token) : Prop := decode p w valid e.1 e.2.1 m = some (e.2.2, m')

theorem decode_eq_none (hne : tokens ≠ []) (hvalid : tokens.all valid = true) :
    decode p w valid b tokens m = none ↔ p.nBatch < tokens.length := by
  unfold decode init
  rw [if_neg (by rwa [List.isEmpty_iff]), if_pos hvalid]
  dsimp only
  rw [length_positions]
  split
  · rename_i hlarge
    exact iff_of_true rfl hlarge
  · rename_i hlarge
    refine iff_of_false ?_ hlarge
    split
    · exact Option.some_ne_none _
    · split <;> exact Option.some_ne_none _

theorem Params.create_nBatch (contextSize nCtxTrain : ℕ) :
    (Params.create contextSize nCtxTrain).nBatch = contextSize := by
  unfold Params.create
  dsimp only
  split <;> omega

theorem Params.create_nCtx {contextSize : ℕ} (nCtxTrain : ℕ) (hne : contextSize ≠ 0) (hdvd : 256 ∣ contextSize) :
    (Params.create contextSize nCtxTrain).nCtx = contextSize := by
  unfold Params.create pad
  dsimp only
  rw [if_neg hne]
  omega

def getNKv (nPad : ℕ) (c : Cells) : ℕ :=
  let nPadCur := max nPad 256
  min c.size (max nPadCur (pad c.usedMaxP1 nPadCur))

/-- A row of the mask leaves the cells of some tokens open, and no others. -/
def Attends (m : Memory Token) (row : List (Option ℤ)) (seen : List Token) : Prop :=
  ∃ loc : List ℕ, loc.Nodup ∧ loc.length = seen.length ∧ (∀ j, (∃ v, row[j]? = some (some v)) ↔ j ∈ loc) ∧
    ∀ p j : ℕ, loc[p]? = some j → (m.cache.cells.get j).pos = p ∧ m.rows j = seen[p]?

theorem le_pad {n : ℕ} (x : ℕ) (hn : 0 < n) : x ≤ pad x n := by
  have hdiv := Nat.lt_div_mul_add hn (a := x + n - 1)
  unfold pad
  omega

/-- All cells in use are among those that are attended to. -/
theorem lt_getNKv {c : Cells} (nPad : ℕ) (h : Consistent c) (hi : i < c.size) (hpos : (c.get i).pos ≠ -1) :
    i < getNKv nPad c := by
  have hlt : i < c.usedMaxP1 := by
    by_contra hge
    exact hpos (of_decide_eq_true (h.scanned.usedMaxP1 i (not_lt.mp hge) hi))
  have hpad := le_pad c.usedMaxP1 (n := max nPad 256) (by omega)
  exact lt_min hi (hlt.trans_le (hpad.trans (le_max_right _ _)))

theorem entry_some {a : Args} {c : Cells} {t : UToken} {j : ℕ} (hw : a.swa.swaType = .none) (hcausal : a.causal = true)
    (hext : t.ext = none) : (∃ v, entry a c t j = some v) ↔
      (c.get j).pos ≠ -1 ∧ t.first ∈ (c.get j).seq ∧ (c.get j).pos ≤ t.pos := by
  have hmasked : isMaskedSwa a.swa.nSwa a.swa.swaType (c.get j).pos t.pos = false := by rw [hw, isMaskedSwa]
  unfold entry isEmpty seqHas
  dsimp only
  rw [hcausal, hext, hmasked]
  by_cases hempty : (c.get j).pos = -1 <;> by_cases hseq : t.first ∈ (c.get j).seq <;>
    by_cases hle : (c.get j).pos ≤ t.pos <;> simp [hempty, hseq, hle, not_lt.mpr]

end Aigentik.Llama.Context
