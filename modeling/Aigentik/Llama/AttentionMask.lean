import Aigentik.Llama.KvCache

/-! The attention mask of a batch: which cells of the cache each of its tokens may look at. -/

namespace Aigentik.Llama

open Cells KvCache

/-- The first sequence of a token. Every token has one. -/
def KvCache.UToken.first (t : UToken) : SeqId := t.seqId.headD seqId0

namespace AttentionMask

structure Args where
  causal : Bool
  alibi : Bool
  swa : Swa
  nKv : ℕ

def is2dGt (ext : ℤ × ℤ) (ox oy : ℤ) : Bool := ext.2 > oy || (ext.2 = oy && ext.1 > ox)

variable (a : Args) (c : Cells)

/-- The value written for a token and a cell, where `none` is minus infinity. -/
def entry (t : UToken) (j : ℕ) : Option ℤ :=
  if c.isEmpty j then none
  else if !c.seqHas j t.first then none
  else
    let p0 := (c.get j).pos
    let p1 := t.pos
    if a.causal && p0 > p1 then none
    else if a.causal && p0 = p1 && t.ext.any (fun p1 ↦ is2dGt (c.get j).ext p1.1 p1.2) then none
    else if isMaskedSwa a.swa.nSwa a.swa.swaType p0 p1 then none
    else some (if a.alibi then -|p0 - p1| else 0)

def seqPosMin (ubatch : List UToken) (s : SeqId) : ℤ :=
  ubatch.foldl (fun m t ↦ if t.first = s then min m t.pos else m) 2147483647

/-- The cells whose entries could differ between the tokens of a sequence. -/
def recorded (ubatch : List UToken) (s : SeqId) : List ℕ :=
  (List.range a.nKv).filter fun j ↦
    !c.isEmpty j && c.seqHas j s && (c.get j).pos + (a.swa.nSwa + 32) ≥ seqPosMin ubatch s

/-- The rows of the tokens so far, the row that the later ones of a sequence copy, and its recorded cells. -/
structure Rows where
  data : List (List (Option ℤ))
  seqSrct : SeqId → Option ℕ
  seqIdxs : SeqId → List ℕ

def fresh (t : UToken) : List (Option ℤ) := (List.range a.nKv).map (entry a c t)

def refresh (t : UToken) (idxs : List ℕ) (row : List (Option ℤ)) : List (Option ℤ) :=
  (idxs.take a.nKv).foldl (fun row j ↦ row.set j (entry a c t j)) row

def addRow (ubatch : List UToken) (r : Rows) (t : UToken) : Rows :=
  if a.alibi then { r with data := r.data ++ [fresh a c t] }
  else match r.seqSrct t.first with
    | some srct => { r with data := r.data ++ [refresh a c t (r.seqIdxs t.first) (r.data.getD srct [])] }
    | none => {
      data := r.data ++ [fresh a c t]
      seqSrct := Function.update r.seqSrct t.first (some r.data.length)
      seqIdxs := Function.update r.seqIdxs t.first (recorded a c ubatch t.first) }

def setInputKqMask (ubatch : List UToken) : List (List (Option ℤ)) :=
  (ubatch.foldl (addRow a c ubatch) ⟨[], fun _ ↦ none, fun _ ↦ []⟩).data

/-! A row that is copied and refreshed -/

variable {a c} {ubatch : List UToken} {t t' : UToken} {s : SeqId} {j : ℕ}

theorem foldl_set_map {α : Type} (f g : ℕ → α) (js : List ℕ) (n : ℕ) :
    js.foldl (fun row j ↦ row.set j (g j)) ((List.range n).map f) =
      (List.range n).map fun j ↦ if j ∈ js then g j else f j := by
  induction js generalizing f with
  | nil => simp only [List.foldl_nil, List.not_mem_nil, if_false]
  | cons i js ih =>
    have hset : ((List.range n).map f).set i (g i) = (List.range n).map fun j ↦ if j = i then g j else f j := by
      refine List.ext_getElem (by simp only [List.length_set, List.length_map]) fun j _ _ ↦ ?_
      simp only [List.getElem_set, List.getElem_map, List.getElem_range, eq_comm (a := i)]
      split
      · rename_i hij
        rw [hij]
      · rfl
    rw [List.foldl_cons, hset, ih]
    refine List.map_congr_left fun j _ ↦ ?_
    by_cases hmem : j ∈ js
    · rw [if_pos hmem, if_pos (List.mem_cons_of_mem i hmem)]
    · simp only [if_neg hmem, List.mem_cons, or_iff_left hmem]

/-- Copying the row of another token and writing the listed entries anew gives the row of the token, if the others are
the same for both. -/
theorem refresh_eq {idxs : List ℕ} (hlen : idxs.length ≤ a.nKv)
    (hsame : ∀ j < a.nKv, j ∉ idxs → entry a c t j = entry a c t' j) :
    refresh a c t idxs (fresh a c t') = fresh a c t := by
  unfold refresh fresh
  rw [List.take_of_length_le hlen, foldl_set_map]
  refine List.map_congr_left fun j hj ↦ ?_
  split
  · rfl
  · rename_i hnot
    exact (hsame j (List.mem_range.mp hj) hnot).symm

/-! Which entries are the same for all tokens of a sequence -/

theorem foldl_min_le {α : Type} (l : List α) (p : α → Prop) [DecidablePred p] (f : α → ℤ) (m : ℤ) :
    l.foldl (fun m x ↦ if p x then min m (f x) else m) m ≤ m ∧
      ∀ x ∈ l, p x → l.foldl (fun m x ↦ if p x then min m (f x) else m) m ≤ f x := by
  induction l generalizing m with
  | nil => exact ⟨le_rfl, fun _ hx ↦ absurd hx List.not_mem_nil⟩
  | cons y l ih =>
    obtain ⟨hstart, hall⟩ := ih (if p y then min m (f y) else m)
    have hle : (if p y then min m (f y) else m) ≤ m := by
      split
      · exact min_le_left _ _
      · exact le_rfl
    refine ⟨hstart.trans hle, fun x hx hp ↦ ?_⟩
    rcases List.mem_cons.mp hx with rfl | hx
    · rw [if_pos hp] at hstart
      rw [List.foldl_cons, if_pos hp]
      exact hstart.trans (min_le_right _ _)
    · exact hall x hx hp

theorem seqPosMin_le (ht : t ∈ ubatch) (hs : t.first = s) : seqPosMin ubatch s ≤ t.pos :=
  (foldl_min_le ubatch (fun t ↦ t.first = s) (fun t ↦ t.pos) 2147483647).2 t ht hs

theorem le_seqPosMin {m : ℤ} (hm : m ≤ 2147483647) (hall : ∀ t ∈ ubatch, m ≤ t.pos) : m ≤ seqPosMin ubatch s := by
  unfold seqPosMin
  generalize (2147483647 : ℤ) = start at hm ⊢
  induction ubatch generalizing start with
  | nil => exact hm
  | cons t ubatch ih =>
    obtain ⟨ht, hall⟩ := List.forall_mem_cons.mp hall
    refine ih hall _ ?_
    dsimp only
    split
    · exact le_min hm ht
    · exact hm

theorem seqPosMin_of_ne (hne : ∀ t ∈ ubatch, t.first ≠ s) : seqPosMin ubatch s = 2147483647 := by
  unfold seqPosMin
  generalize (2147483647 : ℤ) = start
  induction ubatch with
  | nil => rfl
  | cons t ubatch ih =>
    obtain ⟨ht, hne⟩ := List.forall_mem_cons.mp hne
    rw [List.foldl_cons, if_neg ht]
    exact ih hne

/-- A position further back than the window is masked for all later positions alike. -/
theorem isMaskedSwa_far {w : Swa} {p0 p1 p1' : ℤ} (h : p0 + (w.nSwa + 32) < p1) (h' : p0 + (w.nSwa + 32) < p1') :
    isMaskedSwa w.nSwa w.swaType p0 p1 = isMaskedSwa w.nSwa w.swaType p0 p1' := by
  cases hw : w.swaType with
  | none => rfl
  | standard =>
    simp only [isMaskedSwa]
    rw [decide_eq_true (by omega), decide_eq_true (by omega)]
  | chunked =>
    simp only [isMaskedSwa]
    by_cases hn : w.nSwa = 0
    · rw [hn, Nat.cast_zero, mul_zero, mul_zero]
    · have hpos : (0 : ℤ) < w.nSwa := by omega
      have hchunk := Int.lt_ediv_add_one_mul_self p1 hpos
      have hchunk' := Int.lt_ediv_add_one_mul_self p1' hpos
      rw [add_mul, one_mul] at hchunk hchunk'
      rw [decide_eq_true (by omega), decide_eq_true (by omega)]
  | symmetric =>
    simp only [isMaskedSwa]
    have hhalf : ((w.nSwa / 2 : ℕ) : ℤ) ≤ w.nSwa := Nat.cast_le.mpr (Nat.div_le_self _ _)
    have hfar : ((w.nSwa / 2 : ℕ) : ℤ) < p1 - p0 := by omega
    have hfar' : ((w.nSwa / 2 : ℕ) : ℤ) < p1' - p0 := by omega
    rw [decide_eq_true hfar, decide_eq_true hfar', Bool.or_true, Bool.or_true]

/-- The entries that are not recorded are the same for all tokens of the sequence. -/
theorem entry_eq (halibi : a.alibi = false) (ht : t ∈ ubatch) (ht' : t' ∈ ubatch) (hs : t.first = s)
    (hs' : t'.first = s) (hj : j < a.nKv) (hnot : j ∉ recorded a c ubatch s) : entry a c t j = entry a c t' j := by
  have hle := seqPosMin_le ht hs
  have hle' := seqPosMin_le ht' hs'
  unfold entry
  rw [hs, hs', halibi]
  by_cases hempty : c.isEmpty j
  · simp only [hempty, if_true]
  · by_cases hhas : c.seqHas j s
    · have hfar : (c.get j).pos + (a.swa.nSwa + 32) < seqPosMin ubatch s := by
        by_contra hge
        refine hnot (List.mem_filter.mpr ⟨List.mem_range.mpr hj, ?_⟩)
        simp only [hempty, hhas, Bool.not_false, Bool.true_and, decide_eq_true_eq, ge_iff_le]
        exact not_lt.mp hge
      have hmasked := isMaskedSwa_far (w := a.swa) (hfar.trans_le hle) (hfar.trans_le hle')
      have hlt : ∀ p, seqPosMin ubatch s ≤ p → ¬(c.get j).pos > p ∧ (c.get j).pos ≠ p := by
        intro p hp
        omega
      simp only [decide_eq_false (hlt _ hle).1, decide_eq_false (hlt _ hle).2, decide_eq_false (hlt _ hle').1,
        decide_eq_false (hlt _ hle').2, hmasked, Bool.and_false, Bool.false_and]
      rfl
    · simp only [hhas, Bool.not_false, if_true]

/-! All rows -/

/-- The rows are those of the tokens so far, and every sequence seen has a row to copy. -/
structure Good (a : Args) (c : Cells) (ubatch before : List UToken) (r : Rows) : Prop where
  data : r.data = before.map (fresh a c)
  source : ∀ s srct, r.seqSrct s = some srct →
    r.seqIdxs s = recorded a c ubatch s ∧ ∃ t ∈ ubatch, t.first = s ∧ r.data[srct]? = some (fresh a c t)

theorem Good.addRow {before : List UToken} {r : Rows} (h : Good a c ubatch before r) (ht : t ∈ ubatch) :
    Good a c ubatch (before ++ [t]) (addRow a c ubatch r t) := by
  have hkept : ∀ row s srct, r.seqSrct s = some srct → r.seqIdxs s = recorded a c ubatch s ∧
      ∃ t ∈ ubatch, t.first = s ∧ (r.data ++ [row])[srct]? = some (fresh a c t) := by
    intro row s srct hsrct
    obtain ⟨hidxs, t, ht, hs, hrow⟩ := h.source s srct hsrct
    exact ⟨hidxs, t, ht, hs, List.getElem?_append_left (List.getElem?_eq_some_iff.mp hrow).1 ▸ hrow⟩
  unfold AttentionMask.addRow
  by_cases halibi : a.alibi = true
  · rw [if_pos halibi]
    refine ⟨?_, hkept _⟩
    rw [List.map_append, ← h.data]
    rfl
  · rw [if_neg halibi]
    cases hsrct : r.seqSrct t.first with
    | some srct =>
      obtain ⟨hidxs, t', ht', hs, hrow⟩ := h.source t.first srct hsrct
      have hlen : (recorded a c ubatch t.first).length ≤ a.nKv :=
        (List.length_filter_le _ _).trans_eq List.length_range
      have hrow' : refresh a c t (r.seqIdxs t.first) (r.data.getD srct []) = fresh a c t := by
        rw [List.getD_eq_getElem?_getD, hrow, hidxs]
        exact refresh_eq hlen fun j hj hnot ↦ entry_eq (Bool.eq_false_iff.mpr halibi) ht ht' rfl hs hj hnot
      dsimp only
      rw [hrow']
      refine ⟨?_, hkept _⟩
      rw [List.map_append, ← h.data]
      rfl
    | none =>
      refine ⟨?_, fun s srct hs ↦ ?_⟩
      · rw [List.map_append, ← h.data]
        rfl
      · dsimp only at hs ⊢
        by_cases heq : s = t.first
        · subst heq
          rw [Function.update_self] at hs ⊢
          cases hs
          exact ⟨rfl, t, ht, rfl, List.getElem?_concat_length⟩
        · rw [Function.update_of_ne heq] at hs ⊢
          exact hkept _ s srct hs

theorem good_start (a : Args) (c : Cells) (ubatch : List UToken) :
    Good a c ubatch [] ⟨[], fun _ ↦ none, fun _ ↦ []⟩ := ⟨rfl, fun s srct hs ↦ by cases hs⟩

theorem Good.rows {before : List UToken} {r : Rows} (h : Good a c ubatch before r) (rest : List UToken)
    (heq : before ++ rest = ubatch) :
    (rest.foldl (AttentionMask.addRow a c ubatch) r).data = ubatch.map (fresh a c) := by
  induction rest generalizing before r with
  | nil =>
    rw [← heq, List.append_nil]
    exact h.data
  | cons t rest ih =>
    have ht : t ∈ ubatch := heq ▸ List.mem_append_right before List.mem_cons_self
    exact ih (h.addRow ht) ((List.append_assoc ..).trans heq)

end AttentionMask

end Aigentik.Llama
