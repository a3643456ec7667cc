import Aigentik.Collections.PriorityQueue
import Mathlib

/-! A text that is cut into linked segments, of which neighbours are merged as long as a queue of
candidates asks for it. A segment that was merged into its left neighbour stays in its place with
size zero. -/

namespace Collections

structure Segment where
  prev : Option ℕ
  next : Option ℕ
  start : ℕ
  size : ℕ
deriving DecidableEq

instance : Inhabited Segment := ⟨⟨none, none, 0, 0⟩⟩

namespace Segment

def get (s : List Segment) (i : ℕ) : Segment := s.getD i default

/-- The right segment joins the left one and leaves the chain. -/
def merge (left right : ℕ) (s : List Segment) : List Segment :=
  let s := s.modify left fun l ↦ { l with size := l.size + (get s right).size }
  let s := s.modify right fun r ↦ { r with size := 0 }
  let s := s.modify left fun l ↦ { l with next := (get s right).next }
  match (get s right).next with
  | some next => s.modify next fun n ↦ { n with prev := some left }
  | none => s

def live (s : List Segment) : ℕ := s.countP fun x ↦ x.size ≠ 0

/-- The segments `ids` follow each other from `start` to `stop`. -/
def Linked (s : List Segment) : Option ℕ → ℕ → List ℕ → ℕ → Prop
  | _, start, [], stop => start = stop
  | prev, start, i :: ids, stop =>
    (get s i).prev = prev ∧ (get s i).next = ids.head? ∧ (get s i).start = start ∧ 0 < (get s i).size ∧
      Linked s (some i) (start + (get s i).size) ids stop

/-- All that is not empty is on one chain, which covers the text in the order of the indices. -/
structure Chain (s : List Segment) (ids : List ℕ) (stop : ℕ) : Prop where
  linked : Linked s none 0 ids stop
  sorted : ids.Pairwise (· < ·)
  rest : ∀ i, i ∉ ids → (get s i).size = 0

variable {s s' : List Segment} {i j left right start stop : ℕ} {prev : Option ℕ} {ids xs ys : List ℕ}

theorem Chain.nodup (h : Chain s ids stop) : ids.Nodup := h.sorted.imp fun hlt ↦ hlt.ne

theorem lt_length (h : 0 < (get s i).size) : i < s.length := by
  by_contra hge
  rw [get, List.getD_eq_getElem?_getD, List.getElem?_eq_none (not_lt.mp hge)] at h
  exact absurd h (lt_irrefl 0)

theorem get_modify (f : Segment → Segment) (hi : i < s.length) :
    get (s.modify i f) j = if i = j then f (get s j) else get s j := by
  rw [get, List.getD_eq_getElem?_getD, List.getElem?_modify, get, List.getD_eq_getElem?_getD]
  split
  · rename_i heq
    subst heq
    rw [List.getElem?_eq_getElem hi]
    rfl
  · cases s[j]? <;> rfl

theorem get_modify_of_ne (f : Segment → Segment) (h : i ≠ j) : get (s.modify i f) j = get s j := by
  rw [get, List.getD_eq_getElem?_getD, List.getElem?_modify_ne _ _ h, get, List.getD_eq_getElem?_getD]

/-- What a merge does to the segment `j`. -/
def merged (left right : ℕ) (s : List Segment) (j : ℕ) : Segment :=
  let x := get s j
  if j = left then { x with size := x.size + (get s right).size, next := (get s right).next }
  else if j = right then { x with size := 0 }
  else if (get s right).next = some j then { x with prev := some left }
  else x

theorem merged_size (j : ℕ) : (merged left right s j).size =
    if j = left then (get s j).size + (get s right).size else if j = right then 0 else (get s j).size := by
  unfold merged
  dsimp only
  split_ifs <;> rfl

theorem size_of_merged (hne : left ≠ right) (hleft : (get s left).size ≠ 0)
    (hj : (merged left right s j).size ≠ 0) : j ≠ right ∧ (get s j).size ≠ 0 := by
  rw [merged_size] at hj
  by_cases hjl : j = left
  · subst hjl
    exact ⟨hne, hleft⟩
  · rw [if_neg hjl] at hj
    by_cases hjr : j = right
    · exact absurd (if_pos hjr) hj
    · rw [if_neg hjr] at hj
      exact ⟨hjr, hj⟩

theorem merged_next (j : ℕ) : (merged left right s j).next =
    if j = left then (get s right).next else (get s j).next := by
  unfold merged
  dsimp only
  split_ifs <;> rfl

theorem get_merge (hleft : left < s.length) (hright : right < s.length) (hne : left ≠ right)
    (hnext : ∀ c, (get s right).next = some c → c ≠ left ∧ c ≠ right ∧ c < s.length) (j : ℕ) :
    get (merge left right s) j = merged left right s j := by
  have hcut : get (((s.modify left fun l ↦ { l with size := l.size + (get s right).size }).modify right
      fun r ↦ { r with size := 0 })) right = { get s right with size := 0 } := by
    rw [get_modify _ (by rwa [List.length_modify]), if_pos rfl, get_modify_of_ne _ hne]
  unfold merge merged
  dsimp only
  rw [hcut, get_modify_of_ne _ hne, hcut]
  cases hc : (get s right).next with
  | none =>
    simp only [get_modify, List.length_modify, hleft, hright]
    grind
  | some c =>
    obtain ⟨hcl, hcr, hlt⟩ := hnext c hc
    simp only [get_modify, List.length_modify, hleft, hright, hlt]
    grind

theorem Linked.congr (h : Linked s prev start ids stop) (heq : ∀ i ∈ ids, get s' i = get s i) :
    Linked s' prev start ids stop := by
  induction ids generalizing prev start with
  | nil => exact h
  | cons i ids ih =>
    obtain ⟨hi, hids⟩ := List.forall_mem_cons.mp heq
    obtain ⟨hprev, hnext, hstart, hsize, hrest⟩ := h
    refine ⟨hi ▸ hprev, hi ▸ hnext, hi ▸ hstart, hi ▸ hsize, ?_⟩
    rw [hi]
    exact ih hrest hids

theorem Linked.suffix (h : Linked s prev start (xs ++ ys) stop) : ∃ prev start, Linked s prev start ys stop := by
  induction xs generalizing prev start with
  | nil => exact ⟨prev, start, h⟩
  | cons i xs ih => exact ih h.2.2.2.2

theorem Linked.size_pos (h : Linked s prev start ids stop) (hi : i ∈ ids) : 0 < (get s i).size := by
  obtain ⟨xs, ys, rfl⟩ := List.append_of_mem hi
  obtain ⟨prev, start, h⟩ := h.suffix
  exact h.2.2.2.1

/-- Neighbours on the chain become one. -/
theorem Linked.merge (h : Linked s prev start (xs ++ left :: right :: ys) stop)
    (hnodup : (xs ++ left :: right :: ys).Nodup) (hs' : ∀ j, get s' j = merged left right s j) :
    Linked s' prev start (xs ++ left :: ys) stop := by
  obtain ⟨p, n, htail⟩ := h.suffix
  have hnext : (get s right).next = ys.head? := htail.2.2.2.2.2.1
  induction xs generalizing prev start with
  | nil =>
    obtain ⟨hprev, -, hstart, hsize, -, -, -, -, hrest⟩ := h
    have hleft : get s' left =
        { get s left with size := (get s left).size + (get s right).size, next := (get s right).next } := by
      rw [hs', merged, if_pos rfl]
    refine ⟨hleft ▸ hprev, hleft ▸ hnext, hleft ▸ hstart, ?_, ?_⟩
    · rw [hleft]
      exact Nat.add_pos_left hsize _
    · rw [hleft, ← Nat.add_assoc]
      cases ys with
      | nil => exact hrest
      | cons c zs =>
        obtain ⟨-, hcnext, hcstart, hcsize, hzs⟩ := hrest
        rw [List.head?_cons] at hnext
        simp only [List.nil_append, List.nodup_cons, List.mem_cons, not_or, ← ne_eq] at hnodup
        have hc : get s' c = { get s c with prev := some left } := by
          rw [hs', merged, if_neg hnodup.1.2.1.symm, if_neg hnodup.2.1.1.symm, if_pos hnext]
        refine ⟨by rw [hc], hc ▸ hcnext, hc ▸ hcstart, hc ▸ hcsize, ?_⟩
        rw [hc]
        refine hzs.congr fun j hj ↦ ?_
        have hjc : (get s right).next ≠ some j := by
          rw [hnext]
          rintro ⟨⟩
          exact hnodup.2.2.1 hj
        rw [hs', merged, if_neg (ne_of_mem_of_not_mem hj hnodup.1.2.2),
          if_neg (ne_of_mem_of_not_mem hj hnodup.2.1.2), if_neg hjc]
  | cons x xs ih =>
    obtain ⟨hprev, hxnext, hstart, hsize, hrest⟩ := h
    rw [List.cons_append, List.nodup_cons, List.mem_append, List.mem_cons, List.mem_cons] at hnodup
    obtain ⟨hx, hnodup⟩ := hnodup
    have hxs : (get s right).next ≠ some x := by
      rw [hnext]
      intro hys
      exact hx (.inr (.inr (.inr (List.mem_of_mem_head? hys))))
    have heq : get s' x = get s x := by
      rw [hs', merged, if_neg fun heq ↦ hx (.inr (.inl heq)), if_neg fun heq ↦ hx (.inr (.inr (.inl heq))), if_neg hxs]
    refine ⟨heq ▸ hprev, ?_, heq ▸ hstart, heq ▸ hsize, ?_⟩
    · rw [heq, hxnext]
      cases xs <;> rfl
    · rw [heq]
      exact ih hrest hnodup

theorem Chain.get_merge (h : Chain s (xs ++ left :: right :: ys) stop) (j : ℕ) :
    get (merge left right s) j = merged left right s j := by
  have hnodup := h.nodup
  obtain ⟨hlinked, -, -⟩ := h
  obtain ⟨p, n, htail⟩ := hlinked.suffix
  have hnext : (get s right).next = ys.head? := htail.2.2.2.2.2.1
  have hlive : ∀ i ∈ xs ++ left :: right :: ys, i < s.length := fun i hi ↦ lt_length (hlinked.size_pos hi)
  have htails := (List.nodup_append.mp hnodup).2.1
  simp only [List.nodup_cons, List.mem_cons, not_or, ← ne_eq] at htails
  refine Segment.get_merge (hlive left (by simp)) (hlive right (by simp)) htails.1.1 (fun c hc ↦ ?_) j
  rw [hnext] at hc
  have hmem : c ∈ ys := List.mem_of_mem_head? hc
  exact ⟨ne_of_mem_of_not_mem hmem htails.1.2, ne_of_mem_of_not_mem hmem htails.2.1, hlive c (by simp [hmem])⟩

theorem Chain.merge (h : Chain s (xs ++ left :: right :: ys) stop) :
    Chain (merge left right s) (xs ++ left :: ys) stop := by
  have hget := h.get_merge
  have hnodup := h.nodup
  obtain ⟨hlinked, hsorted, hrest⟩ := h
  have hne : left ≠ right := by
    rintro rfl
    simp [List.nodup_append] at hnodup
  refine ⟨hlinked.merge hnodup hget, ?_, ?_⟩
  · exact hsorted.sublist ((List.sublist_cons_self right ys).cons_cons left |>.append_left xs)
  · intro i hi
    rw [hget, merged]
    by_cases hr : i = right
    · rw [if_neg (hr ▸ hne.symm), if_pos hr]
    · have hl : i ≠ left := by
        rintro rfl
        exact hi (by simp)
      have hsize : (get s i).size = 0 := hrest i (by simp_all)
      rw [if_neg hl, if_neg hr]
      split <;> exact hsize

theorem live_modify_of_iff {f : Segment → Segment} (hf : (f (get s i)).size = 0 ↔ (get s i).size = 0) :
    live (s.modify i f) = live s := by
  induction s generalizing i with
  | nil => simp [live]
  | cons x s ih =>
    cases i with
    | zero =>
      have hx : (f x).size = 0 ↔ x.size = 0 := hf
      simp only [live, List.modify_zero_cons, List.countP_cons, ne_eq, hx]
    | succ i =>
      have hrest := ih (i := i) hf
      simp only [live, List.modify_succ_cons, List.countP_cons] at hrest ⊢
      rw [hrest]

theorem live_modify_zero {f : Segment → Segment} (hf : ∀ x, (f x).size = 0) (hi : (get s i).size ≠ 0) :
    live (s.modify i f) + 1 = live s := by
  induction s generalizing i with
  | nil => exact absurd rfl hi
  | cons x s ih =>
    cases i with
    | zero =>
      have hx : x.size ≠ 0 := hi
      simp [live, hf x, hx]
    | succ i =>
      have hrest := ih (i := i) hi
      simp only [live, List.modify_succ_cons, List.countP_cons] at hrest ⊢
      omega

/-- Each merge leaves one segment fewer, even where a segment would be merged into itself. -/
theorem live_merge (hleft : (get s left).size ≠ 0) (hright : (get s right).size ≠ 0) :
    live (merge left right s) + 1 = live s := by
  have hgrow : live (s.modify left fun l ↦ { l with size := l.size + (get s right).size }) = live s :=
    live_modify_of_iff (by simp [hright, hleft])
  have hlt : left < s.length := lt_length (Nat.pos_of_ne_zero hleft)
  have hcut : live ((s.modify left fun l ↦ { l with size := l.size + (get s right).size }).modify right
      fun r ↦ { r with size := 0 }) + 1 = live s := by
    rw [← hgrow]
    refine live_modify_zero (fun _ ↦ rfl) ?_
    rw [get_modify _ hlt]
    split
    · simp [hright]
    · exact hright
  rw [← hcut]
  unfold merge
  dsimp only
  split
  · rw [live_modify_of_iff Iff.rfl, live_modify_of_iff Iff.rfl]
  · rw [live_modify_of_iff Iff.rfl]

theorem start_merge (i : ℕ) : (get (merge left right s) i).start = (get s i).start := by
  have hkeep : ∀ (f : Segment → Segment), (∀ x, (f x).start = x.start) → ∀ (s : List Segment) (j : ℕ),
      (get (s.modify j f) i).start = (get s i).start := by
    intro f hf s j
    by_cases hj : j < s.length
    · rw [get_modify _ hj]
      split
      · exact hf _
      · rfl
    · rw [List.modify_eq_self (not_lt.mp hj)]
  unfold merge
  dsimp only
  split <;> simp [hkeep]

theorem Linked.next_eq (h : Linked s prev start ids stop) (hi : i ∈ ids) (hj : (get s i).next = some j) :
    ∃ xs ys, ids = xs ++ i :: j :: ys := by
  obtain ⟨xs, ys, rfl⟩ := List.append_of_mem hi
  obtain ⟨p, n, htail⟩ := h.suffix
  have hnext : ys.head? = some j := htail.2.1.symm.trans hj
  cases ys with
  | nil => cases hnext
  | cons y ys =>
    cases hnext
    exact ⟨xs, ys, rfl⟩

theorem Linked.prev_eq (h : Linked s prev start (i :: ids) stop) (hj : j ∈ ids) :
    ∃ k, (get s j).prev = some k ∧ k ∈ i :: ids ∧ (get s k).next = some j := by
  induction ids generalizing prev start i with
  | nil => cases hj
  | cons x ids ih =>
    obtain ⟨-, hnext, -, -, hrest⟩ := h
    rcases List.mem_cons.mp hj with rfl | hj
    · exact ⟨i, hrest.1, List.mem_cons_self, hnext⟩
    · obtain ⟨k, hk, hmem, hknext⟩ := ih hrest hj
      exact ⟨k, hk, List.mem_cons_of_mem _ hmem, hknext⟩

theorem Chain.next_of_prev (h : Chain s ids stop) (hi : i ∈ ids) (hj : (get s i).prev = some j) :
    (get s j).next = some i := by
  obtain ⟨hlinked, -, -⟩ := h
  cases ids with
  | nil => cases hi
  | cons x ids =>
    rcases List.mem_cons.mp hi with rfl | hi
    · exact absurd (hlinked.1.symm.trans hj) (by simp)
    · obtain ⟨k, hk, -, hnext⟩ := hlinked.prev_eq hi
      rw [hj] at hk
      cases hk
      exact hnext

theorem Chain.mem (h : Chain s ids stop) (hi : (get s i).size ≠ 0) : i ∈ ids := by
  by_contra hnot
  exact hi (h.rest i hnot)

end Segment

/-! The cut that merging starts from, and what it ends with -/

namespace Segment

variable {s : List Segment} {prev : Option ℕ} {start stop n : ℕ} {ids sizes : List ℕ} {α : Type} {text : List α}

def cutFrom (prev : Option ℕ) (index start : ℕ) : List ℕ → List Segment
  | [] => []
  | n :: sizes =>
    ⟨prev, if sizes = [] then none else some (index + 1), start, n⟩ ::
      cutFrom (some index) (index + 1) (start + n) sizes

def cut (sizes : List ℕ) : List Segment := cutFrom none 0 0 sizes

def slice (text : List α) (start size : ℕ) : List α := (text.drop start).take size

/-- The chain as the links give it, with a bound on its length. -/
def walk (s : List Segment) : ℕ → Option ℕ → Option (List ℕ)
  | _, none => some []
  | 0, some _ => none
  | n + 1, some i => (walk s n (get s i).next).map (i :: ·)

theorem length_cutFrom (prev : Option ℕ) (index start : ℕ) (sizes : List ℕ) :
    (cutFrom prev index start sizes).length = sizes.length := by
  induction sizes generalizing prev index start with
  | nil => rfl
  | cons n sizes ih => exact congrArg (· + 1) (ih _ _ _)

theorem next_cutFrom (prev : Option ℕ) (index start : ℕ) {i : ℕ} (hi : i + 1 < sizes.length) :
    (get (cutFrom prev index start sizes) i).next = some (index + i + 1) := by
  induction sizes generalizing prev index start i with
  | nil => cases hi
  | cons n sizes ih =>
    have hlt : i < sizes.length := Nat.lt_of_succ_lt_succ hi
    cases i with
    | zero =>
      have hne : sizes ≠ [] := List.ne_nil_of_length_pos hlt
      exact if_neg hne
    | succ i =>
      refine (ih (some index) (index + 1) (start + n) hlt).trans (congrArg some ?_)
      omega

theorem linked_cutFrom (before : List Segment) (prev : Option ℕ) (start : ℕ) (h : ∀ n ∈ sizes, 0 < n) :
    Linked (before ++ cutFrom prev before.length start sizes) prev start (List.range' before.length sizes.length)
      (start + sizes.sum) := by
  induction sizes generalizing before prev start with
  | nil => exact (Nat.add_zero start).symm
  | cons n sizes ih =>
    obtain ⟨hn, hsizes⟩ := List.forall_mem_cons.mp h
    rw [cutFrom]
    set x : Segment := ⟨prev, if sizes = [] then none else some (before.length + 1), start, n⟩ with hx
    have hget : get (before ++ x :: cutFrom (some before.length) (before.length + 1) (start + n) sizes)
        before.length = x := by
      rw [get, List.getD_eq_getElem?_getD, List.getElem?_append_right le_rfl, Nat.sub_self]
      rfl
    have hrest := ih (before ++ [x]) (some before.length) (start + n) hsizes
    rw [List.length_append, List.length_singleton, List.append_assoc, List.singleton_append] at hrest
    refine ⟨by rw [hget], ?_, by rw [hget], by rwa [hget], ?_⟩
    · rw [hget, hx]
      cases sizes <;> simp [List.range'_succ]
    · rw [hget, List.sum_cons, ← Nat.add_assoc]
      exact hrest

theorem chain_cut (h : ∀ n ∈ sizes, 0 < n) : Chain (cut sizes) (List.range sizes.length) sizes.sum := by
  have hlinked := linked_cutFrom [] none 0 h
  rw [Nat.zero_add, List.nil_append, List.length_nil, ← List.range_eq_range'] at hlinked
  refine ⟨hlinked, List.pairwise_lt_range, fun i hi ↦ ?_⟩
  rw [List.mem_range, not_lt, ← length_cutFrom none 0 0 sizes] at hi
  rw [cut, get, List.getD_eq_getElem?_getD, List.getElem?_eq_none hi]
  rfl

theorem Linked.le (h : Linked s prev start ids stop) : start ≤ stop := by
  induction ids generalizing prev start with
  | nil => exact h.le
  | cons i ids ih => exact (Nat.le_add_right _ _).trans (ih h.2.2.2.2)

/-- The segments of the chain cover the text. -/
theorem Linked.slices (h : Linked s prev start ids text.length) :
    (ids.map fun i ↦ slice text (get s i).start (get s i).size).flatten = text.drop start := by
  induction ids generalizing prev start with
  | nil =>
    have hstart : start = text.length := h
    rw [hstart, List.drop_length]
    rfl
  | cons i ids ih =>
    obtain ⟨-, -, hstart, -, hrest⟩ := h
    rw [List.map_cons, List.flatten_cons, ih hrest, slice, hstart, ← List.drop_drop, List.take_append_drop]

theorem Linked.walk (h : Linked s prev start ids stop) (hn : ids.length ≤ n) : walk s n ids.head? = some ids := by
  induction ids generalizing prev start n with
  | nil => cases n <;> rfl
  | cons i ids ih =>
    obtain ⟨-, hnext, -, -, hrest⟩ := h
    cases n with
    | zero => cases hn
    | succ n =>
      rw [List.head?_cons, Segment.walk, hnext, ih hrest (Nat.le_of_succ_le_succ hn)]
      rfl

theorem Chain.length_le (h : Chain s ids stop) : ids.length ≤ s.length := by
  have hsub : ids ⊆ List.range s.length := fun i hi ↦ List.mem_range.mpr (lt_length (h.linked.size_pos hi))
  have hle := (h.nodup.subperm hsub).length_le
  rwa [List.length_range] at hle

theorem map_get (s : List Segment) : (List.range s.length).map (get s) = s := by
  refine List.ext_getElem (by rw [List.length_map, List.length_range]) fun i hi hi' ↦ ?_
  rw [List.getElem_map, List.getElem_range, get, List.getD_eq_getElem?_getD, List.getElem?_eq_getElem hi']
  rfl

/-- What is not empty, in the order of the indices, is the chain. -/
theorem Chain.filter_eq (h : Chain s ids stop) : s.filter (·.size > 0) = ids.map (get s) := by
  have hsorted : ((List.range s.length).filter fun i ↦ (get s i).size > 0).Pairwise (· < ·) :=
    List.pairwise_lt_range.sublist List.filter_sublist
  have hmem : ∀ i, i ∈ (List.range s.length).filter (fun i ↦ (get s i).size > 0) ↔ i ∈ ids := by
    intro i
    rw [List.mem_filter, List.mem_range, decide_eq_true_eq]
    refine ⟨fun hi ↦ h.mem hi.2.ne', fun hi ↦ ?_⟩
    have hpos := h.linked.size_pos hi
    exact ⟨lt_length hpos, hpos⟩
  have hperm := (List.perm_ext_iff_of_nodup (hsorted.imp fun hlt ↦ hlt.ne) h.nodup).mpr hmem
  have hids := hperm.eq_of_pairwise (fun _ _ _ _ hab hba ↦ absurd hab hba.asymm) hsorted h.sorted
  conv_lhs => rw [← map_get s, List.filter_map]
  exact congrArg (List.map (get s)) hids

end Segment

/-! Merging as a queue asks for it -/

open Segment

/-- Which neighbours are candidates, and what is noted of each. A candidate may have become outdated
when its turn comes. -/
structure MergeRules (κ ρ : Type) where
  left : κ → ℕ
  right : κ → ℕ
  fresh : List Segment → κ → Bool
  find : List Segment → ℕ → ℕ → Option κ
  note : List Segment → κ → ρ → ρ

variable {κ ρ : Type} {below : κ → κ → Prop} {Q : PriorityQueue κ below}

structure Merging (Q : PriorityQueue κ below) (ρ : Type) where
  segments : List Segment
  queue : Q.Queue
  notes : ρ

namespace Merging

variable (R : MergeRules κ ρ)

def offer : Option ℕ → Option ℕ → Merging Q ρ → Merging Q ρ
  | some left, some right, m =>
    match R.find m.segments left right with
    | some c => { m with queue := Q.push c m.queue, notes := R.note m.segments c m.notes }
    | none => m
  | _, _, m => m

def outdated (m : Merging Q ρ) (c : κ) : Bool :=
  (get m.segments (R.left c)).size = 0 || (get m.segments (R.right c)).size = 0 || !R.fresh m.segments c

def join (c : κ) (m : Merging Q ρ) : Merging Q ρ :=
  let m := { m with segments := Segment.merge (R.left c) (R.right c) m.segments }
  let m := offer R (get m.segments (R.left c)).prev (some (R.left c)) m
  offer R (some (R.left c)) (get m.segments (R.left c)).next m

def step (m : Merging Q ρ) : Option (Merging Q ρ) :=
  match Q.pop m.queue with
  | none => none
  | some (c, queue) =>
    let m := { m with queue }
    if outdated R m c then some m else some (join R c m)

variable {R} {m m' : Merging Q ρ} {c : κ} {queue : Q.Queue}

theorem offer_cases (left right : Option ℕ) (m : Merging Q ρ) :
    offer R left right m = m ∨ ∃ l r c, left = some l ∧ right = some r ∧ R.find m.segments l r = some c ∧
      offer R left right m = { m with queue := Q.push c m.queue, notes := R.note m.segments c m.notes } := by
  cases left with
  | none => exact .inl rfl
  | some l =>
    cases right with
    | none => exact .inl rfl
    | some r =>
      cases hc : R.find m.segments l r with
      | none => exact .inl (by simp only [offer, hc])
      | some c => exact .inr ⟨l, r, c, rfl, rfl, hc, by simp only [offer, hc]⟩

theorem offer_segments (left right : Option ℕ) (m : Merging Q ρ) : (offer R left right m).segments = m.segments := by
  rcases offer_cases (R := R) left right m with h | ⟨l, r, c, -, -, -, h⟩ <;> rw [h]

theorem offer_size (left right : Option ℕ) (m : Merging Q ρ) :
    Q.size (offer R left right m).queue ≤ Q.size m.queue + 1 := by
  rcases offer_cases (R := R) left right m with h | ⟨l, r, c, -, -, -, h⟩
  · rw [h]
    exact Nat.le_succ _
  · rw [h, Q.size_eq, Q.size_eq, Q.items_push, Multiset.card_cons]

theorem join_segments (c : κ) (m : Merging Q ρ) :
    (join R c m).segments = Segment.merge (R.left c) (R.right c) m.segments := by
  rw [join, offer_segments, offer_segments]

/-- A step drops an outdated candidate or merges what the candidate asks for. -/
theorem step_cases (h : step R m = some m') : ∃ c queue, Q.pop m.queue = some (c, queue) ∧
    (m' = { m with queue } ∨ (get m.segments (R.left c)).size ≠ 0 ∧ (get m.segments (R.right c)).size ≠ 0 ∧
      R.fresh m.segments c ∧ m' = join R c { m with queue }) := by
  unfold step at h
  split at h
  · cases h
  · rename_i c queue hpop
    refine ⟨c, queue, hpop, ?_⟩
    dsimp only at h
    split at h
    · exact .inl (Option.some.inj h).symm
    · rename_i hnot
      simp only [outdated, Bool.or_eq_true, decide_eq_true_eq, Bool.not_eq_true', not_or, Bool.not_eq_false] at hnot
      exact .inr ⟨hnot.1.1, hnot.1.2, hnot.2, (Option.some.inj h).symm⟩

def measure (m : Merging Q ρ) : ℕ := 3 * live m.segments + Q.size m.queue

theorem step_measure (h : step R m = some m') : measure m' < measure m := by
  obtain ⟨c, queue, hpop, rfl | ⟨hleft, hright, -, rfl⟩⟩ := step_cases h
  · rw [measure, measure, Q.size_pop hpop]
    exact Nat.lt_succ_self _
  · have hlive := live_merge hleft hright
    have hqueue : Q.size (join R c { m with queue }).queue ≤ Q.size queue + 2 := by
      unfold join
      exact (offer_size _ _ _).trans (Nat.succ_le_succ (offer_size _ _ _))
    rw [measure, measure, Q.size_pop hpop, join_segments]
    dsimp only
    omega

variable (R) in
/-- All neighbours are offered first. -/
def seed (segments : List Segment) (notes : ρ) : Merging Q ρ :=
  (List.range (segments.length - 1)).foldl (fun m i ↦ m.offer R (some i) (some (i + 1))) ⟨segments, Q.empty, notes⟩

variable (R) in
/-- Candidates are taken from the queue until it is empty. -/
def exhaust (m : Merging Q ρ) : Merging Q ρ :=
  match _h : step R m with
  | none => m
  | some m' => exhaust m'
termination_by measure m
decreasing_by exact step_measure _h

theorem exhaust_none (h : step R m = none) : exhaust R m = m := by
  rw [exhaust]
  split
  · rfl
  · rename_i hstep
    rw [h] at hstep
    cases hstep

theorem exhaust_some (h : step R m = some m') : exhaust R m = exhaust R m' := by
  rw [exhaust]
  split
  · rename_i hstep
    rw [h] at hstep
    cases hstep
  · rename_i hstep
    rw [h] at hstep
    cases hstep
    rfl

theorem exhaust_invariant {I : Merging Q ρ → Prop} (hkeep : ∀ m m', I m → step R m = some m' → I m') (h : I m) :
    I (exhaust R m) := by
  induction hn : measure m using Nat.strong_induction_on generalizing m with
  | h n ih =>
    cases hstep : step R m with
    | none => rwa [exhaust_none hstep]
    | some m' =>
      rw [exhaust_some hstep]
      exact ih _ (hn ▸ step_measure hstep) (hkeep m m' h hstep) rfl

/-! What merging keeps -/

/-- A candidate names the segments it was found for. Good neighbours that it joins while it is fresh
become a good segment. -/
structure Sound (R : MergeRules κ ρ) (good : ℕ → ℕ → Prop) : Prop where
  ends : ∀ s l r c, R.find s l r = some c → R.left c = l ∧ R.right c = r
  good : ∀ s s' l r c, (∀ i, (get s' i).start = (get s i).start) → R.find s l r = some c → R.fresh s' c →
    (get s' r).start = (get s' l).start + (get s' l).size → good (get s' l).start (get s' l).size →
    good (get s' r).start (get s' r).size → good (get s' l).start ((get s' l).size + (get s' r).size)

variable (R) in
def FoundFor (s : List Segment) (c : κ) : Prop :=
  ∃ s₀, (∀ i, (get s i).start = (get s₀ i).start) ∧ R.find s₀ (R.left c) (R.right c) = some c

variable (R) in
/-- Whoever is still there of the two segments of a candidate is the neighbour of the other one.
Every segment comes from the cut or from a merge. -/
structure Inv (good : ℕ → ℕ → Prop) (head : Option ℕ) (stop : ℕ) (m : Merging Q ρ) : Prop where
  chain : ∃ ids, Chain m.segments ids stop ∧ ids.head? = head
  adjacent : ∀ c ∈ Q.items m.queue, (get m.segments (R.left c)).size ≠ 0 → (get m.segments (R.right c)).size ≠ 0 →
    (get m.segments (R.left c)).next = some (R.right c)
  found : ∀ c ∈ Q.items m.queue, FoundFor R m.segments c
  good : ∀ i, (get m.segments i).size ≠ 0 → good (get m.segments i).start (get m.segments i).size

variable {good : ℕ → ℕ → Prop} {head left right : Option ℕ} {stop : ℕ}

theorem Inv.of_queue (h : Inv R good head stop m) (hqueue : ∀ c ∈ Q.items queue, c ∈ Q.items m.queue) (notes : ρ) :
    Inv R good head stop ⟨m.segments, queue, notes⟩ :=
  ⟨h.chain, fun c hc ↦ h.adjacent c (hqueue c hc), fun c hc ↦ h.found c (hqueue c hc), h.good⟩

theorem Inv.offer (hR : Sound R good) (h : Inv R good head stop m)
    (hnext : ∀ l r, left = some l → right = some r → (get m.segments l).size ≠ 0 → (get m.segments r).size ≠ 0 →
      (get m.segments l).next = some r) :
    Inv R good head stop (offer R left right m) := by
  rcases offer_cases (R := R) left right m with heq | ⟨l, r, c, rfl, rfl, hfind, heq⟩
  · rwa [heq]
  · obtain ⟨hl, hr⟩ := hR.ends _ _ _ _ hfind
    rw [heq]
    refine ⟨h.chain, ?_, ?_, h.good⟩
    · intro d hd
      rw [Q.items_push, Multiset.mem_cons] at hd
      rcases hd with rfl | hd
      · rw [hl, hr]
        exact hnext l r rfl rfl
      · exact h.adjacent d hd
    · intro d hd
      rw [Q.items_push, Multiset.mem_cons] at hd
      rcases hd with rfl | hd
      · exact ⟨m.segments, fun _ ↦ rfl, by rwa [hl, hr]⟩
      · exact h.found d hd

/-- The candidate is no longer in the queue when its segments are merged. -/
theorem Inv.merge (hR : Sound R good) (h : Inv R good head stop m) (hpop : Q.pop m.queue = some (c, queue))
    (hleft : (get m.segments (R.left c)).size ≠ 0) (hright : (get m.segments (R.right c)).size ≠ 0)
    (hfresh : R.fresh m.segments c) :
    Inv R good head stop ⟨Segment.merge (R.left c) (R.right c) m.segments, queue, m.notes⟩ := by
  have hitems := (Q.pop_some _ _ _ hpop).1
  have hc : c ∈ Q.items m.queue := by
    rw [hitems]
    exact Multiset.mem_cons_self _ _
  have hrest : ∀ d ∈ Q.items queue, d ∈ Q.items m.queue := by
    intro d hd
    rw [hitems]
    exact Multiset.mem_cons_of_mem hd
  obtain ⟨ids, hchain, hhead⟩ := h.chain
  have hnext := h.adjacent c hc hleft hright
  obtain ⟨xs, ys, rfl⟩ := hchain.linked.next_eq (hchain.mem hleft) hnext
  obtain ⟨s₀, hstart, hfind⟩ := h.found c hc
  have hget := hchain.get_merge
  have hne : R.left c ≠ R.right c := by
    intro heq
    have hnodup := hchain.nodup
    simp [heq, List.nodup_append] at hnodup
  refine ⟨⟨_, hchain.merge, ?_⟩, ?_, ?_, ?_⟩
  · rw [← hhead]
    cases xs <;> rfl
  · intro d hd hdl hdr
    dsimp only at hdl hdr ⊢
    rw [hget] at hdl hdr
    obtain ⟨-, hdleft⟩ := size_of_merged hne hleft hdl
    obtain ⟨hr, hdright⟩ := size_of_merged hne hleft hdr
    have hdnext := h.adjacent d (hrest d hd) hdleft hdright
    have hlc : R.left d ≠ R.left c := by
      intro heq
      rw [heq, hnext] at hdnext
      exact hr (Option.some.inj hdnext).symm
    rw [hget, merged_next, if_neg hlc, hdnext]
  · intro d hd
    obtain ⟨s₁, hstart₁, hfind₁⟩ := h.found d (hrest d hd)
    exact ⟨s₁, fun i ↦ (start_merge i).trans (hstart₁ i), hfind₁⟩
  · intro i hi
    dsimp only at hi ⊢
    rw [hget] at hi
    obtain ⟨hir, hi⟩ := size_of_merged hne hleft hi
    rw [start_merge, hget, merged_size, if_neg hir]
    split
    · rename_i heq
      rw [heq]
      obtain ⟨p, n, hlinked⟩ := hchain.linked.suffix
      refine hR.good s₀ m.segments _ _ c hstart hfind hfresh ?_ (h.good _ hleft) (h.good _ hright)
      rw [hlinked.2.2.1, hlinked.2.2.2.2.2.2.1]
    · exact h.good i hi

theorem Inv.step (hR : Sound R good) (h : Inv R good head stop m) (hstep : step R m = some m') :
    Inv R good head stop m' := by
  obtain ⟨c, queue, hpop, rfl | ⟨hleft, hright, hfresh, rfl⟩⟩ := step_cases hstep
  · refine h.of_queue (fun d hd ↦ ?_) m.notes
    rw [(Q.pop_some _ _ _ hpop).1]
    exact Multiset.mem_cons_of_mem hd
  · have hmerge := h.merge hR hpop hleft hright hfresh
    refine (hmerge.offer hR fun l r hl hr hlsize hrsize ↦ ?_).offer hR fun l r hl hr _ _ ↦ ?_
    · cases hr
      obtain ⟨ids, hchain, -⟩ := hmerge.chain
      exact hchain.next_of_prev (hchain.mem hrsize) hl
    · cases hl
      exact hr

theorem Inv.exhaust (hR : Sound R good) (h : Inv R good head stop m) : Inv R good head stop (exhaust R m) :=
  exhaust_invariant (fun _ _ hm hstep ↦ hm.step hR hstep) h

theorem seed_inv (hR : Sound R good) {sizes : List ℕ} (hpos : ∀ n ∈ sizes, 0 < n)
    (hgood : ∀ i, (get (cut sizes) i).size ≠ 0 → good (get (cut sizes) i).start (get (cut sizes) i).size) (notes : ρ) :
    Inv R good (List.range sizes.length).head? sizes.sum (seed R (cut sizes) notes : Merging Q ρ) := by
  have hempty : ∀ c, c ∉ Q.items Q.empty := by
    intro c
    rw [Q.items_empty]
    exact Multiset.notMem_zero c
  refine (List.foldlRecOn (motive := fun m : Merging Q ρ ↦ m.segments = cut sizes ∧
    Inv R good (List.range sizes.length).head? sizes.sum m) _ _ ⟨rfl, ?_⟩ ?_).2
  · exact ⟨⟨_, chain_cut hpos, rfl⟩, fun c hc ↦ absurd hc (hempty c), fun c hc ↦ absurd hc (hempty c), hgood⟩
  · rintro m ⟨hsegments, hinv⟩ i hi
    refine ⟨(offer_segments _ _ m).trans hsegments, hinv.offer hR fun l r hl hr _ _ ↦ ?_⟩
    cases hl
    cases hr
    rw [List.mem_range, cut, length_cutFrom] at hi
    rw [hsegments, cut, next_cutFrom none 0 0 (Nat.add_lt_of_lt_sub hi), Nat.zero_add]

/-- What every candidate's note keeps holds of the notes. -/
theorem notes_invariant {N : ρ → Prop}
    (hnote : ∀ s l r c notes, R.find s l r = some c → N notes → N (R.note s c notes))
    (segments : List Segment) {notes : ρ} (h : N notes) :
    N (exhaust R (seed R segments notes : Merging Q ρ)).notes := by
  have hoffer : ∀ left right (m : Merging Q ρ), N m.notes → N (offer R left right m).notes := by
    intro left right m hm
    rcases offer_cases (R := R) left right m with heq | ⟨l, r, c, -, -, hfind, heq⟩
    · rwa [heq]
    · rw [heq]
      exact hnote _ _ _ _ _ hfind hm
  refine exhaust_invariant (I := fun m ↦ N m.notes) (fun m m' hm hstep ↦ ?_) ?_
  · obtain ⟨c, queue, -, rfl | ⟨-, -, -, rfl⟩⟩ := step_cases hstep
    · exact hm
    · exact hoffer _ _ _ (hoffer _ _ _ hm)
  · exact List.foldlRecOn (motive := fun m : Merging Q ρ ↦ N m.notes) _ _ h fun m hm i _ ↦ hoffer _ _ m hm

end Merging

end Collections
