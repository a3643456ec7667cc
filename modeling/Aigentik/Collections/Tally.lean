import Mathlib.Data.Finset.Card
import Mathlib.Data.Finset.Erase
import Mathlib.Data.Finset.Insert
import Mathlib.Data.Finset.Range
import Mathlib.Data.Finset.Filter
import Mathlib.Data.Multiset.AddSub
import Mathlib.Algebra.BigOperators.Group.List.Basic
import Mathlib.Algebra.Order.Group.Multiset

/-! What is counted and marked of the entries of a table, kept beside the table and updated with each of its entries. -/

namespace Collections

variable {α β : Type} {table : List α} {a b : α} {i : ℕ}

section Tally

variable (f : α → Multiset β)

/-- What all entries contribute. -/
def tally (table : List α) : Multiset β := (table.map f).sum

theorem mem_tally {x : β} : x ∈ tally f table ↔ ∃ a ∈ table, x ∈ f a := by
  induction table with
  | nil => simp [tally]
  | cons a table ih =>
    rw [tally, List.map_cons, List.sum_cons, Multiset.mem_add, List.exists_mem_cons_iff]
    exact or_congr_right ih

/-- The contribution of an entry is exchanged with the entry. -/
theorem tally_set (h : table[i]? = some a) (b : α) : tally f (table.set i b) + f a = tally f table + f b := by
  induction table generalizing i with
  | nil => cases h
  | cons c table ih =>
    cases i with
    | zero =>
      obtain rfl : c = a := Option.some.inj h
      rw [List.set_cons_zero, tally, tally, List.map_cons, List.map_cons, List.sum_cons, List.sum_cons,
        add_right_comm, add_comm (f b), add_assoc, add_comm (f b), ← add_assoc, add_comm (f c)]
    | succ i =>
      have hrest := ih h
      rw [tally, tally] at hrest
      rw [List.set_cons_succ, tally, tally, List.map_cons, List.map_cons, List.sum_cons, List.sum_cons, add_assoc, hrest,
        add_assoc]

theorem tally_map (g : α → α) (table : List α) : tally f (table.map g) = tally (fun a ↦ f (g a)) table := by
  rw [tally, List.map_map]
  rfl

end Tally

section Marked

variable (p : α → Bool)

/-- The indices of the entries with a property. -/
def marked (table : List α) : Finset ℕ := (Finset.range table.length).filter fun i ↦ (table[i]?).any p

theorem mem_marked : i ∈ marked p table ↔ ∃ a, table[i]? = some a ∧ p a := by
  rw [marked, Finset.mem_filter, Finset.mem_range, Option.any_eq_true]
  refine ⟨fun h ↦ h.2, fun h ↦ ⟨?_, h⟩⟩
  obtain ⟨a, ha, -⟩ := h
  exact (List.getElem?_eq_some_iff.mp ha).1

theorem marked_set (hi : i < table.length) (b : α) :
    marked p (table.set i b) = if p b then insert i (marked p table) else (marked p table).erase i := by
  ext j
  rw [mem_marked, List.getElem?_set]
  by_cases hij : i = j
  · subst hij
    rw [if_pos rfl, if_pos hi]
    split
    · rename_i hp
      exact iff_of_true ⟨b, rfl, hp⟩ (Finset.mem_insert_self _ _)
    · rename_i hp
      refine iff_of_false (fun h ↦ ?_) (Finset.notMem_erase _ _)
      obtain ⟨b', hb', hp'⟩ := h
      cases hb'
      exact hp hp'
  · rw [if_neg hij, ← mem_marked]
    split
    · rw [Finset.mem_insert, or_iff_right (Ne.symm hij)]
    · rw [Finset.mem_erase, and_iff_right (Ne.symm hij)]

theorem marked_map (g : α → α) (table : List α) : marked p (table.map g) = marked (fun a ↦ p (g a)) table := by
  ext i
  rw [mem_marked, mem_marked, List.getElem?_map]
  simp only [Option.map_eq_some_iff, exists_exists_and_eq_and]

theorem card_marked (table : List α) : (marked p table).card = table.countP p := by
  induction table using List.reverseRecOn with
  | nil => rfl
  | append_singleton table a ih =>
    have hbefore : ∀ i ∈ Finset.range table.length, ((table ++ [a])[i]?).any p = (table[i]?).any p := by
      intro i hi
      rw [List.getElem?_append_left (Finset.mem_range.mp hi)]
    have hlast : (table ++ [a])[table.length]? = some a := List.getElem?_concat_length
    rw [List.countP_append, ← ih, marked, marked, List.length_append, List.length_singleton, Finset.range_add_one,
      Finset.filter_insert, Finset.filter_congr fun i hi ↦ by rw [hbefore i hi], hlast]
    rw [Option.any_some, List.countP_singleton]
    split
    · refine Finset.card_insert_of_notMem fun hmem ↦ ?_
      exact absurd (Finset.mem_range.mp (Finset.mem_filter.mp hmem).1) (lt_irrefl _)
    · rfl

end Marked

/-! A loop over all entries -/

section Sweep

variable {S : Type} (entries : S → List α) (I : S → Prop) {op : ℕ → S → S} (g : α → α)

/-- A loop that replaces one entry after the other, and keeps all else in order, maps the table. Each entry is what it
was when its turn comes. -/
theorem foldl_range_map {s : S} (hs : I s)
    (hop : ∀ i s', I s' → i < (entries s').length → (entries s')[i]? = (entries s)[i]? →
      I (op i s') ∧ entries (op i s') = (entries s').modify i g) :
    I ((List.range (entries s).length).foldl (fun s i ↦ op i s) s) ∧
      entries ((List.range (entries s).length).foldl (fun s i ↦ op i s) s) = (entries s).map g := by
  have hsweep : ∀ n ≤ (entries s).length, I ((List.range n).foldl (fun s i ↦ op i s) s) ∧
      ∀ j, (entries ((List.range n).foldl (fun s i ↦ op i s) s))[j]? =
        (entries s)[j]?.map fun a ↦ if j < n then g a else a := by
    intro n hn
    induction n with
    | zero => exact ⟨hs, fun j ↦ by simp⟩
    | succ n ih =>
      obtain ⟨hI, htable⟩ := ih (Nat.le_of_succ_le hn)
      have hlt : n < (entries ((List.range n).foldl (fun s i ↦ op i s) s)).length := by
        refine lt_of_not_ge fun hge ↦ ?_
        have hnone := htable n
        rw [List.getElem?_eq_none hge, List.getElem?_eq_getElem hn] at hnone
        cases hnone
      have hkept := htable n
      simp only [if_neg (lt_irrefl n), Option.map_id'] at hkept
      obtain ⟨hI', htable'⟩ := hop n _ hI hlt hkept
      rw [List.range_succ, List.foldl_append, List.foldl_cons, List.foldl_nil]
      refine ⟨hI', fun j ↦ ?_⟩
      rw [htable', List.getElem?_modify, htable, Option.map_eq_map, Option.map_map]
      refine congrArg (fun f ↦ Option.map f _) (funext fun a ↦ ?_)
      rw [Function.comp_apply]
      rcases lt_trichotomy j n with hj | rfl | hj
      · rw [if_neg hj.ne', if_pos hj, if_pos (Nat.lt_succ_of_lt hj)]
      · rw [if_pos rfl, if_neg (lt_irrefl j), if_pos (Nat.lt_succ_self j)]
      · rw [if_neg hj.ne, if_neg hj.not_gt, if_neg (not_lt.mpr hj)]
  obtain ⟨hI, htable⟩ := hsweep _ le_rfl
  refine ⟨hI, List.ext_getElem? fun j ↦ ?_⟩
  rw [htable, List.getElem?_map]
  rcases lt_or_ge j (entries s).length with hj | hj
  · simp only [if_pos hj]
  · rw [List.getElem?_eq_none hj]
    rfl

end Sweep

end Collections
