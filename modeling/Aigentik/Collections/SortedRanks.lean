import Mathlib.Data.List.Sort

/-! How many values of a sorted list lie below, and how many not above, the one at a place. -/

namespace Collections

variable {α : Type} [LinearOrder α] {l : List α} {i : ℕ}

theorem countP_lt_getElem_le (hl : l.SortedLE) (hi : i < l.length) : l.countP (· < l[i]) ≤ i := by
  have hdrop : (l.drop i).countP (· < l[i]) = 0 := by
    refine List.countP_eq_zero.mpr fun x hx ↦ ?_
    obtain ⟨k, hk, rfl⟩ := List.getElem_of_mem hx
    rw [List.length_drop] at hk
    have hle : l[i] ≤ l[i + k] := hl.getElem_le_getElem_of_le (Nat.le_add_right i k)
    simpa only [List.getElem_drop, decide_eq_true_eq, not_lt] using hle
  calc l.countP (· < l[i]) = (l.take i ++ l.drop i).countP (· < l[i]) := by rw [List.take_append_drop]
    _ = (l.take i).countP (· < l[i]) := by rw [List.countP_append, hdrop, Nat.add_zero]
    _ ≤ (l.take i).length := List.countP_le_length
    _ ≤ i := List.length_take_le i l

theorem lt_countP_le_getElem (hl : l.SortedLE) (hi : i < l.length) : i < l.countP (· ≤ l[i]) := by
  have htake : (l.take (i + 1)).countP (· ≤ l[i]) = (l.take (i + 1)).length := by
    refine List.countP_eq_length.mpr fun x hx ↦ ?_
    obtain ⟨k, hk, rfl⟩ := List.getElem_of_mem hx
    rw [List.length_take] at hk
    have hle : l[k] ≤ l[i] := hl.getElem_le_getElem_of_le (by omega)
    simpa only [List.getElem_take, decide_eq_true_eq] using hle
  have hle : (l.take (i + 1)).countP (· ≤ l[i]) ≤ l.countP (· ≤ l[i]) := (List.take_sublist (i + 1) l).countP_le
  rw [htake, List.length_take] at hle
  omega

end Collections
