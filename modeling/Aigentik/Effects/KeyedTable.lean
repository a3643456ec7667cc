import Mathlib.Data.List.Perm.Basic

/-! A table of rows in which an insertion replaces the row with the same key. -/

namespace Aigentik.KeyedTable

open scoped List

variable {α β κ : Type} [DecidableEq κ] {key : α → κ} {x y : α} {rows rows' : List α}

def replace (key : α → κ) (x : α) (rows : List α) : List α := rows.filter (fun y ↦ key y ≠ key x) ++ [x]

theorem nodup_replace (h : (rows.map key).Nodup) : ((replace key x rows).map key).Nodup := by
  rw [replace, List.map_append, List.nodup_append]
  refine ⟨h.sublist (List.filter_sublist.map key), List.pairwise_singleton _ _, ?_⟩
  intro k hk k' hk' heq
  obtain ⟨y, hy, rfl⟩ := List.mem_map.mp hk
  have hne : key y ≠ key x := by simpa using (List.mem_filter.mp hy).2
  rw [List.map_singleton, List.mem_singleton] at hk'
  exact hne (heq.trans hk')

theorem map_replace {key' : β → κ} {f : α → β} (hf : ∀ y, key' (f y) = key y) :
    (replace key x rows).map f = replace key' (f x) (rows.map f) := by
  simp only [replace, List.map_append, List.map_singleton, List.filter_map, Function.comp_def, hf]

theorem replace_perm (h : rows.Perm rows') : (replace key x rows).Perm (replace key x rows') :=
  (h.filter _).append_right _

theorem filter_of_fresh (h : key x ∉ rows.map key) : rows.filter (fun y ↦ key y ≠ key x) = rows := by
  rw [List.filter_eq_self]
  intro y hy
  have hne : key y ≠ key x := fun heq ↦ h (heq ▸ List.mem_map_of_mem hy)
  exact decide_eq_true hne

theorem replace_of_fresh (h : key x ∉ rows.map key) : replace key x rows = rows ++ [x] := by
  rw [replace, filter_of_fresh h]

theorem replace_perm_set {i : ℕ} (hrows : (rows.map key).Nodup) (hi : rows[i]? = some y) (hkey : key x = key y) :
    (replace key x rows).Perm (rows.set i x) := by
  obtain ⟨hlength, rfl⟩ := List.getElem?_eq_some_iff.mp hi
  have hperm : (rows[i] :: rows.eraseIdx i).Perm rows := List.getElem_cons_eraseIdx_perm hlength
  have hfresh : key x ∉ (rows.eraseIdx i).map key := by
    have hnodup := (hperm.map key).nodup_iff.mpr hrows
    rw [List.map_cons, List.nodup_cons] at hnodup
    rw [hkey]
    exact hnodup.1
  calc replace key x rows
    _ ~ replace key x (rows[i] :: rows.eraseIdx i) := replace_perm hperm.symm
    _ = rows.eraseIdx i ++ [x] := by
      have hold : decide (key rows[i] ≠ key x) = false := by simp [hkey]
      rw [replace, List.filter_cons_of_neg (by rw [hold]; exact Bool.false_ne_true), filter_of_fresh hfresh]
    _ ~ x :: rows.eraseIdx i := List.perm_append_singleton x _
    _ ~ rows.set i x := (List.set_perm_cons_eraseIdx hlength x).symm

end Aigentik.KeyedTable
