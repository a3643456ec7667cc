import Mathlib.Data.Int.Notation
import Mathlib.Data.List.Nodup
import Mathlib.Tactic.Basic

/-! Tables whose rows are numbered as they are inserted, and references between them. -/

namespace Aigentik.NumberedTable

class Row (ρ : Type) where
  num : ρ → ℤ
  withNum : ρ → ℤ → ρ
  num_withNum : ∀ x i, num (withNum x i) = i

open Row

/-- A number is not given again after its row has gone. -/
structure Table (ρ : Type) [Row ρ] where
  rows : List ρ
  last : ℕ
  distinct : (rows.map num).Nodup
  numbered : ∀ x ∈ rows, 0 < num x ∧ num x ≤ last

variable {ρ σ : Type} [Row ρ] [Row σ]

namespace Table

def empty : Table ρ := ⟨[], 0, List.nodup_nil, fun _ h ↦ (List.not_mem_nil h).elim⟩

variable (t : Table ρ)

def Has (i : ℤ) : Prop := ∃ x ∈ t.rows, num x = i

instance (i : ℤ) : Decidable (t.Has i) := inferInstanceAs (Decidable (∃ x ∈ t.rows, num x = i))

def insert (x : ρ) : Table ρ where
  rows := t.rows ++ [withNum x (t.last + 1)]
  last := t.last + 1
  distinct := by
    rw [List.map_append, List.nodup_append]
    refine ⟨t.distinct, List.nodup_singleton _, ?_⟩
    intro i hi j hj heq
    subst heq
    obtain ⟨y, hy, rfl⟩ := List.mem_map.mp hi
    have hlast := (t.numbered y hy).2
    simp only [List.map_singleton, List.mem_singleton, num_withNum] at hj
    omega
  numbered := by
    intro y hy
    rcases List.mem_append.mp hy with hy | hy
    · have := t.numbered y hy
      omega
    · rw [List.mem_singleton.mp hy, num_withNum]
      omega

/-- Changes rows, but not their numbers. -/
def modify (f : ρ → ρ) (hf : ∀ x, num (f x) = num x) : Table ρ where
  rows := t.rows.map f
  last := t.last
  distinct := by
    have same : num ∘ f = num := funext hf
    rw [List.map_map, same]
    exact t.distinct
  numbered := by
    intro y hy
    obtain ⟨x, hx, rfl⟩ := List.mem_map.mp hy
    rw [hf]
    exact t.numbered x hx

/-- Replaces the row with the number of `x`, if there is one. -/
def update (x : ρ) : Table ρ := t.modify (fun y ↦ if num y = num x then x else y) fun y ↦ by
  by_cases h : num y = num x <;> simp [h]

def delete (p : ρ → Bool) : Table ρ where
  rows := t.rows.filter fun x ↦ !p x
  last := t.last
  distinct := t.distinct.sublist (List.filter_sublist.map num)
  numbered x hx := t.numbered x (List.mem_filter.mp hx).1

def find (i : ℤ) : Option ρ := t.rows.find? fun x ↦ num x = i

variable {t} {x y : ρ} {i : ℤ}

theorem ext_rows {t' : Table ρ} (hrows : t.rows = t'.rows) (hlast : t.last = t'.last) : t = t' := by
  cases t
  cases t'
  cases hrows
  cases hlast
  rfl

theorem eq_of_num (hx : x ∈ t.rows) (hy : y ∈ t.rows) (h : num x = num y) : x = y :=
  List.inj_on_of_nodup_map t.distinct hx hy h

theorem find_eq_some : t.find i = some x ↔ x ∈ t.rows ∧ num x = i := by
  constructor
  · intro h
    exact ⟨List.mem_of_find?_eq_some h, by simpa using List.find?_some h⟩
  · intro h'
    obtain ⟨hx, rfl⟩ := h'
    cases hfind : t.find (num x) with
    | none => exact absurd hx fun hx ↦ by simpa using List.find?_eq_none.mp hfind x hx
    | some y =>
      have hy : num y = num x := by simpa using List.find?_some hfind
      rw [eq_of_num (List.mem_of_find?_eq_some hfind) hx hy]

theorem find_update (h : t.find (num x) = some y) : (t.update x).find (num x) = some x := by
  obtain ⟨hy, hnum⟩ := find_eq_some.mp h
  exact find_eq_some.mpr ⟨List.mem_map.mpr ⟨y, hy, if_pos hnum⟩, rfl⟩

theorem Has.insert (h : t.Has i) (x : ρ) : (t.insert x).Has i := by
  obtain ⟨y, hy, hi⟩ := h
  exact ⟨y, List.mem_append_left _ hy, hi⟩

theorem has_insert : (t.insert x).Has i ↔ t.Has i ∨ i = t.last + 1 := by
  constructor
  · intro h'
    obtain ⟨y, hy, rfl⟩ := h'
    rcases List.mem_append.mp hy with hy | hy
    · exact .inl ⟨y, hy, rfl⟩
    · rw [List.mem_singleton.mp hy, num_withNum]
      exact .inr rfl
  · intro h'
    rcases h' with h | rfl
    · exact h.insert x
    · exact ⟨_, List.mem_append_right _ (List.mem_singleton_self _), num_withNum _ _⟩

theorem rows_update_insert (hy : num y = t.last + 1) : ((t.insert x).update y).rows = t.rows ++ [y] := by
  have hold : t.rows.map (fun z ↦ if num z = num y then y else z) = t.rows := by
    refine (List.map_congr_left fun z hz ↦ if_neg ?_).trans (List.map_id _)
    have hlast := (t.numbered z hz).2
    omega
  change (t.rows ++ [withNum x (t.last + 1)]).map (fun z ↦ if num z = num y then y else z) = _
  rw [List.map_append, hold, List.map_singleton, num_withNum, if_pos hy.symm]

theorem has_modify {f : ρ → ρ} (hf : ∀ x, num (f x) = num x) : (t.modify f hf).Has i ↔ t.Has i := by
  constructor
  · intro h
    obtain ⟨y, hy, hi⟩ := h
    obtain ⟨x, hx, rfl⟩ := List.mem_map.mp hy
    exact ⟨x, hx, (hf x).symm.trans hi⟩
  · intro h
    obtain ⟨x, hx, hi⟩ := h
    exact ⟨f x, List.mem_map_of_mem hx, (hf x).trans hi⟩

theorem has_delete {p : ρ → Bool} : (t.delete p).Has i ↔ ∃ x ∈ t.rows, p x = false ∧ num x = i := by
  simp only [Has, delete, List.mem_filter, Bool.not_eq_true', and_assoc]

end Table

/-! References: `ref x` is the number that a row refers to, if it refers to one. -/

def Refers (ref : σ → Option ℤ) (t : Table σ) (u : Table ρ) : Prop := ∀ x ∈ t.rows, ∀ i ∈ ref x, u.Has i

variable {ref : σ → Option ℤ} {t : Table σ} {u : Table ρ}

theorem refers_insert {x : σ} : Refers ref (t.insert x) u ↔
    Refers ref t u ∧ ∀ i ∈ ref (withNum x (t.last + 1)), u.Has i := by
  simp only [Refers, Table.insert, List.mem_append, List.mem_singleton, or_imp, forall_and, forall_eq]

theorem refers_modify {f : σ → σ} (hf : ∀ x, num (f x) = num x) : Refers ref (t.modify f hf) u ↔
    ∀ x ∈ t.rows, ∀ i ∈ ref (f x), u.Has i := by
  simp only [Refers, Table.modify, List.forall_mem_map]

theorem refers_update {x : σ} (h : Refers ref t u) : Refers ref (t.update x) u ↔
    (t.Has (num x) → ∀ i ∈ ref x, u.Has i) := by
  rw [Table.update, refers_modify]
  constructor
  · intro hall h'
    obtain ⟨y, hy, hnum⟩ := h'
    have := hall y hy
    rwa [if_pos hnum] at this
  · intro hx y hy
    by_cases hnum : num y = num x
    · rw [if_pos hnum]
      exact hx ⟨y, hy, hnum⟩
    · rw [if_neg hnum]
      exact h y hy

theorem Refers.delete (h : Refers ref t u) (p : σ → Bool) : Refers ref (t.delete p) u :=
  fun x hx ↦ h x (List.mem_filter.mp hx).1

theorem Refers.insert_target (h : Refers ref t u) (x : ρ) : Refers ref t (u.insert x) :=
  fun y hy i hi ↦ (h y hy i hi).insert x

theorem refers_modify_target {f : ρ → ρ} (hf : ∀ x, num (f x) = num x) :
    Refers ref t (u.modify f hf) ↔ Refers ref t u := by
  simp only [Refers, Table.has_modify]

theorem refers_update_target {x : ρ} : Refers ref t (u.update x) ↔ Refers ref t u :=
  refers_modify_target _

/-- Rows may be deleted if and only if none of them is referred to. -/
theorem refers_delete_target {p : ρ → Bool} (h : Refers ref t u) : Refers ref t (u.delete p) ↔
    ∀ y ∈ u.rows, p y = true → ∀ x ∈ t.rows, ref x ≠ some (num y) := by
  constructor
  · intro hdel y hy hp x hx href
    obtain ⟨z, hz, hkept, hnum⟩ := Table.has_delete.mp (hdel x hx _ href)
    rw [Table.eq_of_num hz hy hnum, hp] at hkept
    cases hkept
  · intro hfree x hx i hi
    obtain ⟨y, hy, rfl⟩ := h x hx i hi
    refine Table.has_delete.mpr ⟨y, hy, ?_, rfl⟩
    by_contra hp
    exact hfree y hy (by simpa using hp) x hx hi

end Aigentik.NumberedTable
