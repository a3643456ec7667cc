import Mathlib.Data.Nat.Init
import Mathlib.Data.List.Basic

/-! The first few values of sequences that are not defined everywhere. -/

namespace Collections

variable {α : Type} {f g : ℕ → Option α} {k m n : ℕ} {x : α}

/-- The values at the places from `k` on, as many as `m`. -/
def valuesFrom (f : ℕ → Option α) (k m : ℕ) : List α := (List.range' k m).filterMap f

theorem valuesFrom_succ : valuesFrom f k (m + 1) = (f k).toList ++ valuesFrom f (k + 1) m := by
  rw [valuesFrom, List.range'_succ, List.filterMap_cons]
  cases f k <;> rfl

theorem valuesFrom_snoc : valuesFrom f 0 (m + 1) = valuesFrom f 0 m ++ (f m).toList := by
  rw [valuesFrom, List.range'_concat, List.filterMap_append, Nat.one_mul, Nat.zero_add]
  cases hm : f m <;> simp [hm, valuesFrom]

/-- Nothing is added by places without a value. -/
theorem valuesFrom_of_none (h : ∀ j, k ≤ j → f j = none) (hkm : k ≤ m) : valuesFrom f 0 m = valuesFrom f 0 k := by
  induction m, hkm using Nat.le_induction with
  | base => rfl
  | succ m hkm ih => rw [valuesFrom_snoc, h m hkm, ih, Option.toList_none, List.append_nil]

theorem valuesFrom_eq_nil (h : ∀ j < m, f j = none) : valuesFrom f 0 m = [] := by
  refine List.filterMap_eq_nil_iff.mpr fun j hj ↦ h j ?_
  have hlt := (List.mem_range'_1.mp hj).2
  rwa [Nat.zero_add] at hlt

theorem valuesFrom_isPrefix (hkm : k ≤ m) : valuesFrom f 0 k <+: valuesFrom f 0 m := by
  induction m, hkm using Nat.le_induction with
  | base => exact List.prefix_rfl
  | succ m hkm ih =>
    rw [valuesFrom_snoc]
    exact ih.trans (List.prefix_append _ _)

theorem exists_of_mem_valuesFrom (h : x ∈ valuesFrom f k m) : ∃ j, k ≤ j ∧ f j = some x := by
  obtain ⟨j, hj, hx⟩ := List.mem_filterMap.mp h
  exact ⟨j, (List.mem_range'_1.mp hj).1, hx⟩

/-- A value that both sequences have is had by the first one as soon as by the second, and not sooner. -/
def Aligned (f g : ℕ → Option α) : Prop :=
  ∀ a b, a < b → ∀ x, (f a = some x → g b ≠ some x) ∧ (g a = some x → f b = some x → f a = some x)

theorem take_valuesFrom_eq_iff (h : Aligned f g) (k m n : ℕ) :
    (valuesFrom f k m).take n = (valuesFrom g k m).take n ↔
      ∀ j < m, (valuesFrom g k j).length < n → f (k + j) = g (k + j) := by
  induction m generalizing k n with
  | zero => simp [valuesFrom]
  | succ m ih =>
    have hsplit : (∀ j < m + 1, (valuesFrom g k j).length < n → f (k + j) = g (k + j)) ↔
        (0 < n → f k = g k) ∧
          ∀ j < m, (g k).toList.length + (valuesFrom g (k + 1) j).length < n → f (k + 1 + j) = g (k + 1 + j) := by
      rw [Nat.forall_lt_succ_left]
      refine and_congr Iff.rfl (forall₂_congr fun j _ ↦ ?_)
      rw [valuesFrom_succ, List.length_append, Nat.add_right_comm k 1 j, Nat.add_assoc k j 1]
    rw [hsplit, valuesFrom_succ, valuesFrom_succ]
    cases n with
    | zero => simp
    | succ n =>
      cases hf : f k with
      | none =>
        cases hg : g k with
        | none => simpa using ih (k + 1) (n + 1)
        | some y =>
          refine iff_of_false (fun htake ↦ ?_) fun hall ↦ ?_
          · have hmem : y ∈ (valuesFrom f (k + 1) m).take (n + 1) := by
              rw [Option.toList_none, List.nil_append] at htake
              rw [htake]
              exact List.mem_cons_self
            obtain ⟨j, hj, hy⟩ := exists_of_mem_valuesFrom (List.mem_of_mem_take hmem)
            have hsooner := (h k j hj y).2 hg hy
            rw [hf] at hsooner
            cases hsooner
          · cases hall.1 (Nat.succ_pos n)
      | some x =>
        cases hg : g k with
        | none =>
          refine iff_of_false (fun htake ↦ ?_) fun hall ↦ ?_
          · have hmem : x ∈ (valuesFrom g (k + 1) m).take (n + 1) := by
              rw [Option.toList_none, List.nil_append] at htake
              rw [← htake]
              exact List.mem_cons_self
            obtain ⟨j, hj, hx⟩ := exists_of_mem_valuesFrom (List.mem_of_mem_take hmem)
            exact (h k j hj x).1 hf hx
          · cases hall.1 (Nat.succ_pos n)
        | some y =>
          simp only [Option.toList_some, List.singleton_append, List.take_succ_cons, List.cons.injEq, ih (k + 1) n,
            List.length_singleton, Nat.succ_pos, forall_const, Option.some.injEq]
          refine and_congr_right fun _ ↦ forall₂_congr fun j _ ↦ ?_
          rw [Nat.add_comm 1, Nat.add_lt_add_iff_right]

end Collections
