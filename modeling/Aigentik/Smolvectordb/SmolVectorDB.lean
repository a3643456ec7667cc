import Aigentik.Smolvectordb.NearestNeighbor
import Mathlib.Data.List.FinRange
import Mathlib.Data.List.GetD

/-! The bridge: what its functions read of the arrays they are given. -/

namespace Aigentik.SmolVectorDB

open Collections Strings VectorDB

/-- The elements of a `FloatArray`, and what memory holds behind them. -/
structure NativeFloats (F : Type) where
  elements : List F
  behind : ℕ → F

def NativeFloats.read {F : Type} (native : NativeFloats F) (i : ℕ) : F :=
  native.elements.getD i (native.behind (i - native.elements.length))

/-- A result, and the indices that were read for it. -/
structure Reading (β : Type) where
  value : β
  reads : List ℕ

variable {F : Type}

def copyOne (native : NativeFloats F) (copy : Reading (Embedding F)) (i : Fin EMBEDDING_DIM) : Reading (Embedding F) :=
  ⟨Function.update copy.value i (native.read i), copy.reads ++ [i.val]⟩

/-- The loop that fills an array, which holds anything before. -/
def copyElements (native : NativeFloats F) (uninitialized : Embedding F) : Reading (Embedding F) :=
  (List.finRange EMBEDDING_DIM).foldl (copyOne native) ⟨uninitialized, []⟩

section Functions

variable [Zero F] [Add F] [Mul F] [Div F] (sqrt : F → F) (uninitialized : Embedding F)

def insertRecord (db : List (VectorDBRecord F)) (text : Str) (embedding : NativeFloats F) :
    Reading (List (VectorDBRecord F)) :=
  let embeddingArray := copyElements embedding uninitialized
  ⟨VectorDB.insertRecord db (VectorDB.record sqrt text embeddingArray.value), embeddingArray.reads⟩

variable [LinearOrder F] (Q : PriorityQueue (F × VectorDBRecord F) comparator)

/-- The query that is searched for, with the texts that are returned for it. -/
def nearestNeighbor (db : List (VectorDBRecord F)) (query : NativeFloats F) (k : Int32) :
    Reading (Embedding F × Option (List Str)) :=
  let queryArray := copyElements query uninitialized
  ⟨(queryArray.value, (VectorDB.nearestNeighbor sqrt Q db queryArray.value k).map (List.map VectorDBRecord.text)),
    queryArray.reads⟩

end Functions

/-- With any memory behind an array of length `n`, nothing of it is read, and nothing depends on it. -/
structure InBounds {β : Type} (run : (ℕ → F) → Reading β) (n : ℕ) : Prop where
  reads : ∀ behind, ∀ i ∈ (run behind).reads, i < n
  alone : ∀ behind behind', (run behind).value = (run behind').value

variable {native : NativeFloats F} {copy : Reading (Embedding F)} {uninitialized : Embedding F} {array : List F}

theorem foldl_copyOne (is : List (Fin EMBEDDING_DIM)) :
    (is.foldl (copyOne native) copy).reads = copy.reads ++ is.map Fin.val ∧
      ∀ j, (is.foldl (copyOne native) copy).value j = if j ∈ is then native.read j else copy.value j := by
  induction is generalizing copy with
  | nil => simp
  | cons i is ih =>
    obtain ⟨hreads, hvalue⟩ := @ih (copyOne native copy i)
    refine ⟨?_, fun j ↦ ?_⟩
    · rw [List.foldl_cons, hreads, copyOne, List.append_assoc]
      rfl
    · rw [List.foldl_cons, hvalue]
      by_cases hlater : j ∈ is
      · rw [if_pos hlater, if_pos (List.mem_cons_of_mem i hlater)]
      · rw [if_neg hlater]
        change Function.update copy.value i (native.read i) j = _
        by_cases hnow : j = i
        · subst hnow
          rw [Function.update_self, if_pos List.mem_cons_self]
        · rw [Function.update_of_ne hnow, if_neg (List.not_mem_cons_of_ne_of_not_mem hnow hlater)]

theorem copyElements_value : (copyElements native uninitialized).value = fun j : Fin EMBEDDING_DIM ↦ native.read j := by
  funext j
  rw [copyElements, (foldl_copyOne _).2, if_pos (List.mem_finRange j)]

theorem copyElements_reads : (copyElements native uninitialized).reads = List.range EMBEDDING_DIM := by
  rw [copyElements, (foldl_copyOne _).1, List.nil_append, List.map_coe_finRange_eq_range]

theorem read_of_lt {i : ℕ} (h : i < native.elements.length) : native.read i = native.elements[i] := by
  rw [NativeFloats.read, List.getD_eq_getElem _ _ h]

/-- A function that copies an array and goes on with the copy. -/
theorem inBounds_iff {β : Type} (run : (ℕ → F) → Reading β) (f : Embedding F → β)
    (hreads : ∀ behind, (run behind).reads = (copyElements ⟨array, behind⟩ uninitialized).reads)
    (hvalue : ∀ behind, (run behind).value = f (copyElements ⟨array, behind⟩ uninitialized).value) :
    InBounds run array.length ↔ EMBEDDING_DIM ≤ array.length := by
  constructor
  · intro h
    by_contra hshort
    have hread := h.reads (fun _ ↦ uninitialized ⟨0, by decide⟩) array.length
    rw [hreads, copyElements_reads, List.mem_range] at hread
    exact lt_irrefl _ (hread (not_le.mp hshort))
  · intro h
    refine ⟨fun behind i hi ↦ ?_, fun behind behind' ↦ ?_⟩
    · rw [hreads, copyElements_reads, List.mem_range] at hi
      exact lt_of_lt_of_le hi h
    · rw [hvalue, hvalue, copyElements_value, copyElements_value]
      congr 1
      funext j
      have hj : j.val < array.length := lt_of_lt_of_le j.isLt h
      rw [read_of_lt hj, read_of_lt hj]

variable [Zero F] [Add F] [Mul F] [Div F] [LinearOrder F]

/-- Both functions stay in bounds exactly for arrays with all the elements of an embedding. -/
theorem bridge_inBounds_iff (sqrt : F → F) (Q : PriorityQueue (F × VectorDBRecord F) comparator)
    (uninitialized : Embedding F) (db : List (VectorDBRecord F)) (text : Str) (k : Int32) (array : List F) :
    (InBounds (fun behind ↦ insertRecord sqrt uninitialized db text ⟨array, behind⟩) array.length ↔
      EMBEDDING_DIM ≤ array.length) ∧
    (InBounds (fun behind ↦ nearestNeighbor sqrt uninitialized Q db ⟨array, behind⟩ k) array.length ↔
      EMBEDDING_DIM ≤ array.length) :=
  ⟨inBounds_iff _ (fun embedding ↦ VectorDB.insertRecord db (VectorDB.record sqrt text embedding)) (fun _ ↦ rfl)
      fun _ ↦ rfl,
    inBounds_iff _
      (fun query ↦ (query, (VectorDB.nearestNeighbor sqrt Q db query k).map (List.map VectorDBRecord.text)))
      (fun _ ↦ rfl) fun _ ↦ rfl⟩

/-- The fourth element is what lies behind an array of three: it is the query's, and is stored. -/
theorem three_elements_out_of_bounds :
    (∀ behind : ℕ → ℚ, ∀ i : Fin EMBEDDING_DIM, i.val = 3 →
      (copyElements ⟨[1, 0, 0], behind⟩ fun _ ↦ 0).value i = behind 0) ∧
    ¬InBounds (fun behind ↦ insertRecord rootOfSquares (fun _ ↦ 0) [] "one" ⟨[1, 0, 0], behind⟩) 3 ∧
    ¬InBounds (fun behind ↦ nearestNeighbor rootOfSquares (fun _ ↦ 0) sortedQueue [] ⟨[1, 0, 0], behind⟩ 1) 3 := by
  have hreads (behind : ℕ → ℚ) : 3 ∈ (copyElements ⟨[1, 0, 0], behind⟩ fun _ ↦ 0).reads := by
    rw [copyElements_reads]
    exact List.mem_range.mpr (by decide)
  refine ⟨fun behind i hi ↦ ?_, fun h ↦ ?_, fun h ↦ ?_⟩
  · rw [copyElements_value]
    change NativeFloats.read _ i.val = _
    rw [hi]
    rfl
  · exact lt_irrefl 3 (h.reads (fun _ ↦ 0) 3 (hreads _))
  · exact lt_irrefl 3 (h.reads (fun _ ↦ 0) 3 (hreads _))

end Aigentik.SmolVectorDB
