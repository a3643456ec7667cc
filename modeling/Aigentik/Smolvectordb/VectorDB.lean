import Aigentik.Collections.PriorityQueue
import Aigentik.Strings.Text

/-! The records of the vector database, over the arithmetic of any kind of numbers. -/

namespace Aigentik.VectorDB

open Collections Strings

def EMBEDDING_DIM : ℕ := 328

abbrev Embedding (F : Type) := Fin EMBEDDING_DIM → F

structure VectorDBRecord (F : Type) where
  text : Str
  embedding : Embedding F
  mag : F

variable {F : Type} [Zero F] [Add F] [Mul F] [Div F]

section Records

variable (sqrt : F → F)

def dotProduct (a b : Embedding F) : F := Fin.foldl EMBEDDING_DIM (fun sum i ↦ sum + a i * b i) 0

def computeMagnitude (vector : Embedding F) : F := sqrt (dotProduct vector vector)

/-- The constructor. -/
def record (text : Str) (embedding : Embedding F) : VectorDBRecord F :=
  ⟨text, embedding, computeMagnitude sqrt embedding⟩

def insertRecord (_records : List (VectorDBRecord F)) (record : VectorDBRecord F) : List (VectorDBRecord F) :=
  _records ++ [record]

def similarity (query : Embedding F) (record : VectorDBRecord F) : F :=
  dotProduct query record.embedding / (computeMagnitude sqrt query * record.mag)

end Records

/-! The search -/

section Search

variable [LinearOrder F]

def comparator (a b : F × VectorDBRecord F) : Prop := b.1 < a.1

/-- `(size_t)k` in 64 bits. -/
def castSize (k : Int32) : ℕ := k.toInt64.toUInt64.toNat

variable (sqrt : F → F) (Q : PriorityQueue (F × VectorDBRecord F) comparator)

/-- One round of the loop over the records; `none` stands for a read of the top of an empty queue. -/
def visit (query : Embedding F) (k : Int32) (top_k : Q.Queue) (record : VectorDBRecord F) : Option Q.Queue :=
  let similarity := similarity sqrt query record
  if Q.size top_k < castSize k then some (Q.push (similarity, record) top_k)
  else
    match Q.pop top_k with
    | none => none
    | some (top, popped) => if top.1 < similarity then some (Q.push (similarity, record) popped) else some top_k

def nearestNeighbor (_records : List (VectorDBRecord F)) (query : Embedding F) (k : Int32) :
    Option (List (VectorDBRecord F)) := do
  let top_k ← _records.foldlM (visit sqrt Q query k) Q.empty
  return ((Q.drain top_k).map Prod.snd).reverse

theorem castSize_eq {k : Int32} (hk : 0 ≤ k) : castSize k = k.toNatClampNeg := by
  have hwide : 0 ≤ k.toInt64 := by
    rw [Int64.le_iff_toInt_le, Int32.toInt_toInt64]
    exact Int32.le_iff_toInt_le.mp hk
  rw [castSize, Int64.toNat_toUInt64_of_le hwide, Int64.toNatClampNeg, Int32.toInt_toInt64, Int32.toNatClampNeg]

/-- What the search promises of its result. -/
structure Nearest (query : Embedding F) (k : ℕ) (_records result : List (VectorDBRecord F)) : Prop where
  length : result.length = min k _records.length
  sorted : result.Pairwise fun a b ↦ similarity sqrt query b ≤ similarity sqrt query a
  best : ∃ left, (result ++ left).Perm _records ∧
    ∀ a ∈ result, ∀ b ∈ left, similarity sqrt query b ≤ similarity sqrt query a

end Search

end Aigentik.VectorDB
