import Aigentik.Smolvectordb.VectorDB
import Mathlib.Algebra.Order.Ring.Rat
import Mathlib.Data.Nat.Sqrt

namespace Aigentik.VectorDB

open Collections

variable {F : Type} [Zero F] [Add F] [Mul F] [Div F] {sqrt : F → F} {query : Embedding F} {k : Int32}
  {seen _records : List (VectorDBRecord F)} {record : VectorDBRecord F}

variable (sqrt query) in
/-- A record as the queue has it. -/
def entry (record : VectorDBRecord F) : F × VectorDBRecord F := (similarity sqrt query record, record)

theorem coe_snoc (seen : List (VectorDBRecord F)) (record : VectorDBRecord F) :
    ((seen ++ [record]).map (entry sqrt query) : Multiset (F × VectorDBRecord F)) =
      entry sqrt query record ::ₘ seen.map (entry sqrt query) := by
  rw [List.map_append, List.map_singleton, ← Multiset.coe_add, Multiset.add_comm, Multiset.coe_singleton,
    Multiset.singleton_add]

variable [LinearOrder F] {Q : PriorityQueue (F × VectorDBRecord F) comparator} {top_k : Q.Queue}

variable (sqrt query Q) in
/-- The queue holds the best of the records seen so far. -/
def Holds (k : ℕ) (seen : List (VectorDBRecord F)) (top_k : Q.Queue) : Prop :=
  ∃ rest, Q.items top_k + rest = seen.map (entry sqrt query) ∧ Best Prod.fst k (Q.items top_k) rest

theorem holds_empty (n : ℕ) : Holds sqrt query Q n [] Q.empty :=
  ⟨0, by rw [Q.items_empty]; rfl, by rw [Q.items_empty]; exact Best.zero⟩

theorem visit_holds (hk : 0 < castSize k) (h : Holds sqrt query Q (castSize k) seen top_k)
    (record : VectorDBRecord F) :
    ∃ top_k', visit sqrt Q query k top_k record = some top_k' ∧
      Holds sqrt query Q (castSize k) (seen ++ [record]) top_k' := by
  obtain ⟨rest, hitems, hbest⟩ := h
  unfold visit
  rw [Q.size_eq]
  by_cases hroom : (Q.items top_k).card < castSize k
  · rw [if_pos hroom]
    refine ⟨_, rfl, rest, ?_, ?_⟩
    · rw [Q.items_push, Multiset.cons_add, hitems, coe_snoc]
      rfl
    · rw [Q.items_push]
      exact hbest.push hroom
  · rw [if_neg hroom]
    have hfull : (Q.items top_k).card = castSize k := le_antisymm hbest.card_le (not_lt.mp hroom)
    cases hpop : Q.pop top_k with
    | none =>
      rw [Q.pop_none _ hpop, Multiset.card_zero] at hfull
      omega
    | some top =>
      obtain ⟨least, popped⟩ := top
      obtain ⟨hitems', hleast⟩ := Q.pop_some _ _ _ hpop
      have hle : ∀ c ∈ Q.items popped, least.1 ≤ c.1 := fun c hc ↦ not_lt.mp (hleast c hc)
      rw [hitems'] at hbest hitems hfull
      by_cases hlt : least.1 < similarity sqrt query record
      · simp only [if_pos hlt]
        refine ⟨_, rfl, least ::ₘ rest, ?_, ?_⟩
        · rw [Q.items_push, coe_snoc, ← hitems, Multiset.cons_add, Multiset.cons_add, Multiset.add_cons]
          rfl
        · rw [Q.items_push]
          exact hbest.exchange hfull hle hlt
      · simp only [if_neg hlt]
        refine ⟨top_k, rfl, entry sqrt query record ::ₘ rest, ?_, ?_⟩
        · rw [hitems', Multiset.add_cons, hitems, coe_snoc]
        · rw [hitems']
          refine hbest.leave hfull fun c hc ↦ ?_
          rcases Multiset.mem_cons.mp hc with rfl | hc
          · exact not_lt.mp hlt
          · exact (not_lt.mp hlt).trans (hle c hc)

theorem foldlM_holds (_records : List (VectorDBRecord F)) (hk : 0 < castSize k)
    (h : Holds sqrt query Q (castSize k) seen top_k) :
    ∃ top_k', _records.foldlM (visit sqrt Q query k) top_k = some top_k' ∧
      Holds sqrt query Q (castSize k) (seen ++ _records) top_k' := by
  induction _records generalizing seen top_k with
  | nil => exact ⟨top_k, rfl, by rwa [List.append_nil]⟩
  | cons record later ih =>
    obtain ⟨top_k', hvisit, hholds⟩ := visit_holds hk h record
    obtain ⟨top_k'', hlater, hholds⟩ := ih hholds
    refine ⟨top_k'', ?_, by rwa [List.append_assoc] at hholds⟩
    rw [List.foldlM_cons, hvisit]
    exact hlater

/-- The queue is drained from the least similar record up, and the result is reversed. -/
theorem nearest_of_holds (h : Holds sqrt query Q (castSize k) _records top_k) :
    Nearest sqrt query (castSize k) _records ((Q.drain top_k).map Prod.snd).reverse := by
  obtain ⟨rest, hitems, hbest⟩ := h
  obtain ⟨left, rfl⟩ : ∃ left : List (F × VectorDBRecord F), (left : Multiset _) = rest := Quot.exists_rep rest
  rw [← Q.coe_drain] at hitems hbest
  have hperm : (Q.drain top_k ++ left).Perm (_records.map (entry sqrt query)) := Multiset.coe_eq_coe.mp hitems
  have hentry : ∀ p ∈ Q.drain top_k ++ left, p.1 = similarity sqrt query p.2 := by
    intro p hp
    obtain ⟨record, -, rfl⟩ := List.mem_map.mp (hperm.mem_iff.mp hp)
    rfl
  have hdrained : ∀ p ∈ Q.drain top_k, p.1 = similarity sqrt query p.2 := fun p hp ↦
    hentry p (List.mem_append_left _ hp)
  refine ⟨?_, ?_, left.map Prod.snd, ?_, ?_⟩
  · have hcard := hbest.card
    rw [hitems, Multiset.coe_card, Multiset.coe_card, List.length_map] at hcard
    rw [List.length_reverse, List.length_map, hcard]
  · rw [List.pairwise_reverse, List.pairwise_map]
    refine (Q.drain_pairwise top_k).imp_of_mem fun {a b} ha hb hle ↦ ?_
    rw [← hdrained a ha, ← hdrained b hb]
    exact not_lt.mp hle
  · refine ((List.reverse_perm _).append_right _).trans ?_
    rw [← List.map_append]
    refine (hperm.map Prod.snd).trans ?_
    rw [List.map_map]
    exact .of_eq (List.map_id _)
  · intro a ha b hb
    obtain ⟨p, hp, rfl⟩ := List.mem_map.mp (List.mem_reverse.mp ha)
    obtain ⟨p', hp', rfl⟩ := List.mem_map.mp hb
    rw [← hdrained p hp, ← hentry p' (List.mem_append_right _ hp')]
    exact hbest.le p hp p' hp'

theorem nearestNeighbor_empty : nearestNeighbor sqrt Q [] query k = some [] := by
  rw [nearestNeighbor, List.foldlM_nil, Option.pure_def, Option.bind_eq_bind, Option.bind_some,
    Q.drain_none Q.pop_empty]
  rfl

/-- With no room in the queue, its top is read before anything was put into it. -/
theorem nearestNeighbor_noRoom (hk : castSize k = 0) (hne : _records ≠ []) :
    nearestNeighbor sqrt Q _records query k = none := by
  obtain ⟨record, later, rfl⟩ := List.exists_cons_of_ne_nil hne
  have hvisit : visit sqrt Q query k Q.empty record = none := by
    unfold visit
    rw [hk, if_neg (Nat.not_lt_zero _), Q.pop_empty]
  rw [nearestNeighbor, List.foldlM_cons, hvisit]
  rfl

/-- The search reads no empty queue and returns the nearest records exactly if it may return some,
or there are none. -/
theorem nearestNeighbor_iff (sqrt : F → F) (Q : PriorityQueue (F × VectorDBRecord F) comparator)
    (_records : List (VectorDBRecord F)) (query : Embedding F) {k : Int32} (hk : 0 ≤ k) :
    (∃ result, nearestNeighbor sqrt Q _records query k = some result ∧
      Nearest sqrt query k.toNatClampNeg _records result) ↔ k ≠ 0 ∨ _records = [] := by
  rw [← castSize_eq hk]
  constructor
  · intro h
    obtain ⟨result, hresult, -⟩ := h
    by_contra hnone
    obtain ⟨hzero, hne⟩ := not_or.mp hnone
    rw [not_not] at hzero
    rw [nearestNeighbor_noRoom (by rw [hzero]; rfl) hne] at hresult
    cases hresult
  · intro h
    by_cases hempty : _records = []
    · rw [hempty]
      exact ⟨[], nearestNeighbor_empty, (Nat.min_zero _).symm, .nil, [], .refl _, fun _ ha ↦ absurd ha List.not_mem_nil⟩
    · have hpos : 0 < castSize k := by
        rw [castSize_eq hk]
        have hne : k.toInt ≠ 0 := fun hzero ↦ h.resolve_right hempty (Int32.toInt_inj.mp hzero)
        have hnonneg : 0 ≤ k.toInt := Int32.le_iff_toInt_le.mp hk
        change 0 < k.toInt.toNat
        omega
      obtain ⟨top_k, hfold, hholds⟩ := foldlM_holds _records hpos (holds_empty (castSize k))
      refine ⟨_, ?_, nearest_of_holds hholds⟩
      rw [nearestNeighbor, hfold]
      rfl

/-! Unit vectors, over the rationals -/

/-- The root of a quotient of squares. -/
def rootOfSquares (q : ℚ) : ℚ := q.num.toNat.sqrt / q.den.sqrt

def sortedQueue : PriorityQueue (ℚ × VectorDBRecord ℚ) comparator := sortedList Prod.fst

def unitVector (axis : ℕ) : Embedding ℚ := fun i ↦ if i.val = axis then 1 else 0

def unitRecords : List (VectorDBRecord ℚ) :=
  [VectorDB.record rootOfSquares "one" (unitVector 0), VectorDB.record rootOfSquares "two" (unitVector 1),
    VectorDB.record rootOfSquares "three" (unitVector 2)]

theorem nearest_of_unitRecords :
    ∃ result, nearestNeighbor rootOfSquares sortedQueue unitRecords (unitVector 0) 1 = some result ∧
      Nearest rootOfSquares (unitVector 0) 1 unitRecords result :=
  (nearestNeighbor_iff rootOfSquares sortedQueue unitRecords (unitVector 0) (k := 1) (by decide)).mpr (.inl (by decide))

/-- A search for no records reads the top of the empty queue. -/
theorem search_for_none : nearestNeighbor rootOfSquares sortedQueue unitRecords (unitVector 0) 0 = none ∧
    ¬∃ result, nearestNeighbor rootOfSquares sortedQueue unitRecords (unitVector 0) 0 = some result ∧
      Nearest rootOfSquares (unitVector 0) 0 unitRecords result := by
  have hnone : nearestNeighbor rootOfSquares sortedQueue unitRecords (unitVector 0) 0 = none :=
    nearestNeighbor_noRoom rfl (List.cons_ne_nil _ _)
  refine ⟨hnone, fun hsome ↦ ?_⟩
  obtain ⟨result, hresult, -⟩ := hsome
  rw [hnone] at hresult
  cases hresult

end Aigentik.VectorDB
