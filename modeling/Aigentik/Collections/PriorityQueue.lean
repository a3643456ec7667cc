import Mathlib.Data.List.Sort
import Mathlib.Data.Multiset.AddSub

/-! Priority queues by what their operations promise, and the search for the best items that keeps
them in a queue of bounded size. -/

namespace Collections

/-- `below a b` says that `a` has a lower priority than `b`. The top is an item that is below no
other; which one of several is left open. -/
structure PriorityQueue (α : Type) (below : α → α → Prop) where
  Queue : Type
  items : Queue → Multiset α
  empty : Queue
  push : α → Queue → Queue
  size : Queue → ℕ
  pop : Queue → Option (α × Queue)
  items_empty : items empty = 0
  items_push : ∀ a q, items (push a q) = a ::ₘ items q
  size_eq : ∀ q, size q = (items q).card
  pop_none : ∀ q, pop q = none → items q = 0
  pop_some : ∀ q a q', pop q = some (a, q') → items q = a ::ₘ items q' ∧ ∀ b ∈ items q', ¬below a b

namespace PriorityQueue

variable {α κ : Type} {below : α → α → Prop} (Q : PriorityQueue α below) {q q' : Q.Queue} {a : α}

theorem pop_empty : Q.pop Q.empty = none := by
  cases hpop : Q.pop Q.empty with
  | none => rfl
  | some top =>
    have hitems := (Q.pop_some _ top.1 top.2 hpop).1
    rw [Q.items_empty] at hitems
    exact absurd hitems.symm (Multiset.cons_ne_zero)

theorem size_pop (h : Q.pop q = some (a, q')) : Q.size q = Q.size q' + 1 := by
  rw [Q.size_eq, Q.size_eq, (Q.pop_some _ _ _ h).1, Multiset.card_cons]

/-- The items as they come off the top. -/
def drain (q : Q.Queue) : List α :=
  match _h : Q.pop q with
  | none => []
  | some (a, q') => a :: drain q'
termination_by Q.size q
decreasing_by
  rw [Q.size_pop _h]
  exact Nat.lt_succ_self _

theorem drain_induction {motive : Q.Queue → Prop} (hempty : ∀ q, Q.pop q = none → motive q)
    (htop : ∀ q a q', Q.pop q = some (a, q') → motive q' → motive q) (q : Q.Queue) : motive q := by
  induction hn : Q.size q generalizing q with
  | zero =>
    refine hempty q ?_
    cases hpop : Q.pop q with
    | none => rfl
    | some top =>
      rw [Q.size_pop hpop] at hn
      cases hn
  | succ n ih =>
    cases hpop : Q.pop q with
    | none => exact hempty q hpop
    | some top =>
      rw [Q.size_pop hpop] at hn
      exact htop q top.1 top.2 hpop (ih _ (Nat.succ.inj hn))

theorem drain_none (h : Q.pop q = none) : Q.drain q = [] := by
  rw [drain]
  split
  · rfl
  · rename_i hpop
    rw [h] at hpop
    cases hpop

theorem drain_some (h : Q.pop q = some (a, q')) : Q.drain q = a :: Q.drain q' := by
  rw [drain]
  split
  · rename_i hpop
    rw [h] at hpop
    cases hpop
  · rename_i hpop
    rw [h] at hpop
    cases hpop
    rfl

theorem coe_drain (q : Q.Queue) : (Q.drain q : Multiset α) = Q.items q := by
  induction q using Q.drain_induction with
  | hempty q hpop =>
    rw [Q.drain_none hpop, Q.pop_none q hpop]
    rfl
  | htop q a q' hpop ih => rw [Q.drain_some hpop, ← Multiset.cons_coe, ih, (Q.pop_some q a q' hpop).1]

theorem mem_drain : a ∈ Q.drain q ↔ a ∈ Q.items q := by
  rw [← Q.coe_drain, Multiset.mem_coe]

/-- No item comes off before one of lower priority. -/
theorem drain_pairwise (q : Q.Queue) : (Q.drain q).Pairwise fun a b ↦ ¬below a b := by
  induction q using Q.drain_induction with
  | hempty q hpop =>
    rw [Q.drain_none hpop]
    exact .nil
  | htop q a q' hpop ih =>
    rw [Q.drain_some hpop]
    exact .cons (fun b hb ↦ (Q.pop_some q a q' hpop).2 b (Q.mem_drain.mp hb)) ih

end PriorityQueue

/-! The best items by a key -/

section Best

variable {α κ : Type} [LinearOrder κ] (key : α → κ) {k : ℕ} {kept rest : Multiset α} {a b : α}

/-- At most `k` items are kept, all `k` of them where some are left out, and none that is left out is better. -/
structure Best (k : ℕ) (kept rest : Multiset α) : Prop where
  card_le : kept.card ≤ k
  full : rest ≠ 0 → kept.card = k
  le : ∀ a ∈ kept, ∀ b ∈ rest, key b ≤ key a

variable {key}

theorem Best.card (h : Best key k kept rest) : kept.card = min k (kept + rest).card := by
  rw [Multiset.card_add]
  by_cases hrest : rest = 0
  · rw [hrest, Multiset.card_zero, Nat.add_zero, Nat.min_eq_right h.card_le]
  · rw [h.full hrest, Nat.min_eq_left (Nat.le_add_right _ _)]

theorem Best.zero : Best key k 0 0 := ⟨Nat.zero_le k, fun h ↦ absurd rfl h, fun _ h ↦ absurd h (Multiset.notMem_zero _)⟩

theorem Best.push (h : Best key k kept rest) (hroom : kept.card < k) : Best key k (a ::ₘ kept) rest := by
  have hrest : rest = 0 := by
    by_contra hne
    exact absurd (h.full hne) hroom.ne
  subst hrest
  refine ⟨?_, fun hne ↦ absurd rfl hne, fun _ _ b hb ↦ absurd hb (Multiset.notMem_zero _)⟩
  rw [Multiset.card_cons]
  exact hroom

theorem Best.leave (h : Best key k kept rest) (hfull : kept.card = k) (hle : ∀ b ∈ kept, key a ≤ key b) :
    Best key k kept (a ::ₘ rest) := by
  refine ⟨h.card_le, fun _ ↦ hfull, fun b hb c hc ↦ ?_⟩
  rcases Multiset.mem_cons.mp hc with rfl | hc
  · exact hle b hb
  · exact h.le b hb c hc

/-- The least of the kept items makes room for a better one. -/
theorem Best.exchange (h : Best key k (b ::ₘ kept) rest) (hfull : (b ::ₘ kept).card = k)
    (hleast : ∀ c ∈ kept, key b ≤ key c) (hlt : key b < key a) : Best key k (a ::ₘ kept) (b ::ₘ rest) := by
  have hcard : (a ::ₘ kept).card = k := by rw [← hfull, Multiset.card_cons, Multiset.card_cons]
  have hold : ∀ c ∈ rest, key c ≤ key b := fun c hc ↦ h.le b (Multiset.mem_cons_self b kept) c hc
  refine ⟨hcard.le, fun _ ↦ hcard, fun c hc d hd ↦ ?_⟩
  rcases Multiset.mem_cons.mp hc with rfl | hc
  · rcases Multiset.mem_cons.mp hd with rfl | hd
    · exact hlt.le
    · exact (hold d hd).trans hlt.le
  · rcases Multiset.mem_cons.mp hd with rfl | hd
    · exact hleast c hc
    · exact h.le c (Multiset.mem_cons_of_mem hc) d hd

end Best

/-! A sorted list as a queue, with the least key on top -/

section Sorted

variable {α κ : Type} [LinearOrder κ] (key : α → κ)

theorem pairwise_orderedInsert {l : List α} (a : α) (h : l.Pairwise fun b c ↦ key b ≤ key c) :
    (l.orderedInsert (fun b c ↦ key b ≤ key c) a).Pairwise fun b c ↦ key b ≤ key c := by
  have htotal : Std.Total fun b c : α ↦ key b ≤ key c := ⟨fun b c ↦ le_total (key b) (key c)⟩
  have htrans : IsTrans α fun b c ↦ key b ≤ key c := ⟨fun _ _ _ ↦ le_trans⟩
  exact h.orderedInsert a l

def sortedList : PriorityQueue α fun a b ↦ key b < key a where
  Queue := { l : List α // l.Pairwise fun a b ↦ key a ≤ key b }
  items q := q.1
  empty := ⟨[], .nil⟩
  push a q := ⟨q.1.orderedInsert (fun b c ↦ key b ≤ key c) a, pairwise_orderedInsert key a q.2⟩
  size q := q.1.length
  pop
    | ⟨[], _⟩ => none
    | ⟨a :: l, h⟩ => some (a, ⟨l, h.of_cons⟩)
  items_empty := rfl
  items_push a q := Multiset.coe_eq_coe.mpr (List.perm_orderedInsert _ a q.1)
  size_eq q := rfl
  pop_none
    | ⟨[], _⟩, _ => rfl
  pop_some
    | ⟨a :: l, h⟩, _, _, hpop => by
      cases hpop
      exact ⟨rfl, fun b hb ↦ not_lt.mpr (List.rel_of_pairwise_cons h hb)⟩

end Sorted

/-- The same queue for another way to write its order. -/
def PriorityQueue.congr {α : Type} {below below' : α → α → Prop} (Q : PriorityQueue α below)
    (h : ∀ a b, below' a b ↔ below a b) : PriorityQueue α below' :=
  { Q with pop_some := fun q a q' hpop ↦
      ⟨(Q.pop_some q a q' hpop).1, fun b hb hbelow ↦ (Q.pop_some q a q' hpop).2 b hb ((h a b).mp hbelow)⟩ }

end Collections
