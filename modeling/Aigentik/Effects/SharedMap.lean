import Aigentik.Effects.Program

namespace Effects

/-- A finite map as the list of its entries, one for each key. -/
structure SharedMap (κ ν : Type) where
  entries : List (κ × ν)
  nodup : (entries.map Prod.fst).Nodup

variable {κ ν : Type} [DecidableEq κ]

namespace SharedMap

def empty : SharedMap κ ν := ⟨[], List.nodup_nil⟩

def keys (m : SharedMap κ ν) : List κ := m.entries.map Prod.fst

def size (m : SharedMap κ ν) : ℕ := m.entries.length

def get (m : SharedMap κ ν) (k : κ) : Option ν := m.entries.lookup k

def filter (m : SharedMap κ ν) (p : κ × ν → Bool) : SharedMap κ ν :=
  ⟨m.entries.filter p, m.nodup.sublist (List.filter_sublist.map _)⟩

def remove (m : SharedMap κ ν) (k : κ) : SharedMap κ ν := m.filter fun e ↦ e.1 ≠ k

def removeValue [DecidableEq ν] (m : SharedMap κ ν) (v : ν) : SharedMap κ ν :=
  m.filter fun e ↦ e.2 ≠ v

def put (m : SharedMap κ ν) (k : κ) (v : ν) : SharedMap κ ν :=
  ⟨(k, v) :: (m.remove k).entries, by
    refine List.nodup_cons.mpr ⟨fun hmem ↦ ?_, (m.remove k).nodup⟩
    obtain ⟨e, he, hk⟩ := List.mem_map.mp hmem
    exact of_decide_eq_true (List.mem_filter.mp he).2 hk⟩

variable {m : SharedMap κ ν} {k k' : κ} {v w : ν}

@[simp] theorem get_empty : (empty : SharedMap κ ν).get k = none := rfl

theorem get_eq_some : m.get k = some v ↔ (k, v) ∈ m.entries := by
  obtain ⟨entries, hnodup⟩ := m
  simp only [get]
  induction entries with
  | nil => simp
  | cons e es ih =>
    obtain ⟨k', v'⟩ := e
    obtain ⟨hnot, hnodup⟩ := List.nodup_cons.mp hnodup
    simp only [List.lookup_cons, List.mem_cons, Prod.mk.injEq]
    by_cases hk : k = k'
    · subst hk
      have hne (x : ν) : (k, x) ∉ es := fun hmem ↦ hnot (List.mem_map.mpr ⟨_, hmem, rfl⟩)
      simp [hne, eq_comm]
    · simp [beq_eq_false_iff_ne.mpr hk, hk, ih hnodup]

theorem get_filter_some {p : κ × ν → Bool} :
    (m.filter p).get k = some v ↔ m.get k = some v ∧ p (k, v) := by
  simp only [get_eq_some, filter, List.mem_filter]

theorem get_remove_some : (m.remove k).get k' = some v ↔ m.get k' = some v ∧ k' ≠ k := by
  simp [remove, get_filter_some]

theorem get_put_some : (m.put k v).get k' = some w ↔
    (k' = k ∧ w = v) ∨ (m.get k' = some w ∧ k' ≠ k) := by
  rw [← get_remove_some]
  simp only [get_eq_some, put, List.mem_cons, Prod.mk.injEq]

theorem get_put_self : (m.put k v).get k = some v := get_put_some.mpr (.inl ⟨rfl, rfl⟩)

theorem get_put_of_ne (h : k' ≠ k) : (m.put k v).get k' = m.get k' := by
  refine Option.ext fun w ↦ ?_
  simp [get_put_some, h]

omit [DecidableEq κ] in
theorem size_eq : m.size = m.keys.length := (List.length_map Prod.fst).symm

theorem keys_remove : (m.remove k).keys = m.keys.filter (· ≠ k) := by
  simp only [keys, remove, filter, List.filter_map]
  rfl

theorem keys_put : (m.put k v).keys = k :: m.keys.filter (· ≠ k) := by
  rw [← keys_remove]
  rfl

theorem mem_keys_put : k ∈ (m.put k v).keys := by
  rw [keys_put]
  exact List.mem_cons_self

theorem size_put_le : (m.put k v).size ≤ m.size + 1 := by
  rw [size_eq, size_eq, keys_put]
  exact Nat.succ_le_succ (List.length_filter_le ..)

theorem size_remove_le : (m.remove k).size ≤ m.size := List.length_filter_le ..

theorem size_remove (h : k ∈ m.keys) : (m.remove k).size + 1 = m.size := by
  have herase : m.keys.erase k = m.keys.filter (· ≠ k) := by
    have hnodup : m.keys.Nodup := m.nodup
    rw [hnodup.erase_eq_filter]
    exact List.filter_congr fun x _ ↦ Bool.eq_iff_iff.mpr (by simp)
  have hpos : 0 < m.keys.length := List.length_pos_of_mem h
  rw [size_eq, size_eq, keys_remove, ← herase, List.length_erase_of_mem h]
  omega

end SharedMap

/-- The calls on a map that several threads use. -/
inductive MapOp (κ ν : Type)
  | get (k : κ)
  | put (k : κ) (v : ν)
  | remove (k : κ)
  | removeValue (v : ν)
  | size
  | firstKey
  deriving DecidableEq

abbrev mapSig (κ ν : Type) : Sig where
  Op := MapOp κ ν
  Resp
    | .get _ => Option ν
    | .put .. | .remove _ | .removeValue _ => Unit
    | .size => ℕ
    | .firstKey => Option κ

def quietMap {κ ν : Type} : (op : MapOp κ ν) → (mapSig κ ν).Resp op
  | .get _ => (none : Option ν)
  | .put .. | .remove _ | .removeValue _ => ()
  | .size => (0 : ℕ)
  | .firstKey => (none : Option κ)

/-- One call on the map. Which of its keys comes first is not known: the offered
one is taken if it is a key. -/
def SharedMap.act [DecidableEq ν] (m : SharedMap κ ν) :
    (op : MapOp κ ν) → (mapSig κ ν).Resp op → Option ((mapSig κ ν).Resp op × SharedMap κ ν)
  | .get k, _ => some (m.get k, m)
  | .put k v, _ => some ((), m.put k v)
  | .remove k, _ => some ((), m.remove k)
  | .removeValue v, _ => some ((), m.removeValue v)
  | .size, _ => some (m.size, m)
  | .firstKey, some k => if k ∈ m.keys then some (some k, m) else none
  | .firstKey, none => if m.keys = [] then some (none, m) else none

def SharedMap.after [DecidableEq ν] (m : SharedMap κ ν) : MapOp κ ν → SharedMap κ ν
  | .put k v => m.put k v
  | .remove k => m.remove k
  | .removeValue v => m.removeValue v
  | .get _ | .size | .firstKey => m

/-- What a call may answer. -/
def SharedMap.Answers (m : SharedMap κ ν) : (op : MapOp κ ν) → (mapSig κ ν).Resp op → Prop
  | .get k, r => r = m.get k
  | .size, n => n = m.size
  | .firstKey, some k => k ∈ m.keys
  | .firstKey, none => m.keys = []
  | .put .., _ | .remove _, _ | .removeValue _, _ => True

/-- The answers of a map that lists its keys in the order of its entries. -/
def SharedMap.answer (m : SharedMap κ ν) : (op : MapOp κ ν) → (mapSig κ ν).Resp op
  | .get k => m.get k
  | .size => m.size
  | .firstKey => m.keys.head?
  | .put .. | .remove _ | .removeValue _ => ()

theorem SharedMap.answers_answer (m : SharedMap κ ν) (op : MapOp κ ν) : m.Answers op (m.answer op) := by
  cases op with
  | get k => rfl
  | size => rfl
  | firstKey =>
    change m.Answers .firstKey m.keys.head?
    cases hkeys : m.keys with
    | nil => exact hkeys
    | cons k ks =>
      have hmem : k ∈ m.keys := hkeys ▸ List.mem_cons_self
      exact hmem
  | put k v => trivial
  | remove k => trivial
  | removeValue v => trivial

theorem SharedMap.get_of_act [DecidableEq ν] {m m' : SharedMap κ ν} {op : MapOp κ ν}
    {offer r : (mapSig κ ν).Resp op} {k : κ} {v : ν} (h : m.act op offer = some (r, m'))
    (hk : m'.get k = some v) : m.get k = some v ∨ op = .put k v := by
  cases op with
  | get k' =>
    cases h
    exact .inl hk
  | put k' v' =>
    cases h
    rcases get_put_some.mp hk with ⟨rfl, rfl⟩ | ⟨hk, -⟩
    · exact .inr rfl
    · exact .inl hk
  | remove k' =>
    cases h
    exact .inl (get_remove_some.mp hk).1
  | removeValue v' =>
    cases h
    exact .inl (get_filter_some.mp hk).1
  | size =>
    cases h
    exact .inl hk
  | firstKey =>
    cases offer with
    | some k' =>
      obtain ⟨-, heq⟩ := Option.ite_none_right_eq_some.mp h
      cases heq
      exact .inl hk
    | none =>
      obtain ⟨-, heq⟩ := Option.ite_none_right_eq_some.mp h
      cases heq
      exact .inl hk

end Effects
