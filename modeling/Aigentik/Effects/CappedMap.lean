import Aigentik.Effects.SharedMap
import Mathlib.Data.Finset.Card

/-! Maps that lose some key when they have grown beyond a bound. -/

namespace Effects.SharedMap

variable {κ ν : Type} [DecidableEq κ]

/-- An entry is put. Beyond the bound the map loses a key, whichever comes first. -/
inductive CappedPut (cap : ℕ) (m : SharedMap κ ν) (k : κ) (v : ν) : SharedMap κ ν → Prop
  | fits : (m.put k v).size ≤ cap → CappedPut cap m k v (m.put k v)
  | evicts {first : κ} : cap < (m.put k v).size → first ∈ (m.put k v).keys →
      CappedPut cap m k v ((m.put k v).remove first)

inductive CappedPuts (cap : ℕ) : SharedMap κ ν → List (κ × ν) → SharedMap κ ν → Prop
  | nil (m : SharedMap κ ν) : CappedPuts cap m [] m
  | cons {m m' m'' : SharedMap κ ν} {e : κ × ν} {es : List (κ × ν)} :
      CappedPut cap m e.1 e.2 m' → CappedPuts cap m' es m'' → CappedPuts cap m (e :: es) m''

def keysOf (es : List (κ × ν)) : Finset κ := (es.map Prod.fst).toFinset

def putAll (m : SharedMap κ ν) (es : List (κ × ν)) : SharedMap κ ν := es.foldl (fun m e ↦ m.put e.1 e.2) m

variable {cap : ℕ} {m m' : SharedMap κ ν} {k : κ} {v : ν} {e : κ × ν} {es pre post : List (κ × ν)}

@[simp] theorem keysOf_nil : keysOf ([] : List (κ × ν)) = ∅ := rfl

@[simp] theorem keysOf_cons : keysOf (e :: es) = insert e.1 (keysOf es) := List.toFinset_cons

@[simp] theorem keysOf_append : keysOf (pre ++ post) = keysOf pre ∪ keysOf post := by
  simp [keysOf]

theorem size_eq_card : m.size = m.keys.toFinset.card := by
  have hnodup : m.keys.Nodup := m.nodup
  rw [List.toFinset_card_of_nodup hnodup, size_eq]

theorem toFinset_keys_put : (m.put k v).keys.toFinset = insert k m.keys.toFinset := by
  rw [keys_put, List.toFinset_cons]
  ext x
  simp only [Finset.mem_insert, List.mem_toFinset, List.mem_filter, decide_eq_true_eq]
  tauto

theorem size_put_of_mem (h : k ∈ m.keys) : (m.put k v).size = m.size := by
  rw [size_eq_card, size_eq_card, toFinset_keys_put, Finset.insert_eq_of_mem (List.mem_toFinset.mpr h)]

theorem size_put_of_notMem (h : k ∉ m.keys) : (m.put k v).size = m.size + 1 := by
  rw [size_eq_card, size_eq_card, toFinset_keys_put, Finset.card_insert_of_notMem (List.mem_toFinset.not.mpr h)]

theorem get_eq_none (h : k ∉ m.keys) : m.get k = none := by
  cases hget : m.get k with
  | none => rfl
  | some v => exact absurd (List.mem_map.mpr ⟨_, get_eq_some.mp hget, rfl⟩) h

theorem cappedPuts_nil : CappedPuts cap m [] m' ↔ m' = m := by
  constructor
  · intro h
    cases h
    rfl
  · intro heq
    subst heq
    exact .nil m'

theorem cappedPuts_cons {m'' : SharedMap κ ν} :
    CappedPuts cap m (e :: es) m'' ↔ ∃ m', CappedPut cap m e.1 e.2 m' ∧ CappedPuts cap m' es m'' := by
  constructor
  · intro h
    rcases h with _ | ⟨hput, hputs⟩
    exact ⟨_, hput, hputs⟩
  · intro h
    obtain ⟨m', hput, hputs⟩ := h
    exact .cons hput hputs

/-! Few keys -/

/-- As long as all the keys fit, nothing is lost. -/
theorem CappedPuts.eq_putAll (h : CappedPuts cap m es m') (hfit : (m.keys.toFinset ∪ keysOf es).card ≤ cap) :
    m' = m.putAll es := by
  induction h with
  | nil m => rfl
  | cons hput hputs ih =>
    rename_i m m' m'' e es
    have hunion : (m.put e.1 e.2).keys.toFinset ∪ keysOf es = m.keys.toFinset ∪ keysOf (e :: es) := by
      rw [toFinset_keys_put, keysOf_cons, Finset.insert_union, Finset.union_insert]
    have hsize : (m.put e.1 e.2).size ≤ cap := by
      rw [size_eq_card]
      exact (Finset.card_le_card (hunion ▸ Finset.subset_union_left)).trans hfit
    cases hput with
    | fits _ => exact ih (hunion ▸ hfit)
    | evicts hlt _ => exact absurd hlt (Nat.not_lt.mpr hsize)

theorem get_putAll (h : k ∉ keysOf es) : (m.putAll es).get k = m.get k := by
  induction es generalizing m with
  | nil => rfl
  | cons e es ih =>
    rw [keysOf_cons, Finset.mem_insert, not_or] at h
    exact (ih h.2).trans (get_put_of_ne h.1)

theorem get_putAll_last (h : k ∉ keysOf post) : (m.putAll (pre ++ (k, v) :: post)).get k = some v := by
  rw [putAll, List.foldl_append]
  exact (get_putAll h).trans get_put_self

/-! Many keys -/

/-- Of the keys that have been stored none is lost, or `k` is, and the map is full. -/
def Hostile (cap : ℕ) (k : κ) (stored : Finset κ) (m : SharedMap κ ν) : Prop :=
  m.keys.toFinset = stored ∧ m.size ≤ cap ∨ k ∉ m.keys ∧ m.size = cap

theorem Hostile.put {stored : Finset κ} (h : Hostile cap k stored m) (e : κ × ν) :
    ∃ m', CappedPut cap m e.1 e.2 m' ∧ Hostile cap k (insert e.1 stored) m' := by
  have hle : m.size ≤ cap := h.elim (fun h ↦ h.2) fun h ↦ h.2.le
  have hgrow : (m.put e.1 e.2).size ≤ m.size + 1 := size_put_le
  by_cases hfit : (m.put e.1 e.2).size ≤ cap
  · refine ⟨_, .fits hfit, h.imp (fun ⟨hkeys, _⟩ ↦ ⟨by rw [toFinset_keys_put, hkeys], hfit⟩) fun ⟨hk, hfull⟩ ↦ ?_⟩
    -- a full map has room only for a key that it has
    have hmem : e.1 ∈ m.keys := by
      by_contra hnew
      have hsize : (m.put e.1 e.2).size = m.size + 1 := size_put_of_notMem hnew
      omega
    have hne : k ≠ e.1 := fun heq ↦ hk (heq ▸ hmem)
    exact ⟨by simp [keys_put, hne, hk], (size_put_of_mem hmem).trans hfull⟩
  · have hevict : ∃ first ∈ (m.put e.1 e.2).keys, k ∈ (m.put e.1 e.2).keys → first = k := by
      by_cases hk : k ∈ (m.put e.1 e.2).keys
      · exact ⟨k, hk, fun _ ↦ rfl⟩
      · exact ⟨e.1, mem_keys_put, fun h ↦ absurd h hk⟩
    obtain ⟨first, hfirst, hk⟩ := hevict
    have hsize : ((m.put e.1 e.2).remove first).size + 1 = (m.put e.1 e.2).size := size_remove hfirst
    refine ⟨_, .evicts (Nat.lt_of_not_le hfit) hfirst, .inr ⟨fun hmem ↦ ?_, by omega⟩⟩
    rw [keys_remove, List.mem_filter, decide_eq_true_eq] at hmem
    exact hmem.2 (hk hmem.1).symm

theorem Hostile.puts {stored : Finset κ} (h : Hostile cap k stored m) (es : List (κ × ν)) :
    ∃ m', CappedPuts cap m es m' ∧ Hostile cap k (stored ∪ keysOf es) m' := by
  induction es generalizing stored m with
  | nil => exact ⟨m, .nil m, by rwa [keysOf_nil, Finset.union_empty]⟩
  | cons e es ih =>
    obtain ⟨m', hput, hm'⟩ := h.put e
    obtain ⟨m'', hputs, hm''⟩ := ih hm'
    refine ⟨m'', .cons hput hputs, ?_⟩
    rwa [keysOf_cons, Finset.union_insert, ← Finset.insert_union]

theorem Hostile.empty : Hostile cap k ∅ (SharedMap.empty : SharedMap κ ν) := .inl ⟨rfl, Nat.zero_le cap⟩

theorem exists_cappedPuts (cap : ℕ) (es : List (κ × ν)) : ∃ m, CappedPuts cap empty es m := by
  cases es with
  | nil => exact ⟨_, .nil _⟩
  | cons e es =>
    obtain ⟨m, hputs, -⟩ := (Hostile.empty (k := e.1)).puts (e :: es)
    exact ⟨m, hputs⟩

/-- The last value of a key is there in every order exactly if there is room for all the keys. -/
theorem kept_iff (cap : ℕ) (pre : List (κ × ν)) (v : ν) (hlast : k ∉ keysOf post) :
    (∀ m, CappedPuts cap empty (pre ++ (k, v) :: post) m → m.get k = some v) ↔
      ((keysOf (pre ++ post)).erase k).card < cap := by
  have hkeys : keysOf (pre ++ (k, v) :: post) = insert k ((keysOf (pre ++ post)).erase k) := by
    rw [keysOf_append, keysOf_cons, Finset.union_insert, ← keysOf_append]
    ext x
    simp only [Finset.mem_insert, Finset.mem_erase]
    tauto
  have hcard : (keysOf (pre ++ (k, v) :: post)).card = ((keysOf (pre ++ post)).erase k).card + 1 := by
    rw [hkeys, Finset.card_insert_of_notMem (Finset.notMem_erase k _)]
  rw [Nat.lt_iff_add_one_le, ← hcard]
  constructor
  · intro hkept
    by_contra hmany
    have hempty : Hostile cap k ∅ (SharedMap.empty : SharedMap κ ν) := Hostile.empty
    obtain ⟨m, hputs, hm⟩ := hempty.puts (pre ++ (k, v) :: post)
    rcases hm with ⟨hstored, hfit⟩ | ⟨hlost, -⟩
    · rw [Finset.empty_union] at hstored
      rw [size_eq_card, hstored] at hfit
      exact hmany hfit
    · have hget := hkept m hputs
      rw [get_eq_none hlost] at hget
      cases hget
  · intro hfit m hputs
    have hroom : ((SharedMap.empty : SharedMap κ ν).keys.toFinset ∪ keysOf (pre ++ (k, v) :: post)).card ≤ cap := by
      rwa [show (SharedMap.empty : SharedMap κ ν).keys.toFinset = ∅ from rfl, Finset.empty_union]
    rw [hputs.eq_putAll hroom]
    exact get_putAll_last hlast

end Effects.SharedMap
