import Aigentik.Effects.SharedMap
import Mathlib.Data.Int.Notation

/-! Maps of times from which old entries may be dropped. -/

namespace Effects

variable {κ : Type}

/-- There is a time, and it is less than `ttl` ago. -/
def Young (ttl now : ℤ) (time : Option ℤ) : Bool := time.any fun t ↦ now - t < ttl

/-- The times of a key, the latest first. -/
abbrev Times (κ : Type) := List (κ × ℤ)

/-- No time is before one that was noted earlier, or after now. -/
structure Times.Ordered (now : ℤ) (l : Times κ) : Prop where
  descends : l.Pairwise fun e e' ↦ e'.2 ≤ e.2
  past : ∀ e ∈ l, e.2 ≤ now

variable [DecidableEq κ] {ttl now now' : ℤ} {k k' : κ} {t : ℤ} {m : SharedMap κ ℤ} {l : Times κ}

def Times.latest (l : Times κ) (k : κ) : Option ℤ := l.lookup k

theorem Times.latest_cons : Times.latest ((k', t) :: l) k = if k = k' then some t else l.latest k := by
  rw [latest, List.lookup_cons]
  by_cases hk : k = k'
  · rw [if_pos hk, beq_iff_eq.mpr hk]
  · rw [if_neg hk, beq_eq_false_iff_ne.mpr hk, latest]

/-- The map has the latest time of every key, but for some that are not young. -/
structure SharedMap.Remembers (ttl now : ℤ) (m : SharedMap κ ℤ) (l : Times κ) : Prop where
  sound : ∀ k t, m.get k = some t → l.latest k = some t
  complete : ∀ k t, l.latest k = some t → m.get k = some t ∨ ttl ≤ now - t

namespace Times.Ordered

omit [DecidableEq κ] in
theorem nil : Ordered now ([] : Times κ) := ⟨.nil, nofun⟩

omit [DecidableEq κ] in
theorem later (h : Ordered now l) (hle : now ≤ now') : Ordered now' l :=
  ⟨h.descends, fun e he ↦ Int.le_trans (h.past e he) hle⟩

omit [DecidableEq κ] in
theorem cons (h : Ordered now l) (k : κ) : Ordered now ((k, now) :: l) where
  descends := List.pairwise_cons.mpr ⟨h.past, h.descends⟩
  past := List.forall_mem_cons.mpr ⟨Int.le_refl now, h.past⟩

/-- Some time of the key is young exactly if the latest is. -/
theorem any_young (h : Ordered now l) : (l.any fun e ↦ e.1 = k && now - e.2 < ttl) = Young ttl now (l.latest k) := by
  obtain ⟨hdescends, -⟩ := h
  induction l with
  | nil => rfl
  | cons e l ih =>
    obtain ⟨k', t⟩ := e
    obtain ⟨hhead, htail⟩ := List.pairwise_cons.mp hdescends
    rw [List.any_cons, latest_cons]
    by_cases hk : k = k'
    · subst hk
      have hrest : (l.any fun e ↦ e.1 = k && now - e.2 < ttl) = true → now - t < ttl := by
        intro hany
        obtain ⟨e, he, hyoung⟩ := List.any_eq_true.mp hany
        have hle := hhead e he
        simp only [Bool.and_eq_true, decide_eq_true_eq] at hyoung
        omega
      rw [if_pos rfl]
      by_cases hyoung : now - t < ttl
      · simp [Young, hyoung]
      · simp [Young, hyoung, Bool.eq_false_iff.mpr fun hany ↦ hyoung (hrest hany)]
    · rw [if_neg hk, ← ih htail]
      simp [Ne.symm hk]

end Times.Ordered

namespace SharedMap.Remembers

theorem empty : Remembers ttl now (SharedMap.empty : SharedMap κ ℤ) [] := ⟨nofun, nofun⟩

theorem later (h : m.Remembers ttl now l) (hle : now ≤ now') : m.Remembers ttl now' l where
  sound := h.sound
  complete k t hk := (h.complete k t hk).imp_right fun hold ↦ by omega

theorem young (h : m.Remembers ttl now l) (k : κ) : Young ttl now (m.get k) = Young ttl now (l.latest k) := by
  cases hm : m.get k with
  | some t => rw [h.sound k t hm]
  | none =>
    cases hl : l.latest k with
    | none => rfl
    | some t =>
      have hold : ttl ≤ now - t := (h.complete k t hl).resolve_left (by simp [hm])
      simp [Young, hold]

theorem put (h : m.Remembers ttl now l) (k : κ) (t : ℤ) : (m.put k t).Remembers ttl now ((k, t) :: l) where
  sound k' t' hk' := by
    rw [Times.latest_cons]
    rcases SharedMap.get_put_some.mp hk' with ⟨rfl, rfl⟩ | ⟨hm, hne⟩
    · exact if_pos rfl
    · rw [if_neg hne]
      exact h.sound k' t' hm
  complete k' t' hk' := by
    rw [Times.latest_cons] at hk'
    by_cases hne : k' = k
    · rw [if_pos hne, Option.some.injEq] at hk'
      exact .inl (SharedMap.get_put_some.mpr (.inl ⟨hne, hk'.symm⟩))
    · rw [if_neg hne] at hk'
      exact (h.complete k' t' hk').imp_left fun hm ↦ SharedMap.get_put_some.mpr (.inr ⟨hm, hne⟩)

theorem filter (h : m.Remembers ttl now l) {p : κ × ℤ → Bool} (hp : ∀ e, now - e.2 < ttl → p e = true) :
    (m.filter p).Remembers ttl now l where
  sound k t hk := h.sound k t (SharedMap.get_filter_some.mp hk).1
  complete k t hk := by
    rcases h.complete k t hk with hm | hold
    · by_cases hyoung : now - t < ttl
      · exact .inl (SharedMap.get_filter_some.mpr ⟨hm, hp (k, t) hyoung⟩)
      · exact .inr (by omega)
    · exact .inr hold

end SharedMap.Remembers

end Effects
