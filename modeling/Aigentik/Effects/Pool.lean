import Aigentik.Effects.Program
import Mathlib.Data.List.Forall2
import Mathlib.Logic.Relation

namespace Effects

/-- Threads over one shared state. `act` answers a call of a thread, or blocks;
the offered answer is used where the state does not decide. A call may also
start the program of a new thread. -/
structure Machine (S : Sig) (ε σ ι : Type) where
  act : ℕ → (op : S.Op) → S.Resp op → σ → Option (S.Resp op × σ)
  entry : ι → Prog S ε Unit
  spawned : S.Op → Option (Prog S ε Unit)

structure Config (S : Sig) (ε σ : Type) where
  shared : σ
  threads : List (Prog S ε Unit)

/-- The scheduler starts an entry program, or lets one thread make its next call. -/
inductive Label (S : Sig) (ι : Type)
  | start (x : ι)
  | step (i : ℕ) (offer : (op : S.Op) → S.Resp op)

/-- A condition on the steps of a run: on the inputs that start a thread, and on
the calls made in a shared state. -/
structure Guard (S : Sig) (σ ι : Type) where
  start : σ → ι → Prop
  call : σ → ℕ → S.Op → Prop

variable {S : Sig} {ε σ ι L : Type}

theorem forall₂_set {α β : Type} {R : α → β → Prop} {as : List α} {bs : List β}
    (h : List.Forall₂ R as bs) {a : α} {b : β} (hab : R a b) (i : ℕ) :
    List.Forall₂ R (as.set i a) (bs.set i b) := by
  induction h generalizing i with
  | nil => exact .nil
  | cons h₁ h₂ ih =>
    cases i with
    | zero => exact .cons hab h₂
    | succ i => exact .cons h₁ (ih i)

theorem set_of_getElem? {ls : List L} {i : ℕ} {l : L} (h : ls[i]? = some l) : ls.set i l = ls := by
  obtain ⟨hlt, rfl⟩ := List.getElem?_eq_some_iff.mp h
  exact List.set_getElem_self hlt

theorem getElem?_append_of_some {ls new : List L} {i : ℕ} {l : L} (h : ls[i]? = some l) :
    (ls ++ new)[i]? = some l := by
  rw [List.getElem?_append_left (List.getElem?_eq_some_iff.mp h).1, h]

theorem getElem?_set_of_some {ls : List L} {i : ℕ} {l l' : L} (h : ls[i]? = some l) :
    (ls.set i l')[i]? = some l' := by
  rw [List.getElem?_set_self (List.getElem?_eq_some_iff.mp h).1]

/-- After a step of thread `i`: its own new local state, the unchanged one of
another thread, or the local state of a spawned thread. -/
theorem getElem?_step {ls new : List L} {i j : ℕ} {l x : L}
    (h : (ls.set i l ++ new)[j]? = some x) :
    (j = i ∧ x = l) ∨ (j ≠ i ∧ ls[j]? = some x) ∨ (ls.length ≤ j ∧ x ∈ new) := by
  rw [List.getElem?_append] at h
  split at h
  · rename_i hlt
    rw [List.length_set] at hlt
    rw [List.getElem?_set] at h
    split at h
    · subst_vars
      simp only [hlt, if_true, Option.some.injEq] at h
      exact .inl ⟨rfl, h.symm⟩
    · exact .inr (.inl ⟨Ne.symm ‹_›, h⟩)
  · rename_i hge
    rw [List.length_set, Nat.not_lt] at hge
    exact .inr (.inr ⟨hge, List.mem_of_getElem? h⟩)

/-- A lock has at most one holder, and none while it is free. -/
def Sole (holds : L → Prop) (locked : Bool) (ls : List L) : Prop :=
  ∀ (i : ℕ) (l : L), ls[i]? = some l → holds l →
    locked ∧ ∀ (j : ℕ) (l' : L), ls[j]? = some l' → holds l' → j = i

namespace Sole

variable {holds : L → Prop} {locked : Bool} {ls new : List L} {i : ℕ} {l l' : L}

theorem nil : Sole holds locked ([] : List L) := by simp [Sole]

theorem append (h : Sole holds locked ls) (hnew : ∀ x ∈ new, ¬holds x) :
    Sole holds locked (ls ++ new) := by
  have old {j : ℕ} {x : L} (hj : (ls ++ new)[j]? = some x) (hx : holds x) : ls[j]? = some x := by
    rw [List.getElem?_append] at hj
    split at hj
    · exact hj
    · exact absurd hx (hnew x (List.mem_of_getElem? hj))
  intro j x hj hx
  obtain ⟨hlocked, huniq⟩ := h j x (old hj hx) hx
  exact ⟨hlocked, fun k y hk hy ↦ huniq k y (old hk hy) hy⟩

/-- A step that neither takes nor releases the lock. -/
theorem keep (h : Sole holds locked ls) (hi : ls[i]? = some l) (hl : holds l' → holds l) :
    Sole holds locked (ls.set i l') := by
  have old {j : ℕ} {x : L} (hj : (ls.set i l')[j]? = some x) (hx : holds x) :
      ∃ y, ls[j]? = some y ∧ holds y := by
    have hj' : (ls.set i l' ++ [])[j]? = some x := by simpa using hj
    rcases getElem?_step hj' with ⟨rfl, rfl⟩ | ⟨-, hj⟩ | ⟨-, hx'⟩
    · exact ⟨l, hi, hl hx⟩
    · exact ⟨x, hj, hx⟩
    · cases hx'
  intro j x hj hx
  obtain ⟨y, hy, hhy⟩ := old hj hx
  obtain ⟨hlocked, huniq⟩ := h j y hy hhy
  refine ⟨hlocked, fun k z hk hz ↦ ?_⟩
  obtain ⟨w, hw, hhw⟩ := old hk hz
  exact huniq k w hw hhw

/-- A free lock is handed to a new thread. -/
theorem launch {x : L} (h : Sole holds false ls) : Sole holds true (ls ++ [x]) := by
  have last {j : ℕ} {y : L} (hj : (ls ++ [x])[j]? = some y) (hy : holds y) : j = ls.length := by
    rw [List.getElem?_append] at hj
    split at hj
    · exact absurd (h j y hj hy).1 (by simp)
    · rename_i hge
      have hlt : j - ls.length < 1 := (List.getElem?_eq_some_iff.mp hj).1
      omega
  intro j y hj hy
  exact ⟨rfl, fun k z hk hz ↦ (last hk hz).trans (last hj hy).symm⟩

theorem acquire (h : Sole holds false ls) : Sole holds true (ls.set i l') := by
  have own {j : ℕ} {x : L} (hj : (ls.set i l')[j]? = some x) (hx : holds x) : j = i := by
    have hj' : (ls.set i l' ++ [])[j]? = some x := by simpa using hj
    rcases getElem?_step hj' with ⟨rfl, -⟩ | ⟨-, hj⟩ | ⟨-, hx'⟩
    · rfl
    · exact absurd (h j x hj hx).1 (by simp)
    · cases hx'
  intro j x hj hx
  exact ⟨rfl, fun k y hk hy ↦ (own hk hy).trans (own hj hx).symm⟩

theorem release (h : Sole holds locked ls) (hi : ls[i]? = some l) (hl : holds l)
    (hl' : ¬holds l') : Sole holds false (ls.set i l') := by
  intro j x hj hx
  have hj' : (ls.set i l' ++ [])[j]? = some x := by simpa using hj
  rcases getElem?_step hj' with ⟨rfl, rfl⟩ | ⟨hne, hj⟩ | ⟨-, hx'⟩
  · exact absurd hx hl'
  · exact absurd ((h i l hi hl).2 j x hj hx) hne
  · cases hx'

/-- The holder hands the lock to a new thread. -/
theorem handOver {x : L} (h : Sole holds locked ls) (hi : ls[i]? = some l) (hl : holds l) (hl' : ¬holds l') :
    Sole holds locked (ls.set i l' ++ [x]) := by
  rw [(h i l hi hl).1]
  exact (h.release hi hl hl').launch

end Sole

def Guard.free : Guard S σ ι where
  start _ _ := True
  call _ _ _ := True

namespace Machine

variable (M : Machine S ε σ ι)

def next (c : Config S ε σ) : Label S ι → Option (Config S ε σ)
  | .start x => some { c with threads := c.threads ++ [M.entry x] }
  | .step i offer =>
    match c.threads[i]? with
    | some (.call op k) =>
      match M.act i op (offer op) c.shared with
      | some (r, s) => some ⟨s, c.threads.set i (k r) ++ (M.spawned op).toList⟩
      | none => none
    | _ => none

/-- The step `l` from `c` meets the condition. -/
def Meets (G : Guard S σ ι) (c : Config S ε σ) : Label S ι → Prop
  | .start x => G.start c.shared x
  | .step i _ => ∀ op k, c.threads[i]? = some (.call op k) → G.call c.shared i op

def Steps (G : Guard S σ ι) (c c' : Config S ε σ) : Prop :=
  ∃ l, Meets G c l ∧ M.next c l = some c'

/-- The configurations of the runs whose steps all meet the condition. -/
def Reachable (G : Guard S σ ι) : Config S ε σ → Config S ε σ → Prop :=
  Relation.ReflTransGen (M.Steps G)

/-- Whether the call made by a step passes a check; a start always does. -/
def passes (check : σ → ℕ → S.Op → Bool) (c : Config S ε σ) : Label S ι → Bool
  | .start _ => true
  | .step i _ =>
    match c.threads[i]? with
    | some (.call op _) => check c.shared i op
    | _ => true

/-- A run along given labels. It fails where a step is blocked or does not pass. -/
def run (check : σ → ℕ → S.Op → Bool) (c : Config S ε σ) (ls : List (Label S ι)) :
    Option (Config S ε σ) :=
  ls.foldlM (fun c l ↦ if passes check c l then M.next c l else none) c

theorem reachable_of_run {G : Guard S σ ι} {check : σ → ℕ → S.Op → Bool} {c c' : Config S ε σ}
    {ls : List (Label S ι)} (hs : ∀ s x, G.start s x) (hc : ∀ s i op, check s i op → G.call s i op)
    (h : M.run check c ls = some c') : M.Reachable G c c' := by
  induction ls generalizing c with
  | nil => cases h; exact .refl
  | cons l ls ih =>
    obtain ⟨d, hd, hr⟩ := Option.bind_eq_some_iff.mp h
    replace hd : (if passes check c l then M.next c l else none) = some d := hd
    split at hd
    · rename_i hp
      refine .head ⟨l, ?_, hd⟩ (ih hr)
      cases l with
      | start x => exact hs _ x
      | step i offer =>
        intro op k hk
        simp only [passes, hk] at hp
        exact hc _ i op hp
    · cases hd

end Machine

/-- A proof outline for all threads of a machine: each thread follows one
discipline, and a global invariant ties the shared state to the threads' local
states. Steps that miss the condition `G` need not be covered. -/
structure Outline (M : Machine S ε σ ι) (G : Guard S σ ι) (L : Type) where
  disc : Discipline S L
  final : L → Prop
  entryLocal : ι → L
  spawnLocal : S.Op → L
  inv : σ → List L → Prop
  entry_wp : ∀ s x, G.start s x → (M.entry x).wp disc (fun _ ↦ final) (entryLocal x)
  spawn_wp : ∀ s i op p, G.call s i op → M.spawned op = some p →
    p.wp disc (fun _ ↦ final) (spawnLocal op)
  inv_start : ∀ s ls x, G.start s x → inv s ls → inv s (ls ++ [entryLocal x])
  inv_call : ∀ s ls i l op offer r s', ls[i]? = some l → disc.allow l op → G.call s i op →
    M.act i op offer s = some (r, s') → inv s ls → disc.may l op r ∧
      inv s' (ls.set i (disc.next l op r) ++ ((M.spawned op).map fun _ ↦ spawnLocal op).toList)

namespace Outline

variable {M : Machine S ε σ ι} {G : Guard S σ ι} (O : Outline M G L)

def Holds (c : Config S ε σ) : Prop :=
  ∃ ls, List.Forall₂ (fun p l ↦ p.wp O.disc (fun _ ↦ O.final) l) c.threads ls ∧ O.inv c.shared ls

theorem start {c : Config S ε σ} {x : ι} (hx : G.start c.shared x) (h : O.Holds c) :
    O.Holds { c with threads := c.threads ++ [M.entry x] } := by
  obtain ⟨ls, hls, hinv⟩ := h
  exact ⟨_, List.rel_append hls (.cons (O.entry_wp _ x hx) .nil), O.inv_start _ ls x hx hinv⟩

theorem step {c : Config S ε σ} {i : ℕ} {op : S.Op} {k : S.Resp op → Prog S ε Unit}
    {offer r : S.Resp op} {s : σ} (hi : c.threads[i]? = some (.call op k))
    (hG : G.call c.shared i op) (ha : M.act i op offer c.shared = some (r, s)) (h : O.Holds c) :
    O.Holds ⟨s, c.threads.set i (k r) ++ (M.spawned op).toList⟩ := by
  obtain ⟨ls, hls, hinv⟩ := h
  obtain ⟨hlt, hget⟩ := List.getElem?_eq_some_iff.mp hi
  have hlt' : i < ls.length := hls.length_eq ▸ hlt
  have hl : ls[i]? = some ls[i] := List.getElem?_eq_getElem hlt'
  have hwp : (Prog.call op k).wp O.disc (fun _ ↦ O.final) ls[i] := hget ▸ hls.get hlt hlt'
  obtain ⟨hmay, hinv'⟩ := O.inv_call _ ls i ls[i] op offer r s hl hwp.1 hG ha hinv
  refine ⟨_, List.rel_append (forall₂_set hls (hwp.2 r hmay) i) ?_, hinv'⟩
  cases hsp : M.spawned op with
  | none => exact .nil
  | some p => exact .cons (O.spawn_wp _ i op p hG hsp) .nil

/-- The outline holds in every state reached by a run that meets the condition. -/
theorem reachable {c c' : Config S ε σ} (hr : M.Reachable G c c') (h : O.Holds c) : O.Holds c' := by
  induction hr with
  | refl => exact h
  | @tail b d _ hstep ih =>
    obtain ⟨l, hl, hn⟩ := hstep
    cases l with
    | start x => cases hn; exact O.start hl ih
    | step i offer =>
      simp only [Machine.next] at hn
      split at hn
      · rename_i op k hi
        split at hn
        · rename_i r s ha
          cases hn
          exact O.step hi (hl op k hi) ha ih
        · cases hn
      · cases hn

theorem holds_init {s : σ} (h : O.inv s []) : O.Holds ⟨s, []⟩ := ⟨[], .nil, h⟩

end Outline

end Effects
