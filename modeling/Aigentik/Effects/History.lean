import Aigentik.Effects.Program

namespace Effects

variable {S : Sig} {ε α : Type}

/-- After the calls `h`, the relation holds between each of the calls `es` and
those before it. -/
def Along (R : List (Event S) → Event S → Prop) (h es : List (Event S)) : Prop :=
  ∀ pre e post, es = pre ++ e :: post → R (h ++ pre) e

variable {R : List (Event S) → Event S → Prop} {h es es' : List (Event S)} {e : Event S}

@[simp] theorem along_nil : Along R h [] := by
  intro pre e post he
  simp at he

@[simp] theorem along_cons : Along R h (e :: es) ↔ R h e ∧ Along R (h ++ [e]) es := by
  constructor
  · intro H
    refine ⟨by simpa using H [] e es rfl, fun pre e' post he ↦ ?_⟩
    simpa using H (e :: pre) e' post (by simp [he])
  · intro h' pre e' post he
    obtain ⟨h₁, h₂⟩ := h'
    cases pre with
    | nil =>
      obtain ⟨rfl, -⟩ := List.cons_eq_cons.mp he
      simpa using h₁
    | cons a pre =>
      obtain ⟨rfl, rfl⟩ := List.cons_eq_cons.mp he
      simpa using h₂ pre e' post rfl

theorem along_append : Along R h (es ++ es') ↔ Along R h es ∧ Along R (h ++ es) es' := by
  induction es generalizing h with
  | nil => simp
  | cons e es ih => simp [ih, and_assoc]

instance decidableAlong [∀ h e, Decidable (R h e)] : ∀ h es, Decidable (Along R h es)
  | _, [] => isTrue along_nil
  | h, e :: es =>
    have : Decidable (Along R (h ++ [e]) es) := decidableAlong (h ++ [e]) es
    decidable_of_iff _ along_cons.symm

theorem Along.mono {R' : List (Event S) → Event S → Prop} (H : Along R h es)
    (hR : ∀ h e, R h e → R' h e) : Along R' h es :=
  fun pre e post he ↦ hR _ _ (H pre e post he)

/-- A call that is only made while no other of its kind has been made is made once. -/
theorem Along.at_most_once {C : S.Op → Bool}
    (H : Along (fun h e ↦ C e.1 = true → ∀ e' ∈ h, C e'.1 = false) h es) :
    ((es.map Sigma.fst).filter C).length ≤ 1 := by
  have hnone {h es : List (Event S)} {e : Event S} (he : e ∈ h) (hC : C e.1 = true)
      (H : Along (fun h e ↦ C e.1 = true → ∀ e' ∈ h, C e'.1 = false) h es) :
      (es.map Sigma.fst).filter C = [] := by
    refine List.filter_eq_nil_iff.mpr fun op hop hCop ↦ ?_
    obtain ⟨e', hmem, rfl⟩ := List.mem_map.mp hop
    obtain ⟨pre, post, heq⟩ := List.append_of_mem hmem
    rw [H pre e' post heq hCop e (List.mem_append_left _ he)] at hC
    cases hC
  induction es generalizing h with
  | nil => exact Nat.zero_le _
  | cons e es ih =>
    obtain ⟨-, hrest⟩ := along_cons.mp H
    rw [List.map_cons, List.filter_cons]
    split
    · rename_i hC
      rw [hnone (List.mem_append_right _ List.mem_cons_self) hC hrest]
      exact Nat.le_refl 1
    · exact ih hrest

/-- The discipline whose local state is the list of all calls so far. -/
def Discipline.history (allow : List (Event S) → S.Op → Prop)
    (may : List (Event S) → (op : S.Op) → S.Resp op → Prop) : Discipline S (List (Event S)) where
  allow := allow
  may := may
  next h op r := h ++ [⟨op, r⟩]

namespace Prog

variable {allow : List (Event S) → S.Op → Prop} {A : Answers S}
  {may : List (Event S) → (op : S.Op) → S.Resp op → Prop}
  {Q : Except ε α → List (Event S) → Prop}

/-- What is proved of a program holds in a run whose answers are as assumed. -/
theorem along_of_wp {p : Prog S ε α} (hp : p.wp (.history allow may) Q h)
    (hmay : Along (fun h e ↦ may h e.1 e.2) h (p.events A h)) :
    Along (fun h e ↦ allow h e.1) h (p.events A h) ∧
      Q (p.outcome A h) (h ++ p.events A h) := by
  induction p generalizing h with
  | ret a => simpa [events, outcome] using hp
  | throw e => simpa [events, outcome] using hp
  | call op k ih =>
    obtain ⟨h₁, h₂⟩ := along_cons.mp hmay
    obtain ⟨ih₁, ih₂⟩ := ih (A h op) (hp.2 _ h₁) h₂
    exact ⟨along_cons.mpr ⟨hp.1, ih₁⟩, by simpa [events, outcome, Discipline.history] using ih₂⟩

/-- What is proved of a program that may be answered anything holds of every run, with the local state
that its calls lead to. -/
theorem outcome_of_wp {L : Type} {D : Discipline S L} {Q : Except ε α → L → Prop} {p : Prog S ε α} {l : L}
    (hp : p.wp D Q l) (hmay : ∀ l op r, D.may l op r) (A : Answers S) (h : List (Event S)) :
    Q (p.outcome A h) ((p.events A h).foldl (fun l e ↦ D.next l e.1 e.2) l) := by
  induction p generalizing l h with
  | ret a => exact hp
  | throw e => exact hp
  | call op k ih => exact ih (A h op) (hp.2 _ (hmay ..)) _

/-- The answers of a run are those of its world. -/
theorem along_answers (A : Answers S) (p : Prog S ε α) (h : List (Event S)) :
    Along (fun h e ↦ e.2 = A h e.1) h (p.events A h) := by
  induction p generalizing h with
  | ret a => exact along_nil
  | throw e => exact along_nil
  | call op k ih => exact along_cons.mpr ⟨rfl, ih _ _⟩

theorem answer_of_mem (f : (op : S.Op) → S.Resp op) {p : Prog S ε α} {h : List (Event S)}
    (he : e ∈ p.events (fun _ ↦ f) h) : e.2 = f e.1 := by
  obtain ⟨pre, post, heq⟩ := List.append_of_mem he
  exact along_answers _ p h pre e post heq

theorem Calls.wp_history {C : S.Op → Prop} {p : Prog S ε α} (hp : p.Calls C) (h : List (Event S)) :
    p.wp (.history (fun _ _ ↦ True) may) (fun _ h' ↦ ∃ es, h' = h ++ es ∧ ∀ e ∈ es, C e.1) h := by
  refine hp.wp (fun h' op hh' hop ↦ ⟨trivial, fun r _ ↦ ?_⟩) ⟨[], by simp⟩
  obtain ⟨es, rfl, hes⟩ := hh'
  refine ⟨es ++ [⟨op, r⟩], List.append_assoc .., fun e he ↦ ?_⟩
  rcases List.mem_append.mp he with he | he
  · exact hes e he
  · rw [List.mem_singleton.mp he]
    exact hop

/-- What no further call can undo holds at the end. -/
theorem wp_of_stable {B : List (Event S) → Prop} (hB : ∀ h e, B h → B (h ++ [e])) (hh : B h)
    (p : Prog S ε α) : p.wp (.history (fun _ _ ↦ True) may) (fun _ ↦ B) h := by
  induction p generalizing h with
  | ret a => exact hh
  | throw e => exact hh
  | call op k ih => exact ⟨trivial, fun r _ ↦ ih r (hB _ _ hh)⟩

end Prog

end Effects
