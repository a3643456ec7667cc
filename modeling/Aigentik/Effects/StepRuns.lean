import Mathlib.Data.List.Infix

/-! Runs of systems that take labelled steps. -/

namespace Effects

variable {σ ε : Type}

inductive StepRun (step : σ → ε → σ → Prop) : σ → List ε → σ → Prop
  | nil (s : σ) : StepRun step s [] s
  | cons {s s' s'' : σ} {e : ε} {es : List ε} : step s e s' → StepRun step s' es s'' → StepRun step s (e :: es) s''

namespace StepRun

variable {step : σ → ε → σ → Prop} {s s' s'' : σ} {e : ε} {es es' : List ε} {I : σ → Prop}

/-- The run of a machine whose steps are computed. -/
theorem of_foldlM {f : σ → ε → Option σ} (h : es.foldlM f s = some s') :
    StepRun (fun s e s' ↦ f s e = some s') s es s' := by
  induction es generalizing s with
  | nil =>
    obtain rfl : s = s' := Option.some.inj h
    exact .nil s
  | cons e es ih =>
    obtain ⟨s₁, hfirst, hrest⟩ := Option.bind_eq_some_iff.mp h
    exact .cons hfirst (ih hrest)

theorem append (h : StepRun step s es s') (h' : StepRun step s' es' s'') : StepRun step s (es ++ es') s'' := by
  induction h with
  | nil s => exact h'
  | cons hstep _ ih => exact .cons hstep (ih h')

theorem split (h : StepRun step s (es ++ es') s'') : ∃ s', StepRun step s es s' ∧ StepRun step s' es' s'' := by
  induction es generalizing s with
  | nil => exact ⟨s, .nil s, h⟩
  | cons e es ih =>
    cases h with
    | cons hfirst hrest =>
      obtain ⟨s', hes, hes'⟩ := ih hrest
      exact ⟨s', .cons hfirst hes, hes'⟩

/-- What every step of the run keeps holds at the end. -/
theorem invariant (h : StepRun step s es s') (hkeep : ∀ e ∈ es, ∀ s s', I s → step s e s' → I s') (hs : I s) :
    I s' := by
  induction h with
  | nil s => exact hs
  | cons hfirst _ ih =>
    obtain ⟨hkept, hrest⟩ := List.forall_mem_cons.mp hkeep
    exact ih hrest (hkept _ _ hs hfirst)

/-- At every moment of a longer list of labels, what each of its steps keeps. -/
theorem invariant_at {earlier : List ε} (h : StepRun step s earlier s') (hpre : earlier <+: es) (hs : I s)
    (hkeep : ∀ before e s₁ s₂, before ++ [e] <+: es → StepRun step s before s₁ → I s₁ → step s₁ e s₂ → I s₂) :
    I s' := by
  induction earlier using List.reverseRecOn generalizing s' with
  | nil =>
    cases h
    exact hs
  | append_singleton before e ih =>
    obtain ⟨s₁, hbefore, hlast⟩ := h.split
    cases hlast with
    | cons hstep hnil =>
      cases hnil
      have hs₁ := ih hbefore ((List.prefix_append before [e]).trans hpre)
      exact hkeep before e s₁ _ hpre hbefore hs₁ hstep

/-- A step that every state with `I` refuses is not in the run. -/
theorem not_mem (h : StepRun step s es s') (hkeep : ∀ e ∈ es, ∀ s s', I s → step s e s' → I s') (hs : I s)
    (hrefused : ∀ s s', I s → ¬step s e s') : e ∉ es := by
  induction h with
  | nil s => exact List.not_mem_nil
  | cons hfirst _ ih =>
    obtain ⟨hkept, hrest⟩ := List.forall_mem_cons.mp hkeep
    intro hmem
    rcases List.mem_cons.mp hmem with heq | hmem
    · exact hrefused _ _ hs (heq ▸ hfirst)
    · exact ih hrest (hkept _ _ hs hfirst) hmem

/-- A run whose steps are matched by those of another system is matched by a run with the same labels. -/
theorem simulates {τ : Type} {step' : τ → ε → τ → Prop} {R : σ → τ → Prop} {t : τ} (h : StepRun step s es s')
    (hsim : ∀ s e s' t, R s t → step s e s' → ∃ t', step' t e t' ∧ R s' t') (hst : R s t) :
    ∃ t', StepRun step' t es t' ∧ R s' t' := by
  induction h generalizing t with
  | nil s => exact ⟨t, .nil t, hst⟩
  | cons hfirst _ ih =>
    obtain ⟨t₁, hstep, hrel⟩ := hsim _ _ _ _ hst hfirst
    obtain ⟨t', hrest, hrel'⟩ := ih hrel
    exact ⟨t', .cons hstep hrest, hrel'⟩

end StepRun

end Effects
