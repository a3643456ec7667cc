import Aigentik.Effects.Program
import Mathlib.Logic.Relation

namespace Effects

variable {S T : Sig} {ε α β σ ι : Type}

/-- The answers that a call may get in a state, each with the state after it. -/
abbrev Reacts (S : Sig) (σ : Type) := (op : S.Op) → σ → S.Resp op → σ → Prop

namespace Prog

/-- The program runs from one state to its end in another, without interruption. -/
inductive Runs (R : Reacts S σ) : Prog S ε α → σ → Except ε α → σ → Prop
  | ret (a : α) (s : σ) : Runs R (.ret a) s (.ok a) s
  | throw (e : ε) (s : σ) : Runs R (.throw e) s (.error e) s
  | call {op : S.Op} {k : S.Resp op → Prog S ε α} {s s' t : σ} {r : S.Resp op} {o : Except ε α} :
      R op s r s' → Runs R (k r) s' o t → Runs R (.call op k) s o t

/-- Every run of the program from the state ends as `Q` says. -/
def Must (R : Reacts S σ) (Q : Except ε α → σ → Prop) : Prog S ε α → σ → Prop
  | .ret a, s => Q (.ok a) s
  | .throw e, s => Q (.error e) s
  | .call op k, s => ∀ r s', R op s r s' → (k r).Must R Q s'

variable {R R' : Reacts S σ} {Q Q' : Except ε α → σ → Prop} {s : σ}

theorem Must.of_runs {p : Prog S ε α} (h : p.Must R Q s) {o : Except ε α} {s' : σ} (hr : p.Runs R s o s') :
    Q o s' := by
  induction hr with
  | ret a s => exact h
  | throw e s => exact h
  | call hstep _ ih => exact ih (h _ _ hstep)

theorem Must.mono {p : Prog S ε α} (h : p.Must R Q s) (hQ : ∀ o s, Q o s → Q' o s) : p.Must R Q' s := by
  induction p generalizing s with
  | ret a => exact hQ _ _ h
  | throw e => exact hQ _ _ h
  | call op k ih => exact fun r s' hr ↦ ih r (h r s' hr)

theorem must_iff {p : Prog S ε α} : p.Must R Q s ↔ ∀ o s', p.Runs R s o s' → Q o s' := by
  refine ⟨fun h o s' hr ↦ h.of_runs hr, fun h ↦ ?_⟩
  induction p generalizing s with
  | ret a => exact h _ _ (.ret a s)
  | throw e => exact h _ _ (.throw e s)
  | call op k ih => exact fun r s' hstep ↦ ih r fun o t hr ↦ h o t (.call hstep hr)

theorem Runs.bind {p : Prog S ε α} {f : α → Prog S ε β} {a : α} {s' t : σ} {o : Except ε β}
    (h : p.Runs R s (.ok a) s') (hf : (f a).Runs R s' o t) : (p >>= f).Runs R s o t := by
  generalize hok : Except.ok a = out at h
  induction h with
  | ret b s =>
    cases hok
    exact hf
  | throw e s => cases hok
  | call hstep _ ih => exact .call hstep (ih hf hok)

theorem Runs.bind_error {p : Prog S ε α} {f : α → Prog S ε β} {e : ε} {s' : σ} (h : p.Runs R s (.error e) s') :
    (p >>= f).Runs R s (.error e) s' := by
  generalize herror : Except.error e = out at h
  induction h with
  | ret b s => cases herror
  | throw e s =>
    cases herror
    exact .throw e s
  | call hstep _ ih => exact .call hstep (ih herror)

theorem Runs.tryCatch_ok {p : Prog S ε α} {f : ε → Prog S ε α} {a : α} {s' : σ} (h : p.Runs R s (.ok a) s') :
    (p.tryCatch f).Runs R s (.ok a) s' := by
  generalize hok : Except.ok a = out at h
  induction h with
  | ret b s =>
    cases hok
    exact .ret _ s
  | throw e s => cases hok
  | call hstep _ ih => exact .call hstep (ih hok)

theorem Runs.tryCatch_error {p : Prog S ε α} {f : ε → Prog S ε α} {e : ε} {s' t : σ} {o : Except ε α}
    (h : p.Runs R s (.error e) s') (hf : (f e).Runs R s' o t) : (p.tryCatch f).Runs R s o t := by
  generalize herror : Except.error e = out at h
  induction h with
  | ret b s => cases herror
  | throw e s =>
    cases herror
    exact hf
  | call hstep _ ih => exact .call hstep (ih hf herror)

theorem must_bind {Q : Except ε β → σ → Prop} (p : Prog S ε α) (f : α → Prog S ε β) :
    (p >>= f).Must R Q s ↔ p.Must R (exits (fun a ↦ (f a).Must R Q) fun e ↦ Q (.error e)) s := by
  induction p generalizing s with
  | ret a => rfl
  | throw e => rfl
  | call op k ih => simp only [call_bind, Must, ih]

theorem must_tryCatch (p : Prog S ε α) (f : ε → Prog S ε α) :
    (p.tryCatch f).Must R Q s ↔ p.Must R (exits (fun a ↦ Q (.ok a)) fun e ↦ (f e).Must R Q) s := by
  induction p generalizing s with
  | ret a => rfl
  | throw e => rfl
  | call op k ih => simp only [call_tryCatch, Must, ih]

theorem must_lift {R : Reacts T σ} (f : S.Hom T) (p : Prog S ε α) :
    (p.lift f).Must R Q s ↔ p.Must (fun op s r ↦ R (f.op op) s ((f.resp op).symm r)) Q s := by
  induction p generalizing s with
  | ret a => rfl
  | throw e => rfl
  | call op k ih =>
    simp only [lift, Must, ih]
    exact (f.resp op).forall_congr fun r ↦ by simp only [Equiv.symm_apply_apply]

/-- A condition that every call of the program keeps holds at the end. -/
theorem Calls.must {C : S.Op → Prop} {I : σ → Prop} {p : Prog S ε α} (hp : p.Calls C)
    (hI : ∀ op s r s', C op → I s → R op s r s' → I s') (hs : I s) : p.Must R (fun _ ↦ I) s := by
  induction p generalizing s with
  | ret a => exact hs
  | throw e => exact hs
  | call op k ih => exact fun r s' hr ↦ ih r (hp.2 r) (hI op s r s' hp.1 hs hr)

/-- The calls of an execution against a state that answers every call. -/
def trace (sem : (op : S.Op) → σ → S.Resp op × σ) : Prog S ε α → σ → List S.Op
  | .ret _, _ | .throw _, _ => []
  | .call op k, s => op :: (k (sem op s).1).trace sem (sem op s).2

/-- Such an execution is one of the runs. -/
theorem runs_exec {C : S.Op → Prop} {sem : (op : S.Op) → σ → S.Resp op × σ}
    (h : ∀ op s, C op → R op s (sem op s).1 (sem op s).2) (p : Prog S ε α) (s : σ)
    (hp : ∀ op ∈ p.trace sem s, C op) : p.Runs R s (p.exec sem s).1 (p.exec sem s).2 := by
  induction p generalizing s with
  | ret a => exact .ret a s
  | throw e => exact .throw e s
  | call op k ih =>
    refine .call (h op s (hp op List.mem_cons_self)) (ih _ _ fun op' hop' ↦ hp op' ?_)
    exact List.mem_cons_of_mem _ hop'

end Prog

/-- What happened, and how it ended. -/
abbrev Done (ι ε α : Type) := ι × Except ε α

/-- The histories of operations that are run one after another, each with the state
that it leads to. -/
inductive Serial (step : List (Done ι ε α) × σ → ι → Except ε α → σ → Prop) (s : σ) :
    List (Done ι ε α) → σ → Prop
  | init : Serial step s [] s
  | next {h : List (Done ι ε α)} {t t' : σ} {x : ι} {o : Except ε α} :
      Serial step s h t → step (h, t) x o t' → Serial step s (h ++ [(x, o)]) t'

/-- What holds at first and is kept by each operation holds of every history. -/
theorem Serial.invariant {step : List (Done ι ε α) × σ → ι → Except ε α → σ → Prop} {s t : σ}
    {I : List (Done ι ε α) → σ → Prop} {h : List (Done ι ε α)} (hs : Serial step s h t) (hinit : I [] s)
    (hkeep : ∀ h t x o t', I h t → step (h, t) x o t' → I (h ++ [(x, o)]) t') : I h t := by
  induction hs with
  | init => exact hinit
  | next _ hn ih => exact hkeep _ _ _ _ _ ih hn

end Effects
