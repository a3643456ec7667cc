import Aigentik.Effects.Layers

namespace Effects.Prog

variable {S T : Sig} {ε α β σ : Type} {s : σ}

/-- The execution of a program that cannot throw. -/
def answer (sem : (op : T.Op) → σ → T.Resp op × σ) : Prog T Empty α → σ → α × σ
  | .ret a, s => (a, s)
  | .throw e, _ => e.elim
  | .call op k, s => (k (sem op s).1).answer sem (sem op s).2

/-- Each call is executed by the layer below. -/
def through (sem : (op : T.Op) → σ → T.Resp op × σ) (f : (op : S.Op) → Prog T Empty (S.Resp op)) (op : S.Op) (s : σ) :
    S.Resp op × σ :=
  (f op).answer sem s

section

variable {sem : (op : S.Op) → σ → S.Resp op × σ}

theorem exec_tryCatch (p : Prog S ε α) (h : ε → Prog S ε α) : (p.tryCatch h).exec sem s =
    match p.exec sem s with
    | (.ok a, s') => (.ok a, s')
    | (.error e, s') => (h e).exec sem s' := by
  induction p generalizing s with
  | ret a => rfl
  | throw e => rfl
  | call op k ih => exact ih _

theorem Calls.exec_snd {C : S.Op → Prop} {p : Prog S ε α} (hp : p.Calls C) (hC : ∀ op s, C op → (sem op s).2 = s) :
    (p.exec sem s).2 = s := by
  induction p generalizing s with
  | ret a => rfl
  | throw e => rfl
  | call op k ih =>
    rw [exec, ih _ (hp.2 _)]
    exact hC op s hp.1

/-- Calls that are answered alike and leave the state as it is. -/
theorem Calls.exec_eq {C : S.Op → Prop} {A : (op : S.Op) → S.Resp op} {h : List (Event S)} {p : Prog S ε α}
    (hp : p.Calls C) (hC : ∀ op, C op → sem op s = (A op, s)) : p.exec sem s = (p.outcome (fun _ ↦ A) h, s) := by
  induction p generalizing h with
  | ret a => rfl
  | throw e => rfl
  | call op k ih =>
    rw [exec, hC op hp.1]
    exact ih _ (hp.2 _)

theorem answer_catching (p : Prog S ε α) : p.catching.answer sem s = p.exec sem s := by
  induction p generalizing s with
  | ret a => rfl
  | throw e => rfl
  | call op k ih => exact ih _

end

variable {sem : (op : T.Op) → σ → T.Resp op × σ} {f : (op : S.Op) → Prog T Empty (S.Resp op)}

theorem exec_graft (p : Prog T Empty α) (k : α → Prog T ε β) :
    (p.graft k).exec sem s = (k (p.answer sem s).1).exec sem (p.answer sem s).2 := by
  induction p generalizing s with
  | ret a => rfl
  | throw e => exact e.elim
  | call op c ih => exact ih _

theorem exec_subst (p : Prog S ε α) : (p.subst f).exec sem s = p.exec (through sem f) s := by
  induction p generalizing s with
  | ret a => rfl
  | throw e => rfl
  | call op k ih => exact (exec_graft _ _).trans (ih _)

theorem exec_lift (h : S.Hom T) (p : Prog S ε α) : (p.lift h).exec sem s =
    p.exec (fun op s ↦ (h.resp op (sem (h.op op) s).1, (sem (h.op op) s).2)) s := by
  induction p generalizing s with
  | ret a => rfl
  | throw e => rfl
  | call op k ih => exact ih _

end Effects.Prog
