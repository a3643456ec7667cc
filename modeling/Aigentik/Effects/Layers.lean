import Aigentik.Effects.Program

namespace Effects.Prog

variable {S T : Sig} {ε α β L : Type}

/-- A program that cannot throw, followed by one that can. -/
def graft : Prog T Empty α → (α → Prog T ε β) → Prog T ε β
  | .ret a, k => k a
  | .throw e, _ => e.elim
  | .call op c, k => .call op fun r ↦ (c r).graft k

/-- The outcome as a value. -/
def catching : Prog S ε α → Prog S Empty (Except ε α)
  | .ret a => .ret (.ok a)
  | .throw e => .ret (.error e)
  | .call op k => .call op fun r ↦ (k r).catching

/-- Each call is carried out by a program of the layer below. What fails there is
an answer here, so the upper layer's handlers and cleanups are not skipped. -/
def subst (f : (op : S.Op) → Prog T Empty (S.Resp op)) : Prog S ε α → Prog T ε α
  | .ret a => .ret a
  | .throw e => .throw e
  | .call op k => (f op).graft fun r ↦ (k r).subst f

theorem graft_bind {γ : Type} (p : Prog T Empty α) (k : α → Prog T ε β) (g : β → Prog T ε γ) :
    (p.graft k).bind g = p.graft fun a ↦ (k a).bind g := by
  induction p with
  | ret a => rfl
  | throw e => exact e.elim
  | call op c ih => simp only [graft, bind, ih]

theorem graft_tryFinally (p : Prog T Empty α) (k : α → Prog T ε β) (fin : Prog T ε Unit) :
    (p.graft k).tryFinally fin = p.graft fun a ↦ (k a).tryFinally fin := by
  induction p with
  | ret a => rfl
  | throw e => exact e.elim
  | call op c ih => simp only [graft, tryFinally, ih]

theorem graft_tryCatch (p : Prog T Empty α) (k : α → Prog T ε β) (h : ε → Prog T ε β) :
    (p.graft k).tryCatch h = p.graft fun a ↦ (k a).tryCatch h := by
  induction p with
  | ret a => rfl
  | throw e => exact e.elim
  | call op c ih => simp only [graft, tryCatch, ih]

variable (f : (op : S.Op) → Prog T Empty (S.Resp op))

theorem subst_bind (p : Prog S ε α) (k : α → Prog S ε β) :
    (p >>= k).subst f = p.subst f >>= fun a ↦ (k a).subst f := by
  induction p with
  | ret a => rfl
  | throw e => rfl
  | call op c ih =>
    simp only [call_bind, subst, ih]
    exact (graft_bind _ _ _).symm

theorem subst_tryCatch (p : Prog S ε α) (h : ε → Prog S ε α) :
    (p.tryCatch h).subst f = (p.subst f).tryCatch fun e ↦ (h e).subst f := by
  induction p with
  | ret a => rfl
  | throw e => rfl
  | call op c ih => simp only [tryCatch, subst, ih, graft_tryCatch]

theorem subst_tryFinally (p : Prog S ε α) (fin : Prog S ε Unit) :
    (p.tryFinally fin).subst f = (p.subst f).tryFinally (fin.subst f) := by
  induction p with
  | ret a => exact subst_bind f fin fun _ ↦ .ret a
  | throw e => exact subst_bind f fin fun _ ↦ .throw e
  | call op c ih => simp only [tryFinally, subst, ih, graft_tryFinally]

variable {f} {D : Discipline T L} {l : L}

theorem wp_graft {Q : Except ε β → L → Prop} (p : Prog T Empty α) (k : α → Prog T ε β) :
    (p.graft k).wp D Q l ↔ p.wp D (exits (fun a ↦ (k a).wp D Q) fun e _ ↦ e.elim) l := by
  induction p generalizing l with
  | ret a => rfl
  | throw e => exact e.elim
  | call op c ih => simp only [graft, wp_call, ih]

theorem wp_catching {Q : Except Empty (Except ε α) → L → Prop} (p : Prog T ε α) :
    p.catching.wp D Q l ↔ p.wp D (fun o ↦ Q (.ok o)) l := by
  induction p generalizing l with
  | ret a => rfl
  | throw e => rfl
  | call op k ih => simp only [catching, wp_call, ih]

theorem wp_subst_call {Q : Except ε α → L → Prop} (op : S.Op) (k : S.Resp op → Prog S ε α) :
    ((Prog.call op k).subst f).wp D Q l ↔
      (f op).wp D (exits (fun r ↦ ((k r).subst f).wp D Q) fun e _ ↦ e.elim) l :=
  wp_graft _ _

theorem Total.graft {p : Prog T Empty α} {k : α → Prog T ε β} (hk : ∀ a, (k a).Total) : (p.graft k).Total := by
  induction p with
  | ret a => exact hk a
  | throw e => exact e.elim
  | call op c ih => exact ih

theorem Total.subst {p : Prog S ε α} (hp : p.Total) : (p.subst f).Total := by
  induction p with
  | ret a => trivial
  | throw e => exact hp
  | call op k ih => exact Total.graft fun r ↦ ih r (hp r)

theorem Calls.wp_subst {C : S.Op → Prop} {I : L → Prop} {p : Prog S ε α} (hp : p.Calls C)
    (hf : ∀ l op, I l → C op → (f op).wp D (fun _ ↦ I) l) (hl : I l) :
    (p.subst f).wp D (fun _ ↦ I) l := by
  induction p generalizing l with
  | ret a => exact hl
  | throw e => exact hl
  | call op k ih =>
    refine (wp_graft _ _).mpr (wp_mono (hf l op hl hp.1) fun o l' hl' ↦ ?_)
    cases o with
    | ok r => exact ih r (hp.2 r) hl'
    | error e => exact e.elim

/-- What each call keeps, the program keeps. -/
theorem wp_subst {I : L → Prop} (p : Prog S ε α) (hf : ∀ l op, I l → (f op).wp D (fun _ ↦ I) l) (hl : I l) :
    (p.subst f).wp D (fun _ ↦ I) l :=
  (calls_of_forall (C := fun _ ↦ True) (fun _ ↦ trivial) p).wp_subst (fun l op hl _ ↦ hf l op hl) hl

end Effects.Prog
