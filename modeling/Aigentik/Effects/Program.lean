import Mathlib.Logic.Basic
import Mathlib.Data.List.Basic
import Mathlib.Logic.Equiv.Defs

namespace Effects

/-- The operations a program may call, each with the type of its answer. -/
structure Sig where
  Op : Type
  Resp : Op → Type

/-- A program over a signature returns, throws, or calls one operation and goes
on with its answer. One call is the unit that other threads interleave with. -/
inductive Prog (S : Sig) (ε α : Type) : Type
  | ret (a : α)
  | throw (e : ε)
  | call (op : S.Op) (k : S.Resp op → Prog S ε α)

variable {S : Sig} {ε α β γ : Type}

namespace Prog

def bind : Prog S ε α → (α → Prog S ε β) → Prog S ε β
  | .ret a, f => f a
  | .throw e, _ => .throw e
  | .call op k, f => .call op fun r ↦ (k r).bind f

instance : Monad (Prog S ε) where
  pure := .ret
  bind := bind

def perform (op : S.Op) : Prog S ε (S.Resp op) := .call op .ret

def ofExcept : Except ε α → Prog S ε α
  | .ok a => .ret a
  | .error e => .throw e

def tryCatch : Prog S ε α → (ε → Prog S ε α) → Prog S ε α
  | .ret a, _ => .ret a
  | .throw e, h => h e
  | .call op k, h => .call op fun r ↦ (k r).tryCatch h

/-- `try p finally fin`: the cleanup runs on both exits, and its own exception
replaces the outcome. -/
def tryFinally : Prog S ε α → Prog S ε Unit → Prog S ε α
  | .ret a, fin => fin.bind fun _ ↦ .ret a
  | .throw e, fin => fin.bind fun _ ↦ .throw e
  | .call op k, fin => .call op fun r ↦ (k r).tryFinally fin

@[simp] theorem pure_eq (a : α) : (pure a : Prog S ε α) = .ret a := rfl

@[simp] theorem ret_bind (a : α) (f : α → Prog S ε β) : (Prog.ret a >>= f) = f a := rfl

@[simp] theorem throw_bind (e : ε) (f : α → Prog S ε β) : (Prog.throw e >>= f) = .throw e := rfl

@[simp] theorem call_bind (op : S.Op) (k : S.Resp op → Prog S ε α) (f : α → Prog S ε β) :
    (Prog.call op k >>= f) = .call op fun r ↦ k r >>= f := rfl

@[simp] theorem perform_bind (op : S.Op) (f : S.Resp op → Prog S ε β) :
    (perform op >>= f) = .call op f := rfl

@[simp] theorem ofExcept_ok (a : α) : (ofExcept (.ok a) : Prog S ε α) = .ret a := rfl

@[simp] theorem ofExcept_error (e : ε) : (ofExcept (.error e) : Prog S ε α) = .throw e := rfl

theorem bind_ret (p : Prog S ε α) : p.bind .ret = p := by
  induction p with
  | ret a => rfl
  | throw e => rfl
  | call op k ih => simp only [bind, ih]

theorem bind_bind (p : Prog S ε α) (f : α → Prog S ε β) (g : β → Prog S ε γ) :
    (p.bind f).bind g = p.bind fun a ↦ (f a).bind g := by
  induction p with
  | ret a => rfl
  | throw e => rfl
  | call op k ih => simp only [bind, ih]

instance : LawfulMonad (Prog S ε) :=
  LawfulMonad.mk' _ bind_ret (fun _ _ ↦ rfl) bind_bind

@[simp] theorem ret_tryCatch (a : α) (h : ε → Prog S ε α) : (Prog.ret a).tryCatch h = .ret a := rfl

@[simp] theorem throw_tryCatch (e : ε) (h : ε → Prog S ε α) : (Prog.throw e).tryCatch h = h e := rfl

@[simp] theorem call_tryCatch (op : S.Op) (k : S.Resp op → Prog S ε α) (h : ε → Prog S ε α) :
    (Prog.call op k).tryCatch h = .call op fun r ↦ (k r).tryCatch h := rfl

end Prog

/-- One call together with the answer it got. -/
abbrev Event (S : Sig) := (op : S.Op) × S.Resp op

/-- What the world answers, given everything that was called before. -/
abbrev Answers (S : Sig) := List (Event S) → (op : S.Op) → S.Resp op

namespace Prog

/-- The calls of a run that starts after the calls `h`. -/
def events (A : Answers S) : Prog S ε α → List (Event S) → List (Event S)
  | .ret _, _ | .throw _, _ => []
  | .call op k, h => ⟨op, A h op⟩ :: (k (A h op)).events A (h ++ [⟨op, A h op⟩])

def called (A : Answers S) (p : Prog S ε α) (h : List (Event S)) : List S.Op :=
  (p.events A h).map Sigma.fst

def outcome (A : Answers S) : Prog S ε α → List (Event S) → Except ε α
  | .ret a, _ => .ok a
  | .throw e, _ => .error e
  | .call op k, h => (k (A h op)).outcome A (h ++ [⟨op, A h op⟩])

/-- A sequential execution against a state that answers every call. -/
def exec {σ : Type} (sem : (op : S.Op) → σ → S.Resp op × σ) : Prog S ε α → σ → Except ε α × σ
  | .ret a, s => (.ok a, s)
  | .throw e, s => (.error e, s)
  | .call op k, s => (k (sem op s).1).exec sem (sem op s).2

section exec

variable {σ : Type} {sem : (op : S.Op) → σ → S.Resp op × σ} {s s' : σ}

@[simp] theorem exec_ret (a : α) : (.ret a : Prog S ε α).exec sem s = (.ok a, s) := rfl

@[simp] theorem exec_throw (e : ε) : (.throw e : Prog S ε α).exec sem s = (.error e, s) := rfl

@[simp] theorem exec_call (op : S.Op) (k : S.Resp op → Prog S ε α) :
    (Prog.call op k).exec sem s = (k (sem op s).1).exec sem (sem op s).2 := rfl

theorem exec_ofExcept (r : Except ε α) : (ofExcept r : Prog S ε α).exec sem s = (r, s) := by
  cases r <;> rfl

theorem exec_bind_ok {p : Prog S ε α} {f : α → Prog S ε β} {a : α} (h : p.exec sem s = (.ok a, s')) :
    (p >>= f).exec sem s = (f a).exec sem s' := by
  induction p generalizing s with
  | ret b =>
    cases h
    rfl
  | throw e => cases h
  | call op k ih => exact ih _ h

theorem exec_bind_error {p : Prog S ε α} {f : α → Prog S ε β} {e : ε} (h : p.exec sem s = (.error e, s')) :
    (p >>= f).exec sem s = (.error e, s') := by
  induction p generalizing s with
  | ret b => cases h
  | throw e' =>
    cases h
    rfl
  | call op k ih => exact ih _ h

end exec

end Prog

/-- Translates the calls of one signature into calls of a larger one. -/
structure Sig.Hom (S T : Sig) where
  op : S.Op → T.Op
  resp : (o : S.Op) → T.Resp (op o) ≃ S.Resp o

def Prog.lift {T : Sig} (f : S.Hom T) : Prog S ε α → Prog T ε α
  | .ret a => .ret a
  | .throw e => .throw e
  | .call op k => .call (f.op op) fun r ↦ (k (f.resp op r)).lift f

/-- A discipline on calls: which calls a thread may make in each local state,
which answers it may get, and how a call changes the local state. -/
structure Discipline (S : Sig) (L : Type) where
  allow : L → S.Op → Prop
  may : L → (op : S.Op) → S.Resp op → Prop
  next : L → (op : S.Op) → S.Resp op → L

/-- What a discipline on the larger signature asks of the smaller one. -/
def Discipline.pull {T : Sig} {L : Type} (D : Discipline T L) (f : S.Hom T) : Discipline S L where
  allow l op := D.allow l (f.op op)
  may l op r := D.may l (f.op op) ((f.resp op).symm r)
  next l op r := D.next l (f.op op) ((f.resp op).symm r)

namespace Prog

variable {L : Type} (D : Discipline S L)

/-- Every run of the program from local state `l` respects the discipline, and
its outcome and final local state satisfy `Q`. -/
def wp (Q : Except ε α → L → Prop) : Prog S ε α → L → Prop
  | .ret a, l => Q (.ok a) l
  | .throw e, l => Q (.error e) l
  | .call op k, l => D.allow l op ∧ ∀ r, D.may l op r → (k r).wp Q (D.next l op r)

/-- A postcondition given separately for the two exits. -/
def exits (f : α → L → Prop) (g : ε → L → Prop) : Except ε α → L → Prop
  | .ok a => f a
  | .error e => g e

variable {D} {Q Q' : Except ε α → L → Prop} {l : L}

@[simp] theorem exits_ok (f : α → L → Prop) (g : ε → L → Prop) (a : α) :
    exits f g (.ok a) = f a := rfl

@[simp] theorem exits_error (f : α → L → Prop) (g : ε → L → Prop) (e : ε) :
    exits f g (.error e : Except ε α) = g e := rfl

@[simp] theorem wp_ret (a : α) : (Prog.ret a : Prog S ε α).wp D Q l ↔ Q (.ok a) l := Iff.rfl

@[simp] theorem wp_throw (e : ε) : (Prog.throw e : Prog S ε α).wp D Q l ↔ Q (.error e) l := Iff.rfl

@[simp] theorem wp_call (op : S.Op) (k : S.Resp op → Prog S ε α) :
    (Prog.call op k).wp D Q l ↔
      D.allow l op ∧ ∀ r, D.may l op r → (k r).wp D Q (D.next l op r) := Iff.rfl

theorem wp_mono {p : Prog S ε α} (h : p.wp D Q l) (hQ : ∀ o l, Q o l → Q' o l) : p.wp D Q' l := by
  induction p generalizing l with
  | ret a => exact hQ _ _ h
  | throw e => exact hQ _ _ h
  | call op k ih => exact ⟨h.1, fun r hr ↦ ih r (h.2 r hr)⟩

theorem wp_bind {Q : Except ε β → L → Prop} (p : Prog S ε α) (f : α → Prog S ε β) :
    (p >>= f).wp D Q l ↔
      p.wp D (exits (fun a ↦ (f a).wp D Q) fun e ↦ Q (.error e)) l := by
  induction p generalizing l with
  | ret a => rfl
  | throw e => rfl
  | call op k ih => simp only [call_bind, wp_call, ih]

theorem wp_tryCatch (p : Prog S ε α) (f : ε → Prog S ε α) :
    (p.tryCatch f).wp D Q l ↔
      p.wp D (exits (fun a ↦ Q (.ok a)) fun e ↦ (f e).wp D Q) l := by
  induction p generalizing l with
  | ret a => rfl
  | throw e => rfl
  | call op k ih => simp only [call_tryCatch, wp_call, ih]

theorem wp_tryFinally (p : Prog S ε α) (fin : Prog S ε Unit) :
    (p.tryFinally fin).wp D Q l ↔
      p.wp D (fun o ↦ fin.wp D (exits (fun _ ↦ Q o) fun e ↦ Q (.error e))) l := by
  induction p generalizing l with
  | ret a => exact wp_bind fin fun _ ↦ .ret a
  | throw e => exact wp_bind fin fun _ ↦ .throw e
  | call op k ih => simp only [tryFinally, wp_call, ih]

theorem wp_lift {T : Sig} {D : Discipline T L} (f : S.Hom T) (p : Prog S ε α) :
    (p.lift f).wp D Q l ↔ p.wp (D.pull f) Q l := by
  induction p generalizing l with
  | ret a => rfl
  | throw e => rfl
  | call op k ih =>
    simp only [lift, wp_call, ih]
    refine and_congr_right fun _ ↦ (f.resp op).forall_congr fun r ↦ ?_
    simp only [Discipline.pull, Equiv.symm_apply_apply]

/-- Every call the program can make satisfies `C`. -/
def Calls (C : S.Op → Prop) : Prog S ε α → Prop
  | .ret _ | .throw _ => True
  | .call op k => C op ∧ ∀ r, (k r).Calls C

variable {C : S.Op → Prop}

theorem Calls.ite {c : Prop} [Decidable c] {p q : Prog S ε α} (hp : c → p.Calls C) (hq : ¬c → q.Calls C) :
    (if c then p else q).Calls C := by
  by_cases h : c
  · rw [if_pos h]
    exact hp h
  · rw [if_neg h]
    exact hq h

theorem Calls.bind {p : Prog S ε α} {f : α → Prog S ε β} (hp : p.Calls C)
    (hf : ∀ a, (f a).Calls C) : (p >>= f).Calls C := by
  induction p with
  | ret a => exact hf a
  | throw e => trivial
  | call op k ih => exact ⟨hp.1, fun r ↦ ih r (hp.2 r)⟩

theorem Calls.tryCatch {p : Prog S ε α} {f : ε → Prog S ε α} (hp : p.Calls C)
    (hf : ∀ e, (f e).Calls C) : (p.tryCatch f).Calls C := by
  induction p with
  | ret a => trivial
  | throw e => exact hf e
  | call op k ih => exact ⟨hp.1, fun r ↦ ih r (hp.2 r)⟩

theorem Calls.tryFinally {p : Prog S ε α} {fin : Prog S ε Unit} (hp : p.Calls C)
    (hf : fin.Calls C) : (p.tryFinally fin).Calls C := by
  induction p with
  | ret a => exact hf.bind fun _ ↦ trivial
  | throw e => exact hf.bind fun _ ↦ trivial
  | call op k ih => exact ⟨hp.1, fun r ↦ ih r (hp.2 r)⟩

theorem Calls.mono {C' : S.Op → Prop} {p : Prog S ε α} (hp : p.Calls C) (h : ∀ op, C op → C' op) :
    p.Calls C' := by
  induction p with
  | ret a => trivial
  | throw e => trivial
  | call op k ih => exact ⟨h _ hp.1, fun r ↦ ih r (hp.2 r)⟩

theorem Calls.lift {T : Sig} {C' : T.Op → Prop} {f : S.Hom T} {p : Prog S ε α} (hp : p.Calls C)
    (hC : ∀ op, C op → C' (f.op op)) : (p.lift f).Calls C' := by
  induction p with
  | ret a => trivial
  | throw e => trivial
  | call op k ih => exact ⟨hC op hp.1, fun r ↦ ih _ (hp.2 _)⟩

theorem calls_of_forall (hC : ∀ op, C op) (p : Prog S ε α) : p.Calls C := by
  induction p with
  | ret a => trivial
  | throw e => trivial
  | call op k ih => exact ⟨hC op, ih⟩

theorem calls_lift {T : Sig} {C : T.Op → Prop} {f : S.Hom T} (hC : ∀ op, C (f.op op))
    (p : Prog S ε α) : (p.lift f).Calls C :=
  (calls_of_forall hC p).lift fun _ ↦ id

theorem Calls.mem_events {p : Prog S ε α} (hp : p.Calls C) {A : Answers S} {h : List (Event S)}
    {e : Event S} (he : e ∈ p.events A h) : C e.1 := by
  induction p generalizing h with
  | ret a => simp [events] at he
  | throw e => simp [events] at he
  | call op k ih =>
    rcases List.mem_cons.mp he with rfl | he
    · exact hp.1
    · exact ih _ (hp.2 _) he

theorem Calls.wp {I : L → Prop} {p : Prog S ε α} (hp : p.Calls C)
    (hD : ∀ l op, I l → C op → D.allow l op ∧ ∀ r, D.may l op r → I (D.next l op r)) (hl : I l) :
    p.wp D (fun _ ↦ I) l := by
  induction p generalizing l with
  | ret a => exact hl
  | throw e => exact hl
  | call op k ih =>
    obtain ⟨hallow, hnext⟩ := hD l op hl hp.1
    exact ⟨hallow, fun r hr ↦ ih r (hp.2 r) (hnext r hr)⟩

theorem Calls.wp_allowed {p : Prog S ε α} (hp : p.Calls C) (hD : ∀ l op, C op → D.allow l op) :
    p.wp D (fun _ _ ↦ True) l :=
  hp.wp (fun l op _ hop ↦ ⟨hD l op hop, fun _ _ ↦ trivial⟩) trivial

theorem Calls.wp_idle {p : Prog S ε α} (hp : p.Calls C)
    (hD : ∀ op, C op → D.allow l op ∧ ∀ r, D.next l op r = l) : p.wp D (fun _ l' ↦ l' = l) l := by
  refine hp.wp ?_ rfl
  intro _ op heq hop
  subst heq
  exact ⟨(hD op hop).1, fun r _ ↦ (hD op hop).2 r⟩

/-- The program never ends by throwing. -/
def Total : Prog S ε α → Prop
  | .ret _ => True
  | .throw _ => False
  | .call _ k => ∀ r, (k r).Total

theorem Total.lift {T : Sig} {f : S.Hom T} {p : Prog S ε α} (hp : p.Total) : (p.lift f).Total := by
  induction p with
  | ret a => trivial
  | throw e => exact hp
  | call op k ih => exact fun r ↦ ih _ (hp _)

theorem Total.bind {p : Prog S ε α} {f : α → Prog S ε β} (hp : p.Total) (hf : ∀ a, (f a).Total) :
    (p >>= f).Total := by
  induction p with
  | ret a => exact hf a
  | throw e => exact hp.elim
  | call op k ih => exact fun r ↦ ih r (hp r)

theorem total_tryCatch {p : Prog S ε α} {f : ε → Prog S ε α} (hf : ∀ e, (f e).Total) : (p.tryCatch f).Total := by
  induction p with
  | ret a => trivial
  | throw e => exact hf e
  | call op k ih => exact ih

theorem Total.wp {p : Prog S ε α} (hp : p.Total) (h : p.wp D Q l) :
    p.wp D (exits (fun a ↦ Q (.ok a)) fun _ _ ↦ False) l := by
  induction p generalizing l with
  | ret a => exact h
  | throw e => exact hp
  | call op k ih => exact ⟨h.1, fun r hr ↦ ih r (hp r) (h.2 r hr)⟩

theorem Calls.wp_total {I : L → Prop} {p : Prog S ε α} (hp : p.Calls C) (ht : p.Total)
    (hD : ∀ l op, I l → C op → D.allow l op ∧ ∀ r, D.may l op r → I (D.next l op r)) (hl : I l) :
    p.wp D (exits (fun _ ↦ I) fun _ _ ↦ False) l := by
  induction p generalizing l with
  | ret a => exact hl
  | throw e => exact ht
  | call op k ih =>
    obtain ⟨hallow, hnext⟩ := hD l op hl hp.1
    exact ⟨hallow, fun r hr ↦ ih r (hp.2 r) (ht r) (hnext r hr)⟩

/-- Each spawned program runs to its end before the spawning one goes on. Its
exceptions end nothing but itself. -/
def inline (spawned : S.Op → Option (Prog S ε Unit)) : Prog S ε α → Prog S ε α
  | .ret a => .ret a
  | .throw e => .throw e
  | .call op k => .call op fun r ↦
    match spawned op with
    | none => (k r).inline spawned
    | some q => (q.tryCatch fun _ ↦ .ret ()).bind fun _ ↦ (k r).inline spawned

theorem Calls.wp_inline {I : L → Prop} {spawned : S.Op → Option (Prog S ε Unit)} {p : Prog S ε α}
    (hp : p.Calls C)
    (hD : ∀ l op, I l → C op → D.allow l op ∧ ∀ r, D.may l op r → I (D.next l op r))
    (hs : ∀ l op q, I l → C op → spawned op = some q → q.wp D (fun _ ↦ I) l) (hl : I l) :
    (p.inline spawned).wp D (fun _ ↦ I) l := by
  induction p generalizing l with
  | ret a => exact hl
  | throw e => exact hl
  | call op k ih =>
    obtain ⟨hallow, hnext⟩ := hD l op hl hp.1
    refine ⟨hallow, fun r hr ↦ ?_⟩
    split
    · exact ih r (hp.2 r) (hnext r hr)
    · rename_i q hq
      refine (wp_bind _ _).mpr ((wp_tryCatch _ _).mpr ?_)
      refine wp_mono (hs _ op q (hnext r hr) hp.1 hq) fun o l' hl' ↦ ?_
      cases o <;> exact ih r (hp.2 r) hl'

end Prog

end Effects
