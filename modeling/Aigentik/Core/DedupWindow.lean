import Aigentik.Core.MessageDeduplicator
import Aigentik.Effects.ExpiringMap

namespace Aigentik.DedupWindow

open Strings Effects MessageDeduplicator

inductive Call
  | isNew (sender body : Str)
  | markSent (body : Str)
  | wasSentRecently (body : Str)
  | clear
  deriving DecidableEq

structure Timed where
  now : ℤ
  call : Call
  deriving DecidableEq

/-- A call with its answer, if it is a question. -/
structure Event extends Timed where
  answer : Option Bool
  deriving DecidableEq

abbrev Step (σ : Type) := Timed → σ → Option Bool × σ

def ask : Step State
  | ⟨now, .isNew sender body⟩, s =>
    let (new, s) := isNew sender body now s
    (some new, s)
  | ⟨now, .markSent body⟩, s => (none, markSent body now s)
  | ⟨now, .wasSentRecently body⟩, s => (some (wasSentRecently body now s), s)
  | ⟨_, .clear⟩, s => (none, clear s)

/-- Without eviction, a fingerprint is new if it was not accepted in the five minutes before. -/
def accept (fp : Str) (now : ℤ) (accepted : Times Str) : Bool × Times Str :=
  if accepted.any fun e ↦ e.1 = fp && now - e.2 < incomingTtlMs then (false, accepted)
  else (true, (fp, now) :: accepted)

/-- Everything that has been accepted and marked since it was last cleared. -/
structure Log where
  accepted : Times Str
  marked : Times Str

def Log.ask : Step Log
  | ⟨now, .isNew sender body⟩, l =>
    let (new, accepted) := accept (fingerprint sender body) now l.accepted
    (some new, { l with accepted })
  | ⟨now, .markSent body⟩, l => (none, { l with marked := (sentKey body, now) :: l.marked })
  | ⟨now, .wasSentRecently body⟩, l => (some (Young sentTtlMs now (l.marked.latest (sentKey body))), l)
  | ⟨_, .clear⟩, _ => (none, ⟨[], []⟩)

def trace {σ : Type} (step : Step σ) : List Timed → σ → List Event
  | [], _ => []
  | c :: cs, s => ⟨c, (step c s).1⟩ :: trace step cs (step c s).2

def after {σ : Type} (step : Step σ) (cs : List Timed) (s : σ) : σ := cs.foldl (fun s c ↦ (step c s).2) s

def Forward (cs : List Timed) : Prop := cs.Pairwise fun c c' ↦ c.now ≤ c'.now

instance (cs : List Timed) : Decidable (Forward cs) := inferInstanceAs (Decidable (cs.Pairwise _))

def Event.Accepts (e : Event) (fp : Str) : Prop :=
  match e.call with
  | .isNew sender body => fingerprint sender body = fp ∧ e.answer = some true
  | _ => False

/-- A fingerprint is accepted at most once in five minutes. -/
def Spaced (es : List Event) : Prop :=
  es.Pairwise fun e e' ↦ ∀ fp, e.Accepts fp → e'.Accepts fp → incomingTtlMs ≤ e'.now - e.now

structure Seen (now : ℤ) (s : State) (accepted : Times Str) : Prop where
  remembers : s.seen.Remembers incomingTtlMs now accepted
  ordered : accepted.Ordered now

structure Agrees (now : ℤ) (s : State) (l : Log) : Prop where
  seen : Seen now s l.accepted
  sentTexts : s.sentTexts.Remembers sentTtlMs now l.marked

variable {now now' : ℤ} {s : State} {accepted : Times Str} {l : Log} {c : Timed} {cs pre seg : List Timed}

theorem recent_of_young {ttl : ℤ} {e : Str × ℤ} (h : now - e.2 < ttl) : recent ttl now e = true :=
  decide_eq_true (Int.le_of_lt h)

/-- What `isNew` looks the fingerprint up in. -/
def swept (now : ℤ) (s : State) : SharedMap Str ℤ :=
  if s.seen.size > 200 then s.seen.filter (recent incomingTtlMs now) else s.seen

theorem isNew_eq (sender body : Str) : isNew sender body now s =
    if Young incomingTtlMs now ((swept now s).get (fingerprint sender body)) then
      (false, { s with seen := swept now s })
    else (true, { s with seen := (swept now s).put (fingerprint sender body) now }) := rfl

namespace Seen

theorem init : Seen now .init [] := ⟨.empty, .nil⟩

theorem later (h : Seen now s accepted) (hle : now ≤ now') : Seen now' s accepted :=
  ⟨h.remembers.later hle, h.ordered.later hle⟩

theorem marked (h : Seen now s accepted) {body : Str} {time : ℤ} :
    Seen now (MessageDeduplicator.markSent body time s) accepted := by
  have hseen : (MessageDeduplicator.markSent body time s).seen = s.seen := by
    simp only [MessageDeduplicator.markSent]
    split <;> rfl
  exact ⟨hseen ▸ h.remembers, h.ordered⟩

theorem swept (h : Seen now s accepted) : (swept now s).Remembers incomingTtlMs now accepted := by
  unfold DedupWindow.swept
  split
  · exact h.remembers.filter fun e ↦ recent_of_young
  · exact h.remembers

theorem isNew (h : Seen now s accepted) (sender body : Str) :
    (isNew sender body now s).1 = (accept (fingerprint sender body) now accepted).1 ∧
      Seen now (MessageDeduplicator.isNew sender body now s).2 (accept (fingerprint sender body) now accepted).2 := by
  simp only [accept, isNew_eq, h.ordered.any_young, h.swept.young]
  split
  · exact ⟨rfl, h.swept, h.ordered⟩
  · exact ⟨rfl, h.swept.put _ now, h.ordered.cons _⟩

end Seen

theorem Agrees.init : Agrees now .init ⟨[], []⟩ := ⟨.init, .empty⟩

theorem Agrees.later (h : Agrees now s l) (hle : now ≤ now') : Agrees now' s l :=
  ⟨h.seen.later hle, h.sentTexts.later hle⟩

theorem Agrees.markSent (h : Agrees now s l) (body : Str) :
    Agrees now (ask ⟨now, .markSent body⟩ s).2 (Log.ask ⟨now, .markSent body⟩ l).2 := by
  have hput := h.sentTexts.put (sentKey body) now
  refine ⟨h.seen.marked, ?_⟩
  simp only [ask, Log.ask, markSent_sentTexts]
  split
  · exact hput.filter fun e ↦ recent_of_young
  · exact hput

theorem Agrees.ask (h : Agrees c.now s l) :
    (ask c s).1 = (Log.ask c l).1 ∧ Agrees c.now (ask c s).2 (Log.ask c l).2 := by
  obtain ⟨now, call⟩ := c
  cases call with
  | isNew sender body =>
    obtain ⟨hanswer, hseen⟩ := h.seen.isNew sender body
    refine ⟨congrArg some hanswer, hseen, ?_⟩
    have hmarks : (isNew sender body now s).2.sentTexts = s.sentTexts := isNew_sentTexts sender
    exact hmarks ▸ h.sentTexts
  | markSent body => exact ⟨rfl, h.markSent body⟩
  | wasSentRecently body => exact ⟨congrArg some (h.sentTexts.young (sentKey body)), h⟩
  | clear => exact ⟨rfl, .init⟩

theorem Agrees.trace (h : ∀ c ∈ cs.head?, Agrees c.now s l) (hcs : Forward cs) :
    trace DedupWindow.ask cs s = trace Log.ask cs l := by
  induction cs generalizing s l with
  | nil => rfl
  | cons c cs ih =>
    obtain ⟨hhead, htail⟩ := List.pairwise_cons.mp hcs
    obtain ⟨hanswer, hnext⟩ := (h c rfl).ask
    rw [DedupWindow.trace, DedupWindow.trace, hanswer,
      ih (fun c' hc' ↦ hnext.later (hhead c' (List.mem_of_mem_head? hc'))) htail]

theorem Agrees.trace_after (h : ∀ c ∈ (pre ++ seg).head?, Agrees c.now s l) (hcs : Forward (pre ++ seg)) :
    DedupWindow.trace DedupWindow.ask seg (after DedupWindow.ask pre s) =
      DedupWindow.trace Log.ask seg (after Log.ask pre l) := by
  induction pre generalizing s l with
  | nil => exact Agrees.trace h hcs
  | cons c pre ih =>
    obtain ⟨hhead, htail⟩ := List.pairwise_cons.mp hcs
    have hnext := (h c rfl).ask.2
    exact ih (fun c' hc' ↦ hnext.later (hhead c' (List.mem_of_mem_head? hc'))) htail

/-! Acceptances without a clear between them -/

theorem accept_young {fp : Str} {t : ℤ} (hmem : (fp, t) ∈ accepted) (hyoung : now - t < incomingTtlMs) :
    (accept fp now accepted).1 = false := by
  have hany : (accepted.any fun e ↦ e.1 = fp && now - e.2 < incomingTtlMs) = true :=
    List.any_eq_true.mpr ⟨_, hmem, by simpa using hyoung⟩
  rw [accept, if_pos hany]

theorem mem_accept {e : Str × ℤ} (h : e ∈ accepted) (fp : Str) : e ∈ (accept fp now accepted).2 := by
  unfold accept
  split
  · exact h
  · exact List.mem_cons_of_mem _ h

theorem of_mem_accept {fp : Str} {e : Str × ℤ} (h : e ∈ (accept fp now accepted).2) : e ∈ accepted ∨ e = (fp, now) := by
  unfold accept at h
  split at h
  · exact .inl h
  · exact (List.mem_cons.mp h).symm

theorem accepted_mem {fp : Str} (h : (accept fp now accepted).1 = true) : (fp, now) ∈ (accept fp now accepted).2 := by
  unfold accept at h ⊢
  split at h
  · cases h
  · rename_i hyoung
    rw [if_neg hyoung]
    exact List.mem_cons_self

/-- What is in the log is not accepted again while it is young. -/
theorem accepted_apart {fp : Str} {t : ℤ} (hmem : (fp, t) ∈ l.accepted) (hclear : ∀ c ∈ cs, c.call ≠ .clear) :
    ∀ e ∈ trace Log.ask cs l, e.Accepts fp → incomingTtlMs ≤ e.now - t := by
  induction cs generalizing l with
  | nil => exact nofun
  | cons c cs ih =>
    obtain ⟨hhead, htail⟩ := List.forall_mem_cons.mp hclear
    obtain ⟨now, call⟩ := c
    rw [trace, List.forall_mem_cons]
    cases call with
    | isNew sender body =>
      refine ⟨?_, ih (mem_accept hmem _) htail⟩
      intro h
      obtain ⟨rfl, hanswer⟩ := h
      by_contra hyoung
      have hnew := accept_young hmem (Int.not_le.mp hyoung)
      have hanswer : (accept (fingerprint sender body) now l.accepted).1 = true := Option.some.inj hanswer
      exact absurd hanswer (by simp [hnew])
    | markSent body => exact ⟨nofun, ih hmem htail⟩
    | wasSentRecently body => exact ⟨nofun, ih hmem htail⟩
    | clear => exact absurd rfl hhead

theorem spaced_log (hclear : ∀ c ∈ cs, c.call ≠ .clear) (l : Log) : Spaced (trace Log.ask cs l) := by
  induction cs generalizing l with
  | nil => exact .nil
  | cons c cs ih =>
    obtain ⟨-, htail⟩ := List.forall_mem_cons.mp hclear
    refine List.pairwise_cons.mpr ⟨fun e he fp hfp hagain ↦ ?_, ih htail _⟩
    refine accepted_apart ?_ htail e he hagain
    obtain ⟨now, call⟩ := c
    cases call with
    | isNew sender body =>
      obtain ⟨rfl, hanswer⟩ := hfp
      exact accepted_mem (Option.some.inj hanswer)
    | _ => exact hfp.elim

/-- The answers are those of the log, and without a clear no fingerprint is accepted twice in five minutes. -/
theorem refines_log (cs : List Timed) (hcs : Forward cs) :
    trace ask cs .init = trace Log.ask cs ⟨[], []⟩ ∧
      ∀ pre seg post, cs = pre ++ seg ++ post → (∀ c ∈ seg, c.call ≠ .clear) →
        Spaced (trace ask seg (after ask pre .init)) := by
  refine ⟨Agrees.trace (fun _ _ ↦ .init) hcs, fun pre seg post heq hclear ↦ ?_⟩
  have hpre : Forward (pre ++ seg) := (List.pairwise_append.mp (heq ▸ hcs)).1
  rw [Agrees.trace_after (fun _ _ ↦ .init) hpre]
  exact spaced_log hclear _

/-! Three questions, and a clear -/

def hi (now : ℤ) : Timed := ⟨now, .isNew "Ann" "hi"⟩

theorem spaced_without_clear :
    trace ask [hi 0, hi 299999, hi 300000] .init = trace Log.ask [hi 0, hi 299999, hi 300000] ⟨[], []⟩ ∧
      Spaced (trace ask [hi 0, hi 299999, hi 300000] .init) := by
  have h := refines_log [hi 0, hi 299999, hi 300000] (by decide)
  exact ⟨h.1, h.2 [] _ [] rfl (by decide)⟩

/-- A message is accepted again after a clear. -/
theorem accepted_after_clear :
    Forward [hi 0, ⟨0, .clear⟩, hi 0] ∧ ¬Spaced (trace ask [hi 0, ⟨0, .clear⟩, hi 0] .init) := by
  refine ⟨by decide, fun h ↦ ?_⟩
  have htwice := (List.pairwise_cons.mp h).1 ⟨hi 0, some true⟩ (by decide +kernel) (fingerprint "Ann" "hi")
    ⟨rfl, by decide +kernel⟩ ⟨rfl, rfl⟩
  revert htwice
  decide

end Aigentik.DedupWindow
