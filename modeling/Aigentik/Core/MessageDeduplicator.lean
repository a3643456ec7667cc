import Aigentik.Core.PhoneNormalizer
import Aigentik.Effects.SharedMap

namespace Aigentik.MessageDeduplicator

open Strings Effects PhoneNormalizer

def incomingTtlMs : ℤ := 5 * 60 * 1000

def sentTtlMs : ℤ := 5 * 60 * 1000

/-- The id of a notification's message. -/
def fingerprint (sender body : Str) : Str := lastTen sender ++ "_" ++ (trim body).take 100

structure State where
  seen : SharedMap Str ℤ
  sentTexts : SharedMap Str ℤ

def State.init : State := ⟨.empty, .empty⟩

/-- `isNew` and `markSent` take the answer of their `currentTimeMillis()`; `wasSentRecently`
asks for the time after `sentTexts`. -/
inductive Op
  | isNew (sender body : Str) (now : ℤ)
  | markSent (body : Str) (now : ℤ)
  | sentTime (body : Str)
  deriving DecidableEq

abbrev sig : Sig where
  Op := Op
  Resp
    | .isNew .. => Bool
    | .markSent .. => Unit
    | .sentTime _ => Option ℤ

def recent (ttl now : ℤ) (entry : Str × ℤ) : Bool := now - entry.2 ≤ ttl

def isNew (sender body : Str) (now : ℤ) (s : State) : Bool × State :=
  let fp := fingerprint sender body
  let seen := if s.seen.size > 200 then s.seen.filter (recent incomingTtlMs now) else s.seen
  if (seen.get fp).any fun firstSeen ↦ now - firstSeen < incomingTtlMs then (false, { s with seen })
  else (true, { s with seen := seen.put fp now })

def sentKey (body : Str) : Str := (trim body).take 100

def markSent (body : Str) (now : ℤ) (s : State) : State :=
  let sentTexts := s.sentTexts.put (sentKey body) now
  if sentTexts.size > 100 then { s with sentTexts := sentTexts.filter (recent sentTtlMs now) }
  else { s with sentTexts }

def sentTime (body : Str) (s : State) : Option ℤ := s.sentTexts.get (sentKey body)

/-- The two steps of `wasSentRecently`, at one time. -/
def wasSentRecently (body : Str) (now : ℤ) (s : State) : Bool :=
  (sentTime body s).any fun sentTime ↦ now - sentTime < sentTtlMs

def clear (_ : State) : State := .init

def act : (op : Op) → State → sig.Resp op × State
  | .isNew sender body now, s => isNew sender body now s
  | .markSent body now, s => ((), markSent body now s)
  | .sentTime body, s => (sentTime body s, s)

variable {body key : Str} {now time : ℤ} {s : State}

theorem isNew_sentTexts (sender : Str) : (isNew sender body now s).2.sentTexts = s.sentTexts := by
  simp only [isNew]
  split <;> split <;> rfl

theorem markSent_sentTexts : (markSent body now s).sentTexts =
    if (s.sentTexts.put (sentKey body) now).size > 100 then
      (s.sentTexts.put (sentKey body) now).filter (recent sentTtlMs now)
    else s.sentTexts.put (sentKey body) now := by
  simp only [markSent]
  split <;> rfl

theorem markSent_some (h : (markSent body now s).sentTexts.get key = some time) :
    (key = sentKey body ∧ time = now) ∨ (key ≠ sentKey body ∧ s.sentTexts.get key = some time) := by
  have hput : (s.sentTexts.put (sentKey body) now).get key = some time := by
    rw [markSent_sentTexts] at h
    split at h
    · exact (SharedMap.get_filter_some.mp h).1
    · exact h
  rcases SharedMap.get_put_some.mp hput with h | ⟨h, hne⟩
  · exact .inl h
  · exact .inr ⟨hne, h⟩

theorem markSent_keeps (h : (s.sentTexts.put (sentKey body) now).get key = some time) :
    (markSent body now s).sentTexts.get key = some time ∨ sentTtlMs < now - time := by
  rw [markSent_sentTexts]
  split
  · by_cases hrecent : recent sentTtlMs now (key, time) = true
    · exact .inl (SharedMap.get_filter_some.mpr ⟨h, hrecent⟩)
    · exact .inr (Int.not_le.mp fun hle ↦ hrecent (decide_eq_true hle))
  · exact .inl h

theorem markSent_self : (markSent body now s).sentTexts.get (sentKey body) = some now := by
  refine (markSent_keeps SharedMap.get_put_self).resolve_right fun h ↦ ?_
  rw [Int.sub_self] at h
  revert h
  decide

/-- A mark drops only what is older than five minutes. -/
theorem markSent_other (hne : key ≠ sentKey body) (h : s.sentTexts.get key = some time) :
    (markSent body now s).sentTexts.get key = some time ∨ sentTtlMs < now - time :=
  markSent_keeps (SharedMap.get_put_some.mpr (.inr ⟨h, hne⟩))

end Aigentik.MessageDeduplicator
