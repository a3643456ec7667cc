import Aigentik.Core.MessageEngine
import Aigentik.Effects.Pool

namespace Aigentik.Coroutines

open Strings Effects AdminAuthManager MessageEngine

/-- A destructive command behind the guard, with the arming whose entry its
thread read last. -/
structure Execution where
  message : Option Message
  channelKey : Str
  input : Str
  arming : Option ℕ
  deriving DecidableEq

/-- The mutex and the map of pending commands, whose entries carry the number of
the arming that made them. The rest records what has happened. -/
structure Shared where
  locked : Bool
  pending : Str → Option (Str × ℕ)
  running : List (ℕ × Handler × Message)
  armings : List (Str × Str)
  seen : ℕ → Option ℕ
  executions : List Execution

def Shared.init : Shared := ⟨false, fun _ ↦ none, [], [], fun _ ↦ none, []⟩

variable (P : Platform) (cfg : EngineConfig) (stackDepth : ℕ)

/-- The message whose handler runs in a thread. -/
def Shared.messageOf (s : Shared) (thread : ℕ) : Option Message :=
  (s.running.lookup thread).map Prod.snd

def Shared.execute (s : Shared) (thread : ℕ) (key input : Str) : Shared :=
  if isDestructiveCommand P input then
    { s with executions := s.executions ++ [⟨s.messageOf thread, key, input, s.seen thread⟩] }
  else s

/-- The mutex blocks, the map answers; every other answer is the offered one. -/
def act (thread : ℕ) : (op : EngineOp) → engineSig.Resp op → Shared →
    Option (engineSig.Resp op × Shared)
  | .sync .lock, _, s => if s.locked then none else some ((), { s with locked := true })
  | .sync .unlock, _, s => some ((), { s with locked := false })
  | .sync (.begin handler message), _, s =>
    some ((), { s with running := (thread, handler, message) :: s.running })
  | .sync (.finish _), _, s =>
    some ((), { s with running := s.running.filter fun r ↦ r.1 ≠ thread })
  | .sync (.passGuard key input), _, s => some ((), s.execute P thread key input)
  | .auth (.pendingGet key), _, s => some ((s.pending key).map Prod.fst,
      { s with seen := Function.update s.seen thread ((s.pending key).map Prod.snd) })
  | .auth (.pendingPut key command), _, s => some ((),
      { s with
        pending := Function.update s.pending key (some (command, s.armings.length))
        armings := s.armings ++ [(key, command)] })
  | .auth (.pendingRemove key), _, s =>
    some ((), { s with pending := Function.update s.pending key none })
  | .auth .pendingClear, _, s => some ((), { s with pending := fun _ ↦ none })
  | _, offer, s => some (offer, s)

/-- Only the entry and the return of a handler change what is running. -/
def Shared.runningAfter (s : Shared) (thread : ℕ) : EngineOp → List (ℕ × Handler × Message)
  | .sync (.begin handler message) => (thread, handler, message) :: s.running
  | .sync (.finish _) => s.running.filter fun r ↦ r.1 ≠ thread
  | _ => s.running

theorem act_running {P : Platform} {thread : ℕ} {op : EngineOp} {offer r : engineSig.Resp op}
    {s s' : Shared} (h : act P thread op offer s = some (r, s')) :
    s'.running = s.runningAfter thread op := by
  rcases op with op | op | op
  · cases op <;> cases h <;> rfl
  · cases h
    rfl
  · cases op <;> first | (cases h; rfl) | skip
    · simp only [act] at h
      split at h <;> cases h
      rfl
    · cases h
      unfold Shared.execute
      split <;> rfl

def spawned : EngineOp → Option (Engine Unit)
  | .sync (.launch task) => some (coroutine P cfg stackDepth task)
  | _ => none

/-- Any number of calls of `onMessageReceived`, and the coroutines they launch. -/
def machine : Machine engineSig Throwable Shared Message where
  act := act P
  entry := onMessageReceived P cfg
  spawned := spawned P cfg stackDepth

abbrev Configuration := Config engineSig Throwable Shared

/-! Runs along given labels, in a world that answers `quiet` -/

abbrev sample : Machine engineSig Throwable Shared Message :=
  machine asciiPlatform ⟨[], "Owner", "Aigentik"⟩ 3

abbrev calls (thread times : ℕ) : List (Label engineSig Message) :=
  List.replicate times (.step thread quiet)

def noLogin : EngineOp → Bool
  | .sync (.launch (.login _)) => false
  | _ => true

end Aigentik.Coroutines
