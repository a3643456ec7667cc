import Aigentik.Core.MessageEngine
import Aigentik.Effects.History

namespace Aigentik.World

open Strings Effects AgentLLMFacade

abbrev Log := List (Event engineSig)

abbrev Pending := Str → Option Str

def record (pending : Pending) (e : Event engineSig) : Pending :=
  match e.1 with
  | .auth (.pendingPut key command) => Function.update pending key (some command)
  | .auth (.pendingRemove key) => Function.update pending key none
  | .auth .pendingClear => fun _ ↦ none
  | _ => pending

def pendingAfter (pending : Pending) (log : Log) : Pending := log.foldl record pending

@[simp] theorem pendingAfter_nil (pending : Pending) : pendingAfter pending [] = pending := rfl

@[simp] theorem pendingAfter_cons (pending : Pending) (e : Event engineSig) (log : Log) :
    pendingAfter pending (e :: log) = pendingAfter (record pending e) log := rfl

@[simp] theorem pendingAfter_append (pending : Pending) (log es : Log) :
    pendingAfter pending (log ++ es) = pendingAfter (pendingAfter pending log) es :=
  List.foldl_append

/-- A world whose reads of pending commands are those of a map. -/
def withPending (pending : Pending) (A : Answers engineSig) : Answers engineSig
  | log, .auth (.pendingGet key) => pendingAfter pending log key
  | log, op => A log op

/-- A world whose model completes prompts as `model` says. -/
def withModel (model : Prompt → ModelOutcome) (A : Answers engineSig) : Answers engineSig
  | _, .act (.complete prompt) => model prompt
  | log, op => A log op

abbrev answers (model : Prompt → ModelOutcome) (pending : Pending) (rest : Answers engineSig) :
    Answers engineSig :=
  withPending pending (withModel model rest)

/-- The discipline of one world: every answer is the one it gives. -/
abbrev disc (A : Answers engineSig) (allow : Log → EngineOp → Prop) : Discipline engineSig Log :=
  .history allow fun log op r ↦ r = A log op

end Aigentik.World
