import Aigentik.Platform
import Aigentik.Smollm.LLMInference

namespace Aigentik.SmolLM

open Strings Utf8 LLMInference

variable {Token : Type} (L : Llama Token)

/-! The native methods, on the instance behind an open handle -/

/-- The JNI functions throw a C++ exception on as an `IllegalStateException`. -/
def rethrown {α : Type} : Except Str α → Except Throwable α
  | .error what => .error ⟨"IllegalStateException", some what⟩
  | .ok a => .ok a

/-- `NewStringUTF` is given the bytes before the first NUL. -/
def nativeCompletionLoop (draw : Draw Token) (s : State Token) : Except Throwable Bytes × State Token :=
  let (piece, s) := completionLoop L draw s
  (rethrown (piece.map cstr), s)

def nativeStartCompletion (query : Bytes) (s : State Token) : Except Throwable Unit × State Token :=
  let (started, s) := startCompletion L query s
  (rethrown started, s)

def addUserMessage (message : Bytes) (s : State Token) : State Token := addChatMessage message "user" s

def addSystemPrompt (prompt : Bytes) (s : State Token) : State Token := addChatMessage prompt "system" s

def addAssistantMessage (message : Bytes) (s : State Token) : State Token :=
  addChatMessage message "assistant" s

/-- How a turn has ended. -/
inductive Ending
  | finished
  | threw (e : Throwable)
  | cancelled
  deriving DecidableEq

/-- The pieces that the caller gets, and the tokens that were sampled for them. -/
structure Reply (Token : Type) where
  pieces : List Bytes
  sampled : List Token
  ending : Ending
  deriving DecidableEq

def Reply.text (r : Reply Token) : Bytes := r.pieces.flatten

/-- The loop of `getResponse`, with what each call of `completionLoop` draws. A flow is
cancelled, or still running, where the draws end. -/
def generate : List (Draw Token) → State Token → Reply Token × State Token
  | [], s => (⟨[], [], .cancelled⟩, s)
  | draw :: draws, s =>
    match nativeCompletionLoop L draw s with
    | (.error e, s) => (⟨[], [], .threw e⟩, s)
    | (.ok piece, s) =>
      if piece = eog then (⟨[], draw.token.toList, .finished⟩, stopCompletion s)
      else
        let (r, s) := generate draws s
        (⟨piece :: r.pieces, draw.token.toList ++ r.sampled, r.ending⟩, s)

/-- `getResponse`, and `getResponseAsFlow`, whose flow may be cancelled. -/
def getResponse (query : Bytes) (draws : List (Draw Token)) (s : State Token) :
    Reply Token × State Token :=
  match nativeStartCompletion L query s with
  | (.error e, s) => (⟨[], [], .threw e⟩, s)
  | (.ok (), s) => generate L draws s

/-- What is done with a loaded model. -/
inductive Use (Token : Type)
  | add (message : Bytes) (role : Str)
  | turn (query : Bytes) (draws : List (Draw Token))

def use : Use Token → State Token → State Token
  | .add message role, s => addChatMessage message role s
  | .turn query draws, s => (getResponse L query draws s).2

def run (uses : List (Use Token)) (s : State Token) : State Token := uses.foldl (fun s u ↦ use L u s) s

variable {L}

theorem cstr_eog : cstr eog = eog := by decide

/-- To show something of every loop: of one that is cancelled, throws or ends, and of
one that goes on after a piece. -/
theorem generate_induction {P : State Token → Reply Token × State Token → Prop}
    (cancelled : ∀ s, P s (⟨[], [], .cancelled⟩, s))
    (threw : ∀ s e, P s (⟨[], [], .threw e⟩, checked s))
    (ended : ∀ s token, L.isEog token →
      P s (⟨[], [token], .finished⟩, stopCompletion (accept L token (checked s)).2))
    (spelled : ∀ s token, ¬L.isEog token → cstr (accept L token (checked s)).1 = eog →
      P s (⟨[], [token], .finished⟩, stopCompletion (accept L token (checked s)).2))
    (next : ∀ s token r s', ¬L.isEog token → cstr (accept L token (checked s)).1 ≠ eog →
      P (accept L token (checked s)).2 (r, s') →
      P s (⟨cstr (accept L token (checked s)).1 :: r.pieces, token :: r.sampled, r.ending⟩, s'))
    (draws : List (Draw Token)) (s : State Token) : P s (generate L draws s) := by
  induction draws generalizing s with
  | nil => exact cancelled s
  | cons draw draws ih =>
    rw [generate, nativeCompletionLoop]
    rcases completionLoop_cases (L := L) draw s with ⟨what, heq⟩ | ⟨token, rfl, -, heq⟩
    · rw [heq]
      exact threw s _
    · rw [heq]
      dsimp only [Except.map, rethrown]
      by_cases heog : L.isEog token
      · have hpiece : (accept L token (checked s)).1 = eog := by rw [accept_eog heog]
        rw [hpiece, if_pos cstr_eog]
        exact ended s token heog
      · split
        · rename_i hpiece
          exact spelled s token heog hpiece
        · rename_i hpiece
          exact next s token _ _ heog hpiece (ih _)

/-- The loop runs unless the template has thrown. -/
theorem getResponse_cases (query : Bytes) (draws : List (Draw Token)) (s : State Token) :
    (∃ e, getResponse L query draws s = (⟨[], [], .threw e⟩, (startCompletion L query s).2)) ∨
      ((startCompletion L query s).1 = .ok () ∧
        getResponse L query draws s = generate L draws (startCompletion L query s).2) := by
  rw [getResponse, nativeStartCompletion]
  rcases startCompletion L query s with ⟨_ | _, s'⟩
  · exact .inl ⟨_, rfl⟩
  · exact .inr ⟨rfl, rfl⟩

/-- A model for runs on given bytes: tokens are pieces of text, and the empty one ends a response. -/
def bytesLlama : Llama Bytes where
  chatPrompt messages := .ok (messages.flatMap Prod.snd)
  tokenize prompt := [prompt]
  isEog token := token = []
  piece token := token

def ascii (s : Str) : Bytes := s.map fun c ↦ UInt8.ofNat c.toNat

end Aigentik.SmolLM
