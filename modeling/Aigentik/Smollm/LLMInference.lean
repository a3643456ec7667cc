import Aigentik.Strings.Text
import Aigentik.Strings.Utf8

namespace Aigentik.LLMInference

open Strings Utf8

/-- What llama.cpp computes for one loaded model and its chat template. An exception
is the text of its `what()`. -/
structure Llama (Token : Type) where
  chatPrompt : List (Str × Bytes) → Except Str Bytes
  tokenize : Bytes → List Token
  isEog : Token → Bool
  piece : Token → Bytes

/-- What one `llama_decode` and the sampling after it come to: a negative result code,
or the token that is sampled. -/
inductive Draw (Token : Type)
  | failed
  | sampled (token : Token)

def Draw.token {Token : Type} : Draw Token → Option Token
  | .failed => none
  | .sampled token => some token

/-- The fields of the class, and the tokens of sequence 0 of the context's cache. -/
structure State (Token : Type) where
  nCtx : ℕ
  kv : List Token
  currToken : Option Token
  batch : List Token
  messages : List (Str × Bytes)
  formattedMessages : Bytes
  promptTokens : List Token
  response : Bytes
  cacheResponseTokens : Bytes
  storeChats : Bool
  responseNumTokens : ℕ
  nCtxUsed : ℕ

variable {Token : Type}

def loadModel (storeChats : Bool) (nCtx : ℕ) : State Token where
  nCtx
  kv := []
  currToken := none
  batch := []
  messages := []
  formattedMessages := List.replicate nCtx 0
  promptTokens := []
  response := []
  cacheResponseTokens := []
  storeChats
  responseNumTokens := 0
  nCtxUsed := 0

/-- The bytes before the terminating NUL. -/
def cstr (bytes : Bytes) : Bytes := bytes.takeWhile (· ≠ 0)

def addChatMessage (message : Bytes) (role : Str) (s : State Token) : State Token :=
  { s with messages := s.messages ++ [(role, cstr message)] }

/-- What the loop of `_isValidUtf8` reads, with the continuation bytes that the inner
loop still expects. Behind the last byte stands the terminating NUL. -/
def validFrom : ℕ → Bytes → Bool
  | 0, [] => true
  | 0, b :: bytes =>
    if b = 0 then true
    else match width b with
      | some num => validFrom (num - 1) bytes
      | none => false
  | _ + 1, [] => false
  | k + 1, b :: bytes => if b &&& 0xC0 ≠ 0x80 then false else validFrom k bytes

def isValidUtf8 (response : Bytes) : Bool := validFrom 0 response

variable (L : Llama Token)

def clearFormatted (s : State Token) : State Token :=
  if s.storeChats then s else { s with formattedMessages := List.replicate s.nCtx 0 }

/-- The query is in the list even if the template then fails. -/
def startCompletion (query : Bytes) (s : State Token) : Except Str Unit × State Token :=
  let s := addChatMessage query "user" { clearFormatted s with responseNumTokens := 0 }
  match L.chatPrompt s.messages with
  | .error e => (.error e, s)
  | .ok prompt =>
    let promptTokens := L.tokenize prompt
    (.ok (), { s with promptTokens, batch := promptTokens })

def eog : Bytes := "[EOG]".toList.map fun c ↦ UInt8.ofNat c.toNat

/-- What follows a decoded batch. -/
def accept (token : Token) (s : State Token) : Bytes × State Token :=
  let s := { s with kv := s.kv ++ s.batch, currToken := some token }
  if L.isEog token then
    (eog, { addChatMessage s.response "assistant" s with response := [] })
  else
    let cache := s.cacheResponseTokens ++ L.piece token
    let s := { s with responseNumTokens := s.responseNumTokens + 1, batch := [token] }
    if isValidUtf8 cache then
      (cache, { s with response := s.response ++ cache, cacheResponseTokens := [] })
    else ([], { s with cacheResponseTokens := cache })

/-- What the size check leaves. -/
def checked (s : State Token) : State Token := { s with nCtxUsed := s.kv.length }

def completionLoop (draw : Draw Token) (s : State Token) : Except Str Bytes × State Token :=
  let s := checked s
  if s.nCtxUsed + s.batch.length > s.nCtx then (.error "context size reached", s)
  else match draw with
    | .failed => (.error "llama_decode() failed", s)
    | .sampled token =>
      let (piece, s) := accept L token s
      (.ok piece, s)

def stopCompletion (s : State Token) : State Token :=
  let s := if s.storeChats then addChatMessage s.response "assistant" s else s
  { s with response := [] }

variable {L} {draw : Draw Token} {token : Token} {s : State Token}

/-- What the start of a completion leaves, with or without an exception. -/
structure Started (query : Bytes) (s s' : State Token) : Prop where
  messages : s'.messages = s.messages ++ [("user".toList, cstr query)]
  kv : s'.kv = s.kv
  nCtx : s'.nCtx = s.nCtx
  storeChats : s'.storeChats = s.storeChats
  response : s'.response = s.response
  cacheResponseTokens : s'.cacheResponseTokens = s.cacheResponseTokens

theorem clearFormatted_eq (s : State Token) :
    clearFormatted s = { s with formattedMessages := (clearFormatted s).formattedMessages } := by
  unfold clearFormatted
  split <;> rfl

theorem startCompletion_started (L : Llama Token) (query : Bytes) (s : State Token) :
    Started query s (startCompletion L query s).2 := by
  unfold startCompletion
  rw [clearFormatted_eq]
  dsimp only
  cases L.chatPrompt _ <;> exact ⟨rfl, rfl, rfl, rfl, rfl, rfl⟩

theorem startCompletion_ok {query : Bytes} (h : (startCompletion L query s).1 = .ok ()) :
    ∃ prompt, L.chatPrompt (startCompletion L query s).2.messages = .ok prompt ∧
      (startCompletion L query s).2.promptTokens = L.tokenize prompt ∧
      (startCompletion L query s).2.batch = L.tokenize prompt := by
  unfold startCompletion at h ⊢
  dsimp only at h ⊢
  cases hprompt : L.chatPrompt (addChatMessage query "user".toList
      { clearFormatted s with responseNumTokens := 0 }).messages with
  | error e =>
    rw [hprompt] at h
    cases h
  | ok prompt => exact ⟨prompt, hprompt, rfl, rfl⟩

theorem stopCompletion_eq (s : State Token) : stopCompletion s =
    { s with
      response := []
      messages := if s.storeChats then s.messages ++ [("assistant".toList, cstr s.response)] else s.messages } := by
  dsimp only [stopCompletion]
  split <;> rfl

/-- An exception leaves all but the size as it was; otherwise a token has been sampled. -/
theorem completionLoop_cases (draw : Draw Token) (s : State Token) :
    (∃ what, completionLoop L draw s = (.error what, checked s)) ∨
      ∃ token, draw = .sampled token ∧ s.kv.length + s.batch.length ≤ s.nCtx ∧
        completionLoop L draw s = (.ok (accept L token (checked s)).1, (accept L token (checked s)).2) := by
  by_cases hsize : s.kv.length + s.batch.length > s.nCtx
  · exact .inl ⟨_, if_pos hsize⟩
  · cases draw with
    | failed => exact .inl ⟨_, if_neg hsize⟩
    | sampled token => exact .inr ⟨token, rfl, Nat.le_of_not_lt hsize, if_neg hsize⟩

theorem accept_eog (h : L.isEog token) : accept L token s =
    (eog, { addChatMessage s.response "assistant" { s with kv := s.kv ++ s.batch, currToken := some token }
      with response := [] }) :=
  if_pos h

theorem accept_of_not_eog (h : ¬L.isEog token) : accept L token s =
    if isValidUtf8 (s.cacheResponseTokens ++ L.piece token) then
      (s.cacheResponseTokens ++ L.piece token, { s with
        kv := s.kv ++ s.batch
        currToken := some token
        responseNumTokens := s.responseNumTokens + 1
        batch := [token]
        response := s.response ++ (s.cacheResponseTokens ++ L.piece token)
        cacheResponseTokens := [] })
    else ([], { s with
      kv := s.kv ++ s.batch
      currToken := some token
      responseNumTokens := s.responseNumTokens + 1
      batch := [token]
      cacheResponseTokens := s.cacheResponseTokens ++ L.piece token }) :=
  if_neg h

end Aigentik.LLMInference
