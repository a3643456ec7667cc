import Aigentik.Smollm.SmolLM

namespace Aigentik.Isolation

open Strings Utf8 LLMInference SmolLM

variable {Token : Type} (L : Llama Token)

/-- A request of `generateSmsReply`: its system prompt, its query, and what is drawn. -/
structure Request (Token : Type) where
  system : Bytes
  query : Bytes
  draws : List (Draw Token)

def handle (r : Request Token) (s : State Token) : State Token :=
  (getResponse L r.query r.draws (addSystemPrompt r.system s)).2

def history (requests : List (Request Token)) (s : State Token) : State Token :=
  requests.foldl (fun s r ↦ handle L r s) s

/-- The template is given the request's own messages, and no token of an earlier
prompt is left for the decodes to attend to. -/
def Isolated (system query : Bytes) (s : State Token) : Prop :=
  let s := (startCompletion L query (addSystemPrompt system s)).2
  s.messages = [("system".toList, cstr system), ("user".toList, cstr query)] ∧ s.kv = []

variable {L} {s : State Token}

theorem addChatMessage_messages (message : Bytes) (role : Str) (s : State Token) :
    s.messages <+: (addChatMessage message role s).messages :=
  List.prefix_append _ _

theorem accept_messages (token : Token) (s : State Token) :
    s.messages <+: (accept L token s).2.messages := by
  unfold accept
  dsimp only
  split
  · exact List.prefix_append _ _
  · split <;> exact List.prefix_rfl

theorem stopCompletion_messages (s : State Token) : s.messages <+: (stopCompletion s).messages := by
  rw [stopCompletion_eq]
  dsimp only
  split
  · exact List.prefix_append _ _
  · exact List.prefix_rfl

theorem generate_messages (draws : List (Draw Token)) (s : State Token) :
    s.messages <+: (generate L draws s).2.messages := by
  refine generate_induction (P := fun s out ↦ s.messages <+: out.2.messages) ?_ ?_ ?_ ?_ ?_ draws s
  · intro s
    exact List.prefix_rfl
  · intro s e
    exact List.prefix_rfl
  · intro s token _
    exact (accept_messages token (checked s)).trans (stopCompletion_messages _)
  · intro s token _ _
    exact (accept_messages token (checked s)).trans (stopCompletion_messages _)
  · intro s token r s' _ _ ih
    exact (accept_messages token (checked s)).trans ih

theorem getResponse_messages (query : Bytes) (draws : List (Draw Token)) (s : State Token) :
    s.messages ++ [("user".toList, cstr query)] <+: (getResponse L query draws s).2.messages := by
  rw [← (startCompletion_started L query s).messages]
  rcases getResponse_cases (L := L) query draws s with ⟨e, heq⟩ | ⟨-, heq⟩
  · rw [heq]
  · rw [heq]
    exact generate_messages draws _

theorem handle_messages (r : Request Token) (s : State Token) :
    s.messages.length < (handle L r s).messages.length := by
  have hle := (getResponse_messages (L := L) r.query r.draws (addSystemPrompt r.system s)).length_le
  have hadd := (addChatMessage_messages r.system "system" s).length_le
  rw [List.length_append, List.length_singleton] at hle
  have hlt : (addSystemPrompt r.system s).messages.length < (handle L r s).messages.length := hle
  exact lt_of_le_of_lt hadd hlt

theorem history_messages (requests : List (Request Token)) (s : State Token) :
    s.messages.length ≤ (history L requests s).messages.length := by
  induction requests generalizing s with
  | nil => exact le_rfl
  | cons r rest ih => exact (handle_messages r s).le.trans (ih (handle L r s))

variable (L)

/-- A request is isolated from the earlier ones exactly if there are none. -/
theorem isolated_iff_first (nCtx : ℕ) (requests : List (Request Token)) (system query : Bytes) :
    Isolated L system query (history L requests (loadModel false nCtx)) ↔ requests = [] := by
  constructor
  · intro h
    by_contra hne
    obtain ⟨r, rest, rfl⟩ := List.exists_cons_of_ne_nil hne
    have hlt := handle_messages (L := L) r (loadModel false nCtx)
    have hle := history_messages (L := L) rest (handle L r (loadModel false nCtx))
    have hmessages : ((history L rest (handle L r (loadModel false nCtx))).messages ++
        [("system".toList, cstr system)] ++ [("user".toList, cstr query)]).length = 2 := by
      have h := congrArg List.length h.1
      rwa [(startCompletion_started ..).messages] at h
    simp only [List.length_append, List.length_singleton] at hmessages
    omega
  · intro h
    subst h
    exact ⟨(startCompletion_started ..).messages, (startCompletion_started ..).kv⟩

/-! Two senders -/

def fromAlice : Request Bytes :=
  ⟨ascii "Reply to Alice", ascii "the code is 4711", [.sampled (ascii "Noted"), .sampled []]⟩

/-- Alice's text is in the prompt of the reply to Bob. -/
theorem prompt_has_other_sender : ¬Isolated bytesLlama (ascii "Reply to Bob") (ascii "hi")
      (history bytesLlama [fromAlice] (loadModel false 1024)) ∧
    (startCompletion bytesLlama (ascii "hi")
      (addSystemPrompt (ascii "Reply to Bob") (history bytesLlama [fromAlice] (loadModel false 1024)))).2.messages =
      [("system".toList, ascii "Reply to Alice"), ("user".toList, ascii "the code is 4711"),
        ("assistant".toList, ascii "Noted"), ("system".toList, ascii "Reply to Bob"),
        ("user".toList, ascii "hi")] := by
  refine ⟨fun h ↦ ?_, by decide +kernel⟩
  have hlen := congrArg List.length h.1
  revert hlen
  decide +kernel

end Aigentik.Isolation
