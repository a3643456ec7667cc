import Aigentik.Smollm.SmolLM

namespace Aigentik.ChatHistory

open Strings Utf8 LLMInference SmolLM

variable {Token : Type} (L : Llama Token)

/-- A query with what the model has answered. -/
abbrev Turn (Token : Type) := Bytes × Reply Token

def converse : List (Bytes × List (Draw Token)) → State Token → List (Turn Token) × State Token
  | [], s => ([], s)
  | (query, draws) :: rest, s =>
    let (r, s) := getResponse L query draws s
    let (turns, s) := converse rest s
    ((query, r) :: turns, s)

def systemMessages (system : Option Bytes) : List (Str × Bytes) :=
  (system.map fun prompt ↦ ("system".toList, cstr prompt)).toList

/-- A model that stores chats, with a system prompt if there is one. -/
def start (system : Option Bytes) (nCtx : ℕ) : State Token :=
  match system with
  | some prompt => addSystemPrompt prompt (loadModel true nCtx)
  | none => loadModel true nCtx

/-- Each query is followed by what was answered; only the answer of a turn that was
cancelled or threw may be missing. -/
inductive Alternates : List (Turn Token) → List (Str × Bytes) → Prop
  | nil : Alternates [] []
  | answered {query : Bytes} {r : Reply Token} {turns : List (Turn Token)} {messages : List (Str × Bytes)} :
    Alternates turns messages → Alternates ((query, r) :: turns)
      (("user".toList, cstr query) :: ("assistant".toList, r.text) :: messages)
  | unanswered {query : Bytes} {r : Reply Token} {turns : List (Turn Token)} {messages : List (Str × Bytes)} :
    r.ending ≠ .finished → Alternates turns messages →
      Alternates ((query, r) :: turns) (("user".toList, cstr query) :: messages)

/-- What the code leaves: an answer that has ended is followed by an empty one. -/
inductive Leaves : List (Turn Token) → List (Str × Bytes) → Prop
  | nil : Leaves [] []
  | finished {query response : Bytes} {r : Reply Token} {turns : List (Turn Token)}
      {messages : List (Str × Bytes)} :
    r.ending = .finished → Leaves turns messages → Leaves ((query, r) :: turns)
      (("user".toList, cstr query) :: ("assistant".toList, response) :: ("assistant".toList, []) :: messages)
  | unanswered {query : Bytes} {r : Reply Token} {turns : List (Turn Token)} {messages : List (Str × Bytes)} :
    r.ending ≠ .finished → Leaves turns messages →
      Leaves ((query, r) :: turns) (("user".toList, cstr query) :: messages)

variable {L} {turns : List (Turn Token)} {messages : List (Str × Bytes)} {content : Bytes}

theorem Alternates.head_user (h : Alternates turns (("assistant".toList, content) :: messages)) : False := by
  generalize hrole : "assistant".toList = role at h
  cases h with
  | answered => exact absurd hrole (by decide)
  | unanswered => exact absurd hrole (by decide)

theorem Leaves.head_user (h : Leaves turns (("assistant".toList, content) :: messages)) : False := by
  generalize hrole : "assistant".toList = role at h
  cases h with
  | finished => exact absurd hrole (by decide)
  | unanswered => exact absurd hrole (by decide)

theorem Leaves.alternating_iff (h : Leaves turns messages) :
    Alternates turns messages ↔ ∀ t ∈ turns, t.2.ending ≠ .finished := by
  induction h with
  | nil =>
    constructor
    · intro _ t ht
      cases ht
    · intro _
      exact .nil
  | @finished query response r turns messages hending _ _ =>
    constructor
    · intro halternates
      cases halternates with
      | answered hrest => exact hrest.head_user.elim
      | unanswered hne => exact absurd hending hne
    · intro hall
      exact absurd hending (hall (query, r) List.mem_cons_self)
  | @unanswered query r turns messages hending hrest ih =>
    rw [List.forall_mem_cons]
    constructor
    · intro halternates
      refine ⟨hending, ?_⟩
      cases halternates with
      | answered _ => exact hrest.head_user.elim
      | unanswered _ hrest' => exact ih.mp hrest'
    · intro hall
      exact .unanswered hending (ih.mpr hall.2)

theorem accept_messages {s : State Token} {token : Token} (h : ¬L.isEog token) :
    (accept L token s).2.messages = s.messages ∧ (accept L token s).2.storeChats = s.storeChats := by
  rw [accept_of_not_eog h]
  split <;> exact ⟨rfl, rfl⟩

variable (L) in
/-- The loop adds nothing, or ends at an EOG token and adds two messages. -/
structure Extends (s : State Token) (out : Reply Token × State Token) : Prop where
  stored : out.2.storeChats = true
  unanswered : out.1.ending ≠ .finished → out.2.messages = s.messages
  answered : (∃ token ∈ out.1.sampled, L.isEog token) → ∃ response,
    out.2.messages = s.messages ++ [("assistant".toList, response), ("assistant".toList, [])]

theorem generate_extends (draws : List (Draw Token)) (s : State Token) (h : s.storeChats = true) :
    Extends L s (generate L draws s) := by
  revert h
  refine generate_induction (P := fun s out ↦ s.storeChats = true → Extends L s out) ?_ ?_ ?_ ?_ ?_ draws s
  · intro s h
    exact ⟨h, fun _ ↦ rfl, by simp⟩
  · intro s e h
    exact ⟨h, fun _ ↦ rfl, by simp⟩
  · intro s token heog h
    have hstore : (accept L token (checked s)).2.storeChats = true := by
      rw [accept_eog heog]
      exact h
    rw [stopCompletion_eq]
    refine ⟨hstore, fun hne ↦ absurd rfl hne, fun _ ↦ ⟨cstr s.response, ?_⟩⟩
    dsimp only
    rw [if_pos hstore, accept_eog heog]
    exact List.append_assoc ..
  · intro s token heog _ h
    have hstore : (accept L token (checked s)).2.storeChats = true := (accept_messages heog).2.trans h
    rw [stopCompletion_eq]
    refine ⟨hstore, fun hne ↦ absurd rfl hne, fun hex ↦ ?_⟩
    obtain ⟨t, ht, heog'⟩ := hex
    rw [List.mem_singleton.mp ht] at heog'
    exact absurd heog' heog
  · intro s token r s' heog _ ih h
    obtain ⟨hmessages, hstore⟩ := accept_messages (s := checked s) heog
    obtain ⟨hstored, hopen, hended⟩ := ih (hstore.trans h)
    rw [hmessages] at hopen hended
    refine ⟨hstored, hopen, fun hex ↦ hended ?_⟩
    obtain ⟨t, ht, heog'⟩ := hex
    rcases List.mem_cons.mp ht with rfl | ht
    · exact absurd heog' heog
    · exact ⟨t, ht, heog'⟩

/-- After each way a turn can end, the messages are those that it leaves. -/
theorem converse_leaves (queries : List (Bytes × List (Draw Token))) (s : State Token)
    (hstore : s.storeChats = true)
    (hended : ∀ t ∈ (converse L queries s).1, t.2.ending = .finished → ∃ token ∈ t.2.sampled, L.isEog token) :
    ∃ messages, (converse L queries s).2.messages = s.messages ++ messages ∧
      Leaves (converse L queries s).1 messages := by
  induction queries generalizing s with
  | nil => exact ⟨[], (List.append_nil _).symm, .nil⟩
  | cons q rest ih =>
    obtain ⟨query, draws⟩ := q
    have hstart := (startCompletion_started L query s).messages
    have hkept := (startCompletion_started L query s).storeChats
    rw [converse] at hended ⊢
    dsimp only at hended ⊢
    rw [List.forall_mem_cons] at hended
    obtain ⟨hfirst, hrest⟩ := hended
    rcases getResponse_cases (L := L) query draws s with ⟨e, heq⟩ | ⟨-, heq⟩
    · rw [heq] at hrest ⊢
      obtain ⟨messages, hmessages, hleaves⟩ := ih _ (hkept.trans hstore) hrest
      refine ⟨("user".toList, cstr query) :: messages, ?_, .unanswered (by simp) hleaves⟩
      rw [hmessages, hstart, List.append_assoc]
      rfl
    · obtain ⟨hstored, hopen, hclosed⟩ := generate_extends (L := L) draws _ (hkept.trans hstore)
      rw [← heq] at hstored hopen hclosed
      obtain ⟨messages, hmessages, hleaves⟩ := ih _ hstored hrest
      by_cases hfinished : (getResponse L query draws s).1.ending = .finished
      · obtain ⟨response, hresponse⟩ := hclosed (hfirst hfinished)
        refine ⟨("user".toList, cstr query) :: ("assistant".toList, response) ::
          ("assistant".toList, []) :: messages, ?_, .finished hfinished hleaves⟩
        rw [hmessages, hresponse, hstart, List.append_assoc, List.append_assoc]
        rfl
      · refine ⟨("user".toList, cstr query) :: messages, ?_, .unanswered hfinished hleaves⟩
        rw [hmessages, hopen hfinished, hstart, List.append_assoc]
        rfl

theorem start_messages (system : Option Bytes) (nCtx : ℕ) :
    (start system nCtx : State Token).messages = systemMessages system ∧
      (start system nCtx : State Token).storeChats = true := by
  cases system <;> exact ⟨rfl, rfl⟩

variable (L)

/-- Queries and answers alternate exactly if no turn has come to its end. -/
theorem alternates_iff (system : Option Bytes) (nCtx : ℕ) (queries : List (Bytes × List (Draw Token)))
    (hended : ∀ t ∈ (converse L queries (start system nCtx)).1,
      t.2.ending = .finished → ∃ token ∈ t.2.sampled, L.isEog token) :
    (∃ messages, (converse L queries (start system nCtx)).2.messages = systemMessages system ++ messages ∧
      Alternates (converse L queries (start system nCtx)).1 messages) ↔
    ∀ t ∈ (converse L queries (start system nCtx)).1, t.2.ending ≠ .finished := by
  have hstart : (start system nCtx : State Token).messages = systemMessages system ∧
      (start system nCtx : State Token).storeChats = true := start_messages system nCtx
  obtain ⟨hmessages, hstore⟩ := hstart
  obtain ⟨left, heq, hleaves⟩ := converse_leaves queries (start system nCtx) hstore hended
  rw [hmessages] at heq
  rw [← hleaves.alternating_iff]
  constructor
  · intro h
    obtain ⟨messages, hm, halternates⟩ := h
    have hsame : messages = left := List.append_cancel_left (hm.symm.trans heq)
    exact hsame ▸ halternates
  · intro h
    exact ⟨left, heq, h⟩

/-! One turn, cancelled or complete -/

abbrev cancelled : List (Turn Bytes) × State Bytes :=
  converse bytesLlama [(ascii "hello", [.sampled (ascii "hi")])] (start none 1024)

abbrev complete : List (Turn Bytes) × State Bytes :=
  converse bytesLlama [(ascii "hello", [.sampled (ascii "hi"), .sampled []])] (start none 1024)

theorem cancelled_alternates :
    ∃ messages, cancelled.2.messages = systemMessages none ++ messages ∧ Alternates cancelled.1 messages :=
  (alternates_iff bytesLlama none 1024 [(ascii "hello", [.sampled (ascii "hi")])]
    (by decide +kernel)).mpr (by decide +kernel)

/-- A complete turn leaves an empty answer behind its answer. -/
theorem answered_twice :
    complete.2.messages =
      [("user".toList, ascii "hello"), ("assistant".toList, ascii "hi"), ("assistant".toList, [])] ∧
    ¬∃ messages, complete.2.messages = systemMessages none ++ messages ∧ Alternates complete.1 messages := by
  refine ⟨by decide +kernel, fun h ↦ ?_⟩
  obtain ⟨messages, heq, halternates⟩ := h
  obtain ⟨left, hleft, hleaves⟩ := converse_leaves (L := bytesLlama)
    [(ascii "hello", [.sampled (ascii "hi"), .sampled []])] (start none 1024) rfl (by decide +kernel)
  obtain rfl : messages = left := heq.symm.trans hleft
  have hopen := hleaves.alternating_iff.mp halternates
  revert hopen
  decide +kernel

end Aigentik.ChatHistory
