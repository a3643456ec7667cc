import Aigentik.Smollm.SmolLM

namespace Aigentik.ContextCache

open Strings Utf8 LLMInference SmolLM

variable {Token : Type} (L : Llama Token)

def generated (r : Reply Token) : List Token := r.sampled.takeWhile fun token ↦ ¬L.isEog token

def Completed (r : Reply Token) : Prop := r.ending = .finished ∧ ∃ token ∈ r.sampled, L.isEog token

/-- What each turn of a use of the model has returned and left. -/
def turns : List (Use Token) → State Token → List (Reply Token × State Token)
  | [], _ => []
  | .add message role :: uses, s => turns uses (addChatMessage message role s)
  | .turn query draws :: uses, s =>
    getResponse L query draws s :: turns uses (getResponse L query draws s).2

/-- The cache holds the prompt and what the turn has generated, and this is what the
size check counts. -/
def Cached (query : Bytes) (s : State Token) (out : Reply Token × State Token) : Prop :=
  ∃ prompt, L.chatPrompt (startCompletion L query s).2.messages = .ok prompt ∧
    out.2.kv = L.tokenize prompt ++ generated L out.1 ∧
    out.2.nCtxUsed + out.2.batch.length = (L.tokenize prompt ++ generated L out.1).length

/-- A turn that has put no token into the cache. -/
def Silent (out : Reply Token × State Token) : Prop := out.2.promptTokens = [] ∧ generated L out.1 = []

instance (r : Reply Token) : Decidable (Completed L r) := inferInstanceAs (Decidable (_ ∧ _))

variable {L} {s : State Token} {r : Reply Token} {token : Token}

theorem generated_eog (h : L.isEog token) (tokens : List Token) (ending : Ending) (pieces : List Bytes) :
    generated L ⟨pieces, token :: tokens, ending⟩ = [] :=
  List.takeWhile_cons_of_neg (by simpa using h)

theorem generated_next (h : ¬L.isEog token) (tokens : List Token) (ending : Ending) (pieces : List Bytes) :
    generated L ⟨pieces, token :: tokens, ending⟩ = token :: generated L ⟨pieces, tokens, ending⟩ :=
  List.takeWhile_cons_of_pos (by simpa using h)

variable (L) in
/-- A completed loop appends its batch and all that it generates, and its last check has
counted this. -/
structure Appends (s : State Token) (out : Reply Token × State Token) : Prop where
  kv : out.2.kv = s.kv ++ s.batch ++ generated L out.1
  counted : out.2.nCtxUsed + out.2.batch.length = out.2.kv.length
  promptTokens : out.2.promptTokens = s.promptTokens

theorem generate_appends (draws : List (Draw Token)) (s : State Token)
    (h : Completed L (generate L draws s).1) : Appends L s (generate L draws s) := by
  revert h
  refine generate_induction (P := fun s out ↦ Completed L out.1 → Appends L s out) ?_ ?_ ?_ ?_ ?_ draws s
  · intro s h
    exact absurd h.1 (by simp)
  · intro s e h
    exact absurd h.1 (by simp)
  · intro s token heog _
    rw [stopCompletion_eq, accept_eog heog]
    refine ⟨?_, ?_, rfl⟩
    · rw [generated_eog heog, List.append_nil]
      rfl
    · exact (List.length_append ..).symm
  · intro s token heog _ h
    obtain ⟨-, t, ht, heog'⟩ := h
    rw [List.mem_singleton.mp ht] at heog'
    exact absurd heog' heog
  · intro s token r s' heog _ ih h
    obtain ⟨hending, t, ht, heog'⟩ := h
    have hrest : Completed L r := by
      refine ⟨hending, t, ?_, heog'⟩
      rcases List.mem_cons.mp ht with rfl | ht
      · exact absurd heog' heog
      · exact ht
    obtain ⟨hkv, hcounted, hprompt⟩ := ih hrest
    have haccept : (accept L token (checked s)).2.kv = s.kv ++ s.batch ∧
        (accept L token (checked s)).2.batch = [token] ∧
        (accept L token (checked s)).2.promptTokens = s.promptTokens := by
      rw [accept_of_not_eog heog]
      split <;> exact ⟨rfl, rfl, rfl⟩
    refine ⟨?_, hcounted, hprompt.trans haccept.2.2⟩
    rw [generated_next heog]
    change s'.kv = _ ++ token :: generated L r
    rw [hkv, haccept.1, haccept.2.1, List.append_assoc]
    rfl

theorem getResponse_appends {query : Bytes} {draws : List (Draw Token)}
    (h : Completed L (getResponse L query draws s).1) :
    (startCompletion L query s).1 = .ok () ∧
      (getResponse L query draws s).2.promptTokens = (startCompletion L query s).2.promptTokens ∧
      (getResponse L query draws s).2.kv =
        s.kv ++ (startCompletion L query s).2.promptTokens ++ generated L (getResponse L query draws s).1 ∧
      (getResponse L query draws s).2.nCtxUsed + (getResponse L query draws s).2.batch.length =
        (getResponse L query draws s).2.kv.length := by
  rcases getResponse_cases (L := L) query draws s with ⟨e, heq⟩ | ⟨hok, heq⟩
  · rw [heq] at h
    exact absurd h.1 (by simp)
  · rw [heq] at h ⊢
    obtain ⟨hkv, hcounted, hprompt⟩ := generate_appends draws _ h
    obtain ⟨prompt, -, htokens, hbatch⟩ := startCompletion_ok hok
    refine ⟨hok, hprompt, ?_, hcounted⟩
    rw [hkv, (startCompletion_started L query s).kv, hbatch, htokens]

theorem run_kv (uses : List (Use Token)) (s : State Token) (h : ∀ out ∈ turns L uses s, Completed L out.1) :
    (run L uses s).kv = [] ↔ s.kv = [] ∧ ∀ out ∈ turns L uses s, Silent L out := by
  induction uses generalizing s with
  | nil => exact ⟨fun hkv ↦ ⟨hkv, fun _ hout ↦ absurd hout List.not_mem_nil⟩, fun hkv ↦ hkv.1⟩
  | cons u uses ih =>
    cases u with
    | add message role => exact ih (addChatMessage message role s) h
    | turn query draws =>
      rw [turns, List.forall_mem_cons] at h ⊢
      obtain ⟨-, hprompt, hkv, -⟩ := getResponse_appends h.1
      have hrest := ih _ h.2
      rw [hkv, List.append_eq_nil_iff, List.append_eq_nil_iff, ← hprompt, and_assoc, and_assoc] at hrest
      rw [Silent, and_assoc]
      exact hrest

theorem cached_iff_empty {query : Bytes} {draws : List (Draw Token)}
    (h : Completed L (getResponse L query draws s).1) :
    Cached L query s (getResponse L query draws s) ↔ s.kv = [] := by
  obtain ⟨hok, -, hkv, hcounted⟩ := getResponse_appends h
  obtain ⟨prompt, hprompt, htokens, -⟩ := startCompletion_ok hok
  rw [htokens, List.append_assoc] at hkv
  constructor
  · intro hcached
    obtain ⟨prompt', hprompt', hcached, -⟩ := hcached
    obtain rfl : prompt = prompt' := Except.ok.inj (hprompt.symm.trans hprompt')
    exact List.append_left_eq_self.mp (hkv.symm.trans hcached)
  · intro hempty
    rw [hempty, List.nil_append] at hkv
    exact ⟨prompt, hprompt, hkv, hcounted.trans (congrArg List.length hkv)⟩

variable (L)

/-- The cache agrees with the messages after a turn exactly if no turn before it has put a
token there. -/
theorem cached_iff_first (nCtx : ℕ) (uses : List (Use Token)) (query : Bytes) (draws : List (Draw Token))
    (hbefore : ∀ out ∈ turns L uses (loadModel true nCtx), Completed L out.1)
    (hcompleted : Completed L (getResponse L query draws (run L uses (loadModel true nCtx))).1) :
    Cached L query (run L uses (loadModel true nCtx))
        (getResponse L query draws (run L uses (loadModel true nCtx))) ↔
      ∀ out ∈ turns L uses (loadModel true nCtx), Silent L out := by
  rw [cached_iff_empty hcompleted, run_kv uses _ hbefore]
  exact and_iff_right rfl

/-! A first turn, and a second one -/

abbrev hello : Use Bytes := .turn (ascii "hello") [.sampled (ascii "hi"), .sampled []]

theorem first_cached : Cached bytesLlama (ascii "hello") (loadModel true 1024)
    (getResponse bytesLlama (ascii "hello") [.sampled (ascii "hi"), .sampled []] (loadModel true 1024)) :=
  (cached_iff_first bytesLlama 1024 [] (ascii "hello") [.sampled (ascii "hi"), .sampled []]
    (by decide) (by decide +kernel)).mpr (fun _ h ↦ absurd h List.not_mem_nil)

/-- The second prompt repeats the first conversation, which is still in the cache. -/
theorem cached_twice :
    let s := run bytesLlama [hello] (loadModel true 1024)
    let out := getResponse bytesLlama (ascii "more") [.sampled (ascii "ok"), .sampled []] s
    Completed bytesLlama out.1 ∧
      out.2.kv = [ascii "hello", ascii "hi", ascii "hellohimore", ascii "ok"] ∧
      ¬Cached bytesLlama (ascii "more") s out := by
  intro s out
  have hcompleted : Completed bytesLlama out.1 := by decide +kernel
  refine ⟨hcompleted, by decide +kernel, fun h ↦ ?_⟩
  have hempty := (cached_iff_empty hcompleted).mp h
  revert hempty
  decide +kernel

end Aigentik.ContextCache
