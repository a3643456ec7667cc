import Aigentik.Llama.Context
import Aigentik.Smollm.ContextBound

/-! Completions on a context whose memory is that of llama.cpp: the tokens of sequence 0 are in its cache. -/

namespace Aigentik.ContextMemory

open Strings Utf8 LLMInference Effects
open Llama.KvCache (Swa)
open Llama.Context (Memory Params Backend Status Caches Decodes Ended create decode_decodes caches_create)

variable {Token : Type} (L : LLMInference.Llama Token) (p : Params) (w : Swa) (valid : Token → Bool)

/-- The loop as it reads the memory. There is no result if the process ends. -/
def completionLoop (b : Backend) (token : Token) (s : State Token) (m : Memory Token) :
    Option ((Except Str Bytes × State Token) × Memory Token) :=
  let s := { s with nCtxUsed := (m.cache.cells.seqPosMax Llama.seqId0 + 1).toNat }
  if s.nCtxUsed + s.batch.length > p.nCtx then some ((.error "context size reached", s), m)
  else (Aigentik.Llama.Context.decode p w valid b s.batch m).map fun (code, m) ↦
    if code < 0 then ((.error "llama_decode() failed", s), m)
    else
      let (piece, s) := accept L token s
      ((.ok piece, s), m)

/-- A batch fails as a whole or not at all, and is not aborted: no callback is set for that. -/
def Whole (p : Params) (b : Backend) (batch : List Token) : Prop :=
  ∀ i, b.status i = .success ∨ (b.status i ≠ .aborted ∧ batch.length ≤ p.nUbatch)

/-- What is called. A loop ends as its backend has it, and samples a token. -/
inductive Call (Token : Type)
  | message (message : Bytes) (role : Str)
  | start (query : Bytes)
  | loop (b : Backend) (token : Token)
  | stop

/-- What a call that is not a loop leaves. -/
def called (s : State Token) : Call Token → State Token
  | .message message role => addChatMessage message role s
  | .start query => (startCompletion L query s).2
  | .loop _ _ => s
  | .stop => stopCompletion s

/-- A call on a context with its memory. A loop has a result. -/
def NativeStep (s : State Token × Memory Token) (e : Call Token × Option (Except Str Bytes))
    (s' : State Token × Memory Token) : Prop :=
  match e.1 with
  | .loop b token => Whole p b s.1.batch ∧ ∃ out, e.2 = some out ∧
      completionLoop L p w valid b token s.1 s.2 = some ((out, s'.1), s'.2)
  | call => e.2 = none ∧ s' = (called L s.1 call, s.2)

/-- A call on a context whose cached tokens are a list. -/
def Step (s : State Token) (e : Call Token × Option (Except Str Bytes)) (s' : State Token) : Prop :=
  match e.1 with
  | .loop _ token => ∃ draw, (draw = .failed ∨ draw = .sampled token) ∧ ∃ out, e.2 = some out ∧
      LLMInference.completionLoop L draw s = (out, s')
  | call => e.2 = none ∧ s' = called L s call

variable {L p w valid} {s s' : State Token} {m m' : Memory Token} {b : Backend} {token : Token}

theorem called_kv (s : State Token) (call : Call Token) : (called L s call).kv = s.kv ∧ (called L s call).nCtx = s.nCtx := by
  cases call with
  | message message role => exact ⟨rfl, rfl⟩
  | start query => exact ⟨(startCompletion_started L query s).kv, (startCompletion_started L query s).nCtx⟩
  | loop b token => exact ⟨rfl, rfl⟩
  | stop =>
    dsimp only [called]
    rw [stopCompletion_eq]
    exact ⟨rfl, rfl⟩

/-- The size that is read from the memory is the number of cached tokens. -/
theorem toNat_seqPosMax {kv : List Token} (h : Caches p m kv) :
    (m.cache.cells.seqPosMax Llama.seqId0 + 1).toNat = kv.length := by
  obtain ⟨loc, hholds⟩ := h
  rw [hholds.seqPosMax, List.length_map, Int.toNat_natCast]

/-- Batches that fail as a whole leave the cached tokens as they were, or are appended to them. -/
theorem Whole.ended {batch : List Token} {code : ℤ} {k : ℕ} (h : Whole p b batch)
    (hended : Ended b p.nUbatch batch.length code k) :
    (code < 0 ∧ k = 0) ∨ (code = 0 ∧ k = batch.length) := by
  cases hended with
  | all => exact .inr ⟨rfl, rfl⟩
  | part i k hstatus hk hdvd =>
    obtain ⟨haborted, hlen⟩ := (h i).resolve_left hstatus
    refine .inl ⟨?_, Nat.eq_zero_of_dvd_of_lt hdvd (by omega)⟩
    cases hcode : b.status i with
    | success => exact absurd hcode hstatus
    | aborted => exact absurd hcode haborted
    | allocFailed => decide
    | failed => decide

/-- The loop that reads the memory does what the loop on the list of tokens does. -/
theorem completionLoop_refines {out : Except Str Bytes} (hw : w.swaType = .none) (hn : p.nCtx ≤ 2147483647)
    (hctx : s.nCtx = p.nCtx) (h : Caches p m s.kv) (hwhole : Whole p b s.batch)
    (hloop : completionLoop L p w valid b token s m = some ((out, s'), m')) :
    ∃ draw, (draw = .failed ∨ draw = .sampled token) ∧ LLMInference.completionLoop L draw s = (out, s') ∧
      Caches p m' s'.kv := by
  unfold completionLoop at hloop
  dsimp only at hloop
  rw [toNat_seqPosMax h, ← hctx] at hloop
  split at hloop
  · rename_i hlarge
    cases hloop
    exact ⟨.failed, .inl rfl, if_pos hlarge, h⟩
  · rename_i hfits
    obtain ⟨⟨code, m₁⟩, hdecode, hresult⟩ := Option.map_eq_some_iff.mp hloop
    obtain ⟨kv', hdecodes, hcaches⟩ := decode_decodes hw hn h hdecode
    have hcases : (code < 0 ∧ kv' = s.kv) ∨ (code = 0 ∧ kv' = s.kv ++ s.batch) := by
      cases hdecodes with
      | refused => exact .inl ⟨by decide, rfl⟩
      | full _ _ hfull => exact absurd hfull (by omega)
      | unreserved => exact .inl ⟨by decide, rfl⟩
      | ended _ _ _ k _ hended =>
        rcases hwhole.ended hended with ⟨hcode, rfl⟩ | ⟨hcode, rfl⟩
        · exact .inl ⟨hcode, by rw [List.take_zero, List.append_nil]⟩
        · exact .inr ⟨hcode, by rw [List.take_length]⟩
    dsimp only at hresult
    rcases hcases with ⟨hcode, rfl⟩ | ⟨rfl, rfl⟩
    · rw [if_pos hcode] at hresult
      cases hresult
      exact ⟨.failed, .inl rfl, if_neg hfits, hcaches⟩
    · rw [if_neg (lt_irrefl 0)] at hresult
      cases hresult
      refine ⟨.sampled token, .inr rfl, if_neg hfits, ?_⟩
      rw [(ContextBound.accept_kv token _).2.1]
      exact hcaches

theorem completionLoop_nCtx (draw : Draw Token) (s : State Token) :
    (LLMInference.completionLoop L draw s).2.nCtx = s.nCtx := by
  rcases LLMInference.completionLoop_cases (L := L) draw s with ⟨what, heq⟩ | ⟨token, -, -, heq⟩
  · rw [heq]
    rfl
  · rw [heq]
    exact (ContextBound.accept_kv token (checked s)).1

theorem called_caches (hctx : s.nCtx = p.nCtx) (h : Caches p m s.kv) (call : Call Token) :
    (called L s call).nCtx = p.nCtx ∧ Caches p m (called L s call).kv := by
  obtain ⟨hkv, hnCtx⟩ := called_kv (L := L) s call
  rw [hkv, hnCtx]
  exact ⟨hctx, h⟩

end Aigentik.ContextMemory
