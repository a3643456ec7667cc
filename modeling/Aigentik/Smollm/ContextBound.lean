import Aigentik.Smollm.SmolLM
import Mathlib.Data.Int.Notation

namespace Aigentik.ContextBound

open Strings Utf8 LLMInference SmolLM

/-- The context of llama.cpp with its memory: `llama_n_ctx`, `llama_memory_seq_pos_max` of sequence
0 and `llama_decode` of so many tokens, with its result code and what it leaves of the memory. -/
structure Context (Memory Token : Type) where
  nCtx : UInt32
  seqPosMax : Memory → Int32
  decode : List Token → Int32 → Memory → Int32 × Memory

variable {Memory Token : Type}

/-- An empty sequence has -1 as its largest position. A batch that the context has room for and
that is decoded raises it by the number of its tokens, and one without tokens is not decoded. -/
structure Context.Raises (C : Context Memory Token) : Prop where
  least : ∀ m, -1 ≤ (C.seqPosMax m).toInt
  raised : ∀ tokens n m, 1 ≤ n.toInt → (C.seqPosMax m).toInt + 1 + n.toInt ≤ C.nCtx.toNat →
    0 ≤ (C.decode tokens n m).1.toInt → (C.seqPosMax (C.decode tokens n m).2).toInt = (C.seqPosMax m).toInt + n.toInt
  refused : ∀ tokens n m, n.toInt ≤ 0 → (C.decode tokens n m).1.toInt < 0

/-- An instance with the memory of its context, and the numbers that the size check reads. -/
structure Native (Memory Token : Type) where
  state : State Token
  memory : Memory
  nTokens : Int32
  nCtxUsed : Int32

variable (C : Context Memory Token) (L : Llama Token)

/-- `_promptTokens.size()` as an `int32_t`. -/
def startCompletion (query : Bytes) (s : Native Memory Token) : Except Str Unit × Native Memory Token :=
  match LLMInference.startCompletion L query s.state with
  | (.error what, state) => (.error what, { s with state })
  | (.ok (), state) => (.ok (), { s with state, nTokens := Int32.ofNat state.promptTokens.length })

/-- The sum is compared as a `uint32_t`. -/
def completionLoop (sampled : Token) (s : Native Memory Token) : Except Str Bytes × Native Memory Token :=
  let s := { s with nCtxUsed := C.seqPosMax s.memory + 1 }
  if (s.nCtxUsed + s.nTokens).toUInt32 > C.nCtx then (.error "context size reached", s)
  else
    let decoded := C.decode s.state.batch s.nTokens s.memory
    let s := { s with memory := decoded.2 }
    if decoded.1 < 0 then (.error "llama_decode() failed", s)
    else
      let (piece, state) := accept L sampled s.state
      (.ok piece, { s with state, nTokens := if L.isEog sampled then s.nTokens else 1 })

/-- The loop of `getResponse`: what the calls of `completionLoop` sample, and how many calls there
may be. -/
def generate (sample : ℕ → Token) : ℕ → ℕ → Native Memory Token → Option (Reply Token × Native Memory Token)
  | 0, _, _ => none
  | calls + 1, i, s =>
    match completionLoop C L (sample i) s with
    | (.error what, s) => some (⟨[], [], .threw ⟨"IllegalStateException", some what⟩⟩, s)
    | (.ok piece, s) =>
      if cstr piece = eog then some (⟨[], [sample i], .finished⟩, { s with state := stopCompletion s.state })
      else (generate sample calls (i + 1) s).map fun (r, s) ↦
        (⟨cstr piece :: r.pieces, sample i :: r.sampled, r.ending⟩, s)

def getResponse (query : Bytes) (sample : ℕ → Token) (calls : ℕ) (s : Native Memory Token) :
    Option (Reply Token × Native Memory Token) :=
  match startCompletion L query s with
  | (.error what, s) => some (⟨[], [], .threw ⟨"IllegalStateException", some what⟩⟩, s)
  | (.ok (), s) => generate C L sample calls 0 s

def Ends (r : Reply Token) : Prop :=
  r.ending = .finished ∨ r.ending = .threw ⟨"IllegalStateException", some "context size reached"⟩ ∨
    r.ending = .threw ⟨"IllegalStateException", some "llama_decode() failed"⟩

variable {C L}

theorem toNat_toUInt32 (x : Int32) : (x.toUInt32.toNat : ℤ) = x.toInt % UInt32.size := by
  have hx : x.toInt = (x.toUInt32.toNat : ℤ).bmod (2 ^ 32) := x.toBitVec.toInt_eq_toNat_bmod
  have hlt := x.toUInt32.toNat_lt
  have hmod := Int.bmod_emod (x := x.toUInt32.toNat) (m := 2 ^ 32)
  rw [UInt32.size]
  omega

/-- An `int32_t` may be too small for the sum, but a `uint32_t` is not. -/
theorem toNat_sum {pos n : Int32} (hpos : -1 ≤ pos.toInt) (hn : 0 ≤ n.toInt) :
    ((pos + 1 + n).toUInt32.toNat : ℤ) = pos.toInt + 1 + n.toInt := by
  have hlt := pos.toInt_lt
  have hlt' := n.toInt_lt
  have hpos32 := toNat_toUInt32 pos
  have hn32 := toNat_toUInt32 n
  have hone : (1 : Int32).toUInt32.toNat = 1 := rfl
  rw [UInt32.size] at hpos32 hn32
  rw [Int32.toUInt32_add, Int32.toUInt32_add, UInt32.toNat_add, UInt32.toNat_add, hone]
  omega

theorem room_of_check {pos n : Int32} {nCtx : UInt32} (hpos : -1 ≤ pos.toInt) (hn : 0 ≤ n.toInt)
    (h : ¬(pos + 1 + n).toUInt32 > nCtx) : pos.toInt + 1 + n.toInt ≤ nCtx.toNat := by
  have hle : (pos + 1 + n).toUInt32.toNat ≤ nCtx.toNat := UInt32.le_iff_toNat_le.mp (UInt32.not_lt.mp h)
  have hsum := toNat_sum hpos hn
  omega

/-- The first free position. -/
def used (C : Context Memory Token) (s : Native Memory Token) : ℤ := (C.seqPosMax s.memory).toInt + 1

theorem decode_raised (hC : C.Raises) {tokens : List Token} {n : Int32} {m : Memory}
    (hsize : ¬(C.seqPosMax m + 1 + n).toUInt32 > C.nCtx) (hcode : ¬(C.decode tokens n m).1 < 0) :
    1 ≤ n.toInt ∧ (C.seqPosMax m).toInt + 1 + n.toInt ≤ C.nCtx.toNat ∧
      (C.seqPosMax (C.decode tokens n m).2).toInt = (C.seqPosMax m).toInt + n.toInt := by
  have hdecoded : 0 ≤ (C.decode tokens n m).1.toInt := Int32.le_iff_toInt_le.mp (Int32.not_lt.mp hcode)
  have hone : 1 ≤ n.toInt := by
    by_contra hnone
    have hrefused := hC.refused tokens n m (by omega)
    omega
  have hroom := room_of_check (hC.least m) (by omega) hsize
  exact ⟨hone, hroom, hC.raised tokens n m hone hroom hdecoded⟩

/-- A call that throws names the check or the decoding; one that returns has moved the first free
position up, within the context. -/
theorem completionLoop_cases (hC : C.Raises) (sampled : Token) (s : Native Memory Token) :
    (∃ what s', completionLoop C L sampled s = (.error what, s') ∧
        (what = "context size reached" ∨ what = "llama_decode() failed")) ∨
      ∃ piece s', completionLoop C L sampled s = (.ok piece, s') ∧
        used C s < used C s' ∧ used C s' ≤ C.nCtx.toNat := by
  unfold completionLoop
  dsimp only
  by_cases hsize : (C.seqPosMax s.memory + 1 + s.nTokens).toUInt32 > C.nCtx
  · rw [if_pos hsize]
    exact .inl ⟨_, _, rfl, .inl rfl⟩
  · rw [if_neg hsize]
    by_cases hcode : (C.decode s.state.batch s.nTokens s.memory).1 < 0
    · rw [if_pos hcode]
      exact .inl ⟨_, _, rfl, .inr rfl⟩
    · rw [if_neg hcode]
      obtain ⟨hone, hroom, hraised⟩ := decode_raised hC hsize hcode
      refine .inr ⟨_, _, rfl, ?_, ?_⟩
      · dsimp only [used]
        omega
      · dsimp only [used]
        omega

theorem generate_threw {sample : ℕ → Token} {calls i : ℕ} {s s' : Native Memory Token} {what : Str}
    (h : completionLoop C L (sample i) s = (.error what, s'))
    (hwhat : what = "context size reached" ∨ what = "llama_decode() failed") :
    ∃ r s', generate C L sample (calls + 1) i s = some (r, s') ∧ Ends r := by
  rw [generate, h]
  refine ⟨_, s', rfl, .inr ?_⟩
  rcases hwhat with rfl | rfl
  · exact .inl rfl
  · exact .inr rfl

/-- The loop ends once the calls exceed the positions that are free. -/
theorem generate_ends (hC : C.Raises) (sample : ℕ → Token) (calls i : ℕ) (s : Native Memory Token)
    (h : (C.nCtx.toNat : ℤ) ≤ used C s + calls) :
    ∃ r s', generate C L sample (calls + 1) i s = some (r, s') ∧ Ends r := by
  induction calls generalizing i s with
  | zero =>
    rcases completionLoop_cases (L := L) hC (sample i) s with ⟨what, s', heq, hwhat⟩ | ⟨piece, s', -, hless, hle⟩
    · exact generate_threw heq hwhat
    · omega
  | succ calls ih =>
    rcases completionLoop_cases (L := L) hC (sample i) s with ⟨what, s', heq, hwhat⟩ | ⟨piece, s', heq, hless, -⟩
    · exact generate_threw heq hwhat
    · rw [generate, heq]
      dsimp only
      by_cases hpiece : cstr piece = eog
      · rw [if_pos hpiece]
        exact ⟨_, _, rfl, .inl rfl⟩
      · rw [if_neg hpiece]
        obtain ⟨r, s'', hrest, hends⟩ := ih (i + 1) s' (by push_cast at h; omega)
        rw [hrest]
        exact ⟨_, s'', rfl, hends⟩

/-- The cache has a token for each position, and the batch is as long as the number says. -/
structure Agrees (C : Context Memory Token) (s : Native Memory Token) : Prop where
  nCtx : s.state.nCtx = C.nCtx.toNat
  kv : (s.state.kv.length : ℤ) = used C s
  batch : (s.state.batch.length : ℤ) = s.nTokens.toInt

def drawn (C : Context Memory Token) (sampled : Token) (s : Native Memory Token) : Draw Token :=
  if (C.decode s.state.batch s.nTokens s.memory).1 < 0 then .failed else .sampled sampled

theorem accept_checked (token : Token) (s : State Token) : accept L token (checked s) =
    ((accept L token s).1, { (accept L token s).2 with nCtxUsed := s.kv.length }) := by
  unfold accept checked
  dsimp only
  split
  · rfl
  · split <;> rfl

theorem accept_kv (token : Token) (s : State Token) : (accept L token s).2.nCtx = s.nCtx ∧
    (accept L token s).2.kv = s.kv ++ s.batch ∧
      (accept L token s).2.batch = if L.isEog token then s.batch else [token] := by
  unfold accept
  dsimp only
  split
  · exact ⟨rfl, rfl, rfl⟩
  · split <;> exact ⟨rfl, rfl, rfl⟩

/-- The call is that of the model with natural numbers, up to the size that it records, and keeps
to it where it returns. -/
theorem completionLoop_refines (hC : C.Raises) (sampled : Token) {s : Native Memory Token} (hs : Agrees C s) :
    (completionLoop C L sampled s).1 = (LLMInference.completionLoop L (drawn C sampled s) s.state).1 ∧
      (∃ n, (LLMInference.completionLoop L (drawn C sampled s) s.state).2 =
        { (completionLoop C L sampled s).2.state with nCtxUsed := n }) ∧
      (∀ piece, (completionLoop C L sampled s).1 = .ok piece → Agrees C (completionLoop C L sampled s).2) := by
  have hkv := hs.kv
  have hbatch := hs.batch
  have hsum := toNat_sum (hC.least s.memory) (n := s.nTokens) (by omega)
  have hsize : (C.seqPosMax s.memory + 1 + s.nTokens).toUInt32 > C.nCtx ↔
      s.state.kv.length + s.state.batch.length > s.state.nCtx := by
    rw [gt_iff_lt, UInt32.lt_iff_toNat_lt, hs.nCtx]
    unfold used at hkv
    omega
  unfold completionLoop LLMInference.completionLoop drawn
  dsimp only
  by_cases hroom : (C.seqPosMax s.memory + 1 + s.nTokens).toUInt32 > C.nCtx
  · have hroom' : (checked s.state).nCtxUsed + (checked s.state).batch.length > (checked s.state).nCtx := hsize.mp hroom
    rw [if_pos hroom, if_pos hroom']
    exact ⟨rfl, ⟨_, rfl⟩, nofun⟩
  · have hroom' : ¬(checked s.state).nCtxUsed + (checked s.state).batch.length > (checked s.state).nCtx :=
      fun h ↦ hroom (hsize.mpr h)
    rw [if_neg hroom, if_neg hroom']
    by_cases hcode : (C.decode s.state.batch s.nTokens s.memory).1 < 0
    · rw [if_pos hcode, if_pos hcode]
      exact ⟨rfl, ⟨_, rfl⟩, nofun⟩
    · rw [if_neg hcode, if_neg hcode]
      dsimp only
      rw [accept_checked]
      refine ⟨rfl, ⟨_, rfl⟩, fun _ _ ↦ ?_⟩
      obtain ⟨-, -, hraised⟩ := decode_raised hC hroom hcode
      obtain ⟨hnCtx, hcached, hnext⟩ := accept_kv (L := L) sampled s.state
      refine ⟨hnCtx.trans hs.nCtx, ?_, ?_⟩
      · dsimp only [used] at hkv ⊢
        rw [hcached, List.length_append]
        omega
      · dsimp only
        rw [hnext]
        split
        · exact hbatch
        · rfl

/-! A memory of four cells -/

/-- A batch without a slot is answered by a warning. -/
def fourCells : Context (Fin 5) Bytes where
  nCtx := 4
  seqPosMax m := Int32.ofInt (m.val - 1)
  decode _ n m :=
    if n ≤ 0 then (-1, m)
    else if h : m.val + n.toInt.toNat < 5 then (0, ⟨m.val + n.toInt.toNat, h⟩)
    else (1, m)

theorem fourCells_pos (m : Fin 5) : (fourCells.seqPosMax m).toInt = m.val - 1 := by
  revert m
  decide

theorem fourCells_raises : fourCells.Raises where
  least m := by
    rw [fourCells_pos]
    omega
  raised tokens n m hn hroom hcode := by
    have hpos : ¬n ≤ 0 := by
      rw [Int32.le_iff_toInt_le]
      simp
      omega
    have hfree : m.val + n.toInt.toNat < 5 := by
      have hnCtx : fourCells.nCtx.toNat = 4 := rfl
      rw [fourCells_pos, hnCtx] at hroom
      omega
    have hdecode : fourCells.decode tokens n m = (0, ⟨m.val + n.toInt.toNat, hfree⟩) := by
      unfold fourCells
      dsimp only
      rw [if_neg hpos, dif_pos hfree]
    rw [hdecode, fourCells_pos, fourCells_pos]
    dsimp only
    omega
  refused tokens n m hn := by
    have hnone : n ≤ 0 := Int32.le_iff_toInt_le.mpr hn
    unfold fourCells
    dsimp only
    rw [if_pos hnone]
    exact Int.negSucc_lt_zero 0

end Aigentik.ContextBound
