import Aigentik.Smollm.SmolLM

namespace Aigentik.ResponseStream

open Strings Utf8 LLMInference SmolLM

variable {Token : Type} (L : Llama Token)

/-- The texts of the tokens before the first EOG token. -/
def heard (r : Reply Token) : List Bytes := (r.sampled.takeWhile fun t ↦ !L.isEog t).map L.piece

/-- The caller gets the text of the tokens up to its last complete character, and the
loop has ended exactly if an EOG token was sampled. -/
def Exact (r : Reply Token) : Prop :=
  r.text = cutBack (heard L r).flatten ∧ (r.ending = .finished ↔ ∃ token ∈ r.sampled, L.isEog token)

/-- No NUL, no token that spells the end where the text is whole, and between the last
token boundary where it is whole and its end no complete character. -/
def Clean (texts : List Bytes) : Prop :=
  (∀ t ∈ texts, 0 ∉ t) ∧
  (∀ before t after, texts = before ++ t :: after → Whole before.flatten → t ≠ eog) ∧
  ∀ before after, texts = before ++ after → Whole before.flatten →
    (∀ part, part <+: after → part ≠ [] → ¬Whole part.flatten) →
    (before.flatten = [] ∨ Ends before.flatten) ∧ cutBack after.flatten = []

/-- Bytes that are left over and never become valid, before a text without a character. -/
def Withheld (cache : Bytes) (texts : List Bytes) : Prop :=
  (∀ part, part <+: texts → ¬isValidUtf8 (cache ++ part.flatten)) ∧ cutBack texts.flatten = []

/-! The bytes that are handed out -/

def emitted : Bytes → List Bytes → Bytes
  | _, [] => []
  | cache, t :: ts =>
    if isValidUtf8 (cache ++ t) then cstr (cache ++ t) ++ emitted [] ts else emitted (cache ++ t) ts

def leftOver : Bytes → List Bytes → Bytes
  | cache, [] => cache
  | cache, t :: ts => if isValidUtf8 (cache ++ t) then leftOver [] ts else leftOver (cache ++ t) ts

/-- A piece that is handed out reads as the end. -/
def Spells : Bytes → List Bytes → Prop
  | _, [] => False
  | cache, t :: ts =>
    if isValidUtf8 (cache ++ t) then cstr (cache ++ t) = eog ∨ Spells [] ts else Spells (cache ++ t) ts

variable {cache t bs cs : Bytes} {ts us : List Bytes}

theorem emitted_cons_valid (h : isValidUtf8 (cache ++ t)) :
    emitted cache (t :: ts) = cstr (cache ++ t) ++ emitted [] ts :=
  if_pos h

theorem emitted_cons_invalid (h : ¬isValidUtf8 (cache ++ t)) :
    emitted cache (t :: ts) = emitted (cache ++ t) ts :=
  if_neg h

theorem leftOver_cons_valid (h : isValidUtf8 (cache ++ t)) :
    leftOver cache (t :: ts) = leftOver [] ts :=
  if_pos h

theorem leftOver_cons_invalid (h : ¬isValidUtf8 (cache ++ t)) :
    leftOver cache (t :: ts) = leftOver (cache ++ t) ts :=
  if_neg h

theorem spells_cons_valid (h : isValidUtf8 (cache ++ t)) :
    Spells cache (t :: ts) ↔ cstr (cache ++ t) = eog ∨ Spells [] ts := by
  rw [Spells, if_pos h]

theorem spells_cons_invalid (h : ¬isValidUtf8 (cache ++ t)) :
    Spells cache (t :: ts) ↔ Spells (cache ++ t) ts := by
  rw [Spells, if_neg h]

theorem validFrom_iff (k : ℕ) (bs : Bytes) : validFrom k bs ↔ scan k (cstr bs) = some 0 := by
  induction bs generalizing k with
  | nil => cases k <;> simp [validFrom, cstr, scan_nil]
  | cons b bs ih =>
    by_cases hb : b = 0
    · subst hb
      cases k <;> simp [validFrom, cstr, scan_nil]
    · have hcstr : cstr (b :: bs) = b :: cstr bs := by simp [cstr, hb]
      rw [hcstr, scan_cons]
      cases k with
      | zero =>
        rw [validFrom, if_neg hb, step]
        cases width b with
        | none => simp
        | some num => simpa using ih (num - 1)
      | succ k =>
        rw [validFrom, step]
        by_cases htail : b &&& 0xC0 = 0x80
        · rw [if_neg (not_not_intro htail), if_pos htail]
          exact ih k
        · rw [if_pos htail, if_neg htail]
          simp

theorem isValidUtf8_iff (bs : Bytes) : isValidUtf8 bs ↔ Whole (cstr bs) := validFrom_iff 0 bs

theorem cstr_of_not_mem (h : 0 ∉ bs) : cstr bs = bs := by
  refine List.takeWhile_eq_self_iff.mpr fun b hb ↦ ?_
  have hne : b ≠ 0 := fun heq ↦ h (heq ▸ hb)
  simpa using hne

theorem zero_not_mem_cstr (bs : Bytes) : 0 ∉ cstr bs := by
  intro h
  have hne := List.mem_takeWhile_imp h
  simp at hne

theorem cstr_append_of_mem (h : 0 ∈ bs) (cs : Bytes) : cstr (bs ++ cs) = cstr bs := by
  rw [cstr, List.takeWhile_append, if_neg, cstr]
  intro hlen
  have hself : cstr bs = bs := (List.takeWhile_prefix _).eq_of_length hlen
  exact zero_not_mem_cstr bs (hself.symm ▸ h)

theorem cstr_append_of_not_mem (h : 0 ∉ bs) (cs : Bytes) : cstr (bs ++ cs) = bs ++ cstr cs := by
  rw [cstr, List.takeWhile_append, if_pos, cstr]
  exact congrArg List.length (cstr_of_not_mem h)

theorem zero_not_mem_emitted (cache : Bytes) (ts : List Bytes) : 0 ∉ emitted cache ts := by
  induction ts generalizing cache with
  | nil => simp [emitted]
  | cons t ts ih =>
    by_cases h : isValidUtf8 (cache ++ t)
    · rw [emitted_cons_valid h, List.mem_append]
      exact fun hmem ↦ hmem.elim (zero_not_mem_cstr _) (ih [])
    · rw [emitted_cons_invalid h]
      exact ih _

/-- Where no boundary makes the bytes valid, nothing is handed out. -/
theorem emitted_of_invalid (h : ∀ part, part <+: ts → part ≠ [] → ¬isValidUtf8 (cache ++ part.flatten)) :
    emitted cache ts = [] ∧ ¬Spells cache ts := by
  induction ts generalizing cache with
  | nil => exact ⟨rfl, id⟩
  | cons t ts ih =>
    have ht : ¬isValidUtf8 (cache ++ t) := by
      have hpart := h [t] (by simp) (by simp)
      simpa using hpart
    rw [emitted_cons_invalid ht, spells_cons_invalid ht]
    refine ih fun part hpart hne ↦ ?_
    have hcons := h (t :: part) ((List.cons_prefix_cons).mpr ⟨rfl, hpart⟩) (by simp)
    simpa using hcons

theorem emitted_append (cache : Bytes) (us ts : List Bytes) :
    emitted cache (us ++ ts) = emitted cache us ++ emitted (leftOver cache us) ts := by
  induction us generalizing cache with
  | nil => rfl
  | cons u us ih =>
    rw [List.cons_append]
    by_cases h : isValidUtf8 (cache ++ u)
    · rw [emitted_cons_valid h, emitted_cons_valid h, leftOver_cons_valid h, ih, List.append_assoc]
    · rw [emitted_cons_invalid h, emitted_cons_invalid h, leftOver_cons_invalid h, ih]

theorem spells_append (cache : Bytes) (us ts : List Bytes) :
    Spells cache (us ++ ts) ↔ Spells cache us ∨ Spells (leftOver cache us) ts := by
  induction us generalizing cache with
  | nil => simp [Spells, leftOver]
  | cons u us ih =>
    rw [List.cons_append]
    by_cases h : isValidUtf8 (cache ++ u)
    · rw [spells_cons_valid h, spells_cons_valid h, leftOver_cons_valid h, ih, or_assoc]
    · rw [spells_cons_invalid h, spells_cons_invalid h, leftOver_cons_invalid h, ih]

/-- Bytes stay in the cache only while they are not valid. -/
theorem leftOver_nil_or_invalid (h : cache = [] ∨ ¬isValidUtf8 cache) (ts : List Bytes) :
    leftOver cache ts = [] ∨ ¬isValidUtf8 (leftOver cache ts) := by
  induction ts generalizing cache with
  | nil => exact h
  | cons t ts ih =>
    by_cases hvalid : isValidUtf8 (cache ++ t)
    · rw [leftOver_cons_valid hvalid]
      exact ih (.inl rfl)
    · rw [leftOver_cons_invalid hvalid]
      exact ih (.inr hvalid)

section NoNul

variable (hts : ∀ t ∈ ts, 0 ∉ t)
include hts

theorem emitted_append_leftOver (hcache : 0 ∉ cache) :
    emitted cache ts ++ leftOver cache ts = cache ++ ts.flatten ∧ 0 ∉ leftOver cache ts ∧
      Whole (emitted cache ts) := by
  induction ts generalizing cache with
  | nil => exact ⟨by simp [emitted, leftOver], hcache, whole_nil⟩
  | cons t ts ih =>
    have ht : 0 ∉ cache ++ t := by
      rw [List.mem_append]
      exact fun hmem ↦ hmem.elim hcache (hts t List.mem_cons_self)
    have hrest : ∀ t ∈ ts, 0 ∉ t := fun t hmem ↦ hts t (List.mem_cons_of_mem _ hmem)
    by_cases h : isValidUtf8 (cache ++ t)
    · obtain ⟨heq, hnul, hwhole⟩ := ih hrest (List.not_mem_nil)
      have hvalid : Whole (cache ++ t) := by
        rw [← cstr_of_not_mem ht]
        exact (isValidUtf8_iff _).mp h
      rw [emitted_cons_valid h, leftOver_cons_valid h, cstr_of_not_mem ht]
      refine ⟨?_, hnul, hvalid.append.mpr hwhole⟩
      rw [List.append_assoc, heq, List.nil_append, List.flatten_cons, List.append_assoc]
    · rw [emitted_cons_invalid h, leftOver_cons_invalid h]
      obtain ⟨heq, hnul, hwhole⟩ := ih hrest ht
      refine ⟨?_, hnul, hwhole⟩
      rw [heq, List.flatten_cons, List.append_assoc]

/-- Nothing is left over exactly where the text is whole. -/
theorem leftOver_eq_nil_iff : leftOver [] ts = [] ↔ Whole ts.flatten := by
  obtain ⟨heq, hnul, hwhole⟩ := emitted_append_leftOver hts (List.not_mem_nil)
  rw [List.nil_append] at heq
  rw [← heq, hwhole.append]
  constructor
  · intro h
    rw [h]
    exact whole_nil
  · intro h
    refine (leftOver_nil_or_invalid (.inl rfl) ts).resolve_right fun hinvalid ↦ hinvalid ?_
    rw [isValidUtf8_iff, cstr_of_not_mem hnul]
    exact h

theorem emitted_of_whole (h : Whole ts.flatten) : emitted [] ts = ts.flatten := by
  obtain ⟨heq, -, -⟩ := emitted_append_leftOver hts (List.not_mem_nil)
  rwa [(leftOver_eq_nil_iff hts).mpr h, List.append_nil, List.nil_append] at heq

end NoNul

/-- Every text has a last boundary where it is whole. -/
theorem exists_last_whole (ts : List Bytes) : ∃ before after, ts = before ++ after ∧ Whole before.flatten ∧
    ∀ part, part <+: after → part ≠ [] → ¬Whole part.flatten := by
  induction ts using List.reverseRecOn with
  | nil => exact ⟨[], [], rfl, whole_nil, fun part hpart hne ↦ absurd (List.prefix_nil.mp hpart) hne⟩
  | append_singleton ts t ih =>
    by_cases h : Whole (ts ++ [t]).flatten
    · exact ⟨ts ++ [t], [], by simp, h, fun part hpart hne ↦ absurd (List.prefix_nil.mp hpart) hne⟩
    · obtain ⟨before, after, rfl, hwhole, hlast⟩ := ih
      refine ⟨before, after ++ [t], by simp, hwhole, fun part hpart hne ↦ ?_⟩
      rcases List.prefix_concat_iff.mp hpart with rfl | hpart
      · rw [List.append_assoc, List.flatten_append, hwhole.append] at h
        exact h
      · exact hlast part hpart hne

theorem whole_of_prefix_eog (h : bs <+: eog) : Whole bs := by
  have hall : ∀ p ∈ eog.inits, Whole p := by decide
  exact hall bs ((List.mem_inits _ _).mpr h)

/-- Without NUL the end is spelled by one token at a boundary where the text is whole. -/
theorem spells_iff (hts : ∀ t ∈ ts, 0 ∉ t) :
    Spells [] ts ↔ ∃ before after, ts = before ++ eog :: after ∧ Whole before.flatten := by
  constructor
  · intro h
    induction ts using List.reverseRecOn with
    | nil => exact h.elim
    | append_singleton ts t ih =>
      have hrest : ∀ t ∈ ts, 0 ∉ t := fun t hmem ↦ hts t (List.mem_append_left _ hmem)
      rcases (spells_append [] ts [t]).mp h with h | h
      · obtain ⟨before, after, rfl, hwhole⟩ := ih hrest h
        exact ⟨before, after ++ [t], by simp, hwhole⟩
      · have hnul : 0 ∉ leftOver [] ts ++ t := by
          rw [List.mem_append]
          obtain ⟨-, hleft, -⟩ := emitted_append_leftOver hrest (List.not_mem_nil)
          exact fun hmem ↦ hmem.elim hleft (hts t (by simp))
        have heog : leftOver [] ts ++ t = eog := by
          by_cases hvalid : isValidUtf8 (leftOver [] ts ++ t)
          · rw [spells_cons_valid hvalid, cstr_of_not_mem hnul] at h
            exact h.resolve_right id
          · rw [spells_cons_invalid hvalid] at h
            exact h.elim
        have hleft : leftOver [] ts = [] := by
          refine (leftOver_nil_or_invalid (.inl rfl) ts).resolve_right fun hinvalid ↦ hinvalid ?_
          obtain ⟨-, hleft, -⟩ := emitted_append_leftOver hrest (List.not_mem_nil)
          rw [isValidUtf8_iff, cstr_of_not_mem hleft]
          exact whole_of_prefix_eog ⟨t, heog⟩
        rw [hleft, List.nil_append] at heog
        exact ⟨ts, [], by rw [heog], (leftOver_eq_nil_iff hrest).mp hleft⟩
  · intro h
    obtain ⟨before, after, rfl, hwhole⟩ := h
    have hbefore : ∀ t ∈ before, 0 ∉ t := fun t hmem ↦ hts t (List.mem_append_left _ hmem)
    rw [spells_append, (leftOver_eq_nil_iff hbefore).mpr hwhole]
    have hvalid : isValidUtf8 ([] ++ eog) := by decide
    exact .inr ((spells_cons_valid hvalid).mpr (.inl (by decide)))

/-- A NUL that is handed out is a character that the caller does not get. -/
theorem zero_not_mem_of_cutBack (h : emitted cache ts = cutBack ts.flatten) : ∀ t ∈ ts, 0 ∉ t := by
  intro t ht hzero
  have hmem : (0 : UInt8) ∈ ts.flatten := List.mem_flatten.mpr ⟨t, ht, hzero⟩
  obtain ⟨front, back, hsplit⟩ := List.append_of_mem hmem
  have hprefix : front ++ [0] <+: ts.flatten := ⟨back, by rw [hsplit]; simp⟩
  have hends : Ends (front ++ [0]) := by
    have hzero : Ends [0] := by decide
    exact hzero.append front
  have hcut : (0 : UInt8) ∈ cutBack ts.flatten := (cutBack_longest hprefix hends).subset (by simp)
  exact zero_not_mem_emitted cache ts (h ▸ hcut)

theorem exact_iff_clean (ts : List Bytes) :
    (¬Spells [] ts ∧ emitted [] ts = cutBack ts.flatten) ↔ Clean ts := by
  have split {before after : List Bytes} (hts : ∀ t ∈ before ++ after, 0 ∉ t) (hwhole : Whole before.flatten)
      (hlast : ∀ part, part <+: after → part ≠ [] → ¬Whole part.flatten) :
      emitted [] (before ++ after) = before.flatten := by
    have hbefore : ∀ t ∈ before, 0 ∉ t := fun t hmem ↦ hts t (List.mem_append_left _ hmem)
    have hquiet : emitted [] after = [] := by
      refine (emitted_of_invalid fun part hpart hne hvalid ↦ hlast part hpart hne ?_).1
      rw [List.nil_append, isValidUtf8_iff, cstr_of_not_mem] at hvalid
      · exact hvalid
      · intro hmem
        obtain ⟨t, ht, hzero⟩ := List.mem_flatten.mp hmem
        exact hts t (List.mem_append_right _ (hpart.subset ht)) hzero
    rw [emitted_append, (leftOver_eq_nil_iff hbefore).mpr hwhole, hquiet, List.append_nil]
    exact emitted_of_whole hbefore hwhole
  constructor
  · intro h
    obtain ⟨hspells, hemitted⟩ := h
    have hts := zero_not_mem_of_cutBack hemitted
    refine ⟨hts, ?_, ?_⟩
    · intro before t after heq hwhole ht
      subst ht
      exact hspells ((spells_iff hts).mpr ⟨before, after, heq, hwhole⟩)
    · intro before after heq hwhole hlast
      subst heq
      rw [split hts hwhole hlast, List.flatten_append] at hemitted
      exact (cutBack_append_iff hwhole).mp hemitted.symm
  · intro h
    obtain ⟨hts, hspells, hlast⟩ := h
    constructor
    · intro hspelled
      obtain ⟨before, after, heq, hwhole⟩ := (spells_iff hts).mp hspelled
      exact hspells before eog after heq hwhole rfl
    · obtain ⟨before, after, rfl, hwhole, hafter⟩ := exists_last_whole ts
      rw [split hts hwhole hafter, List.flatten_append]
      exact ((cutBack_append_iff hwhole).mpr (hlast before after rfl hwhole hafter)).symm

/-- Left over bytes that become valid come first, where the text begins with the rest of a character. -/
theorem not_cutBack_of_valid (hcache : ¬isValidUtf8 cache) (hts : ∀ t ∈ ts, 0 ∉ t) (hus : us <+: ts)
    (hvalid : isValidUtf8 (cache ++ us.flatten)) : emitted cache ts ≠ cutBack ts.flatten := by
  intro hemitted
  have hnul : 0 ∉ cache := by
    intro hzero
    rw [isValidUtf8_iff, cstr_append_of_mem hzero, ← isValidUtf8_iff] at hvalid
    exact hcache hvalid
  obtain ⟨vs, rfl⟩ := hus
  have hususnul : ∀ t ∈ us, 0 ∉ t := fun t hmem ↦ hts t (List.mem_append_left _ hmem)
  have hunul : 0 ∉ us.flatten := by
    intro hmem
    obtain ⟨t, ht, hzero⟩ := List.mem_flatten.mp hmem
    exact hususnul t ht hzero
  rw [isValidUtf8_iff, cstr_append_of_not_mem hnul, cstr_of_not_mem hunul] at hvalid
  rw [isValidUtf8_iff, cstr_of_not_mem hnul] at hcache
  obtain ⟨heq, hleftnul, hwhole⟩ := emitted_append_leftOver hususnul hnul
  have hleft : leftOver cache us = [] := by
    have hinv : cache = [] ∨ ¬isValidUtf8 cache := by
      rw [isValidUtf8_iff, cstr_of_not_mem hnul]
      exact .inr hcache
    refine (leftOver_nil_or_invalid hinv us).resolve_right fun hinvalid ↦ hinvalid ?_
    rw [isValidUtf8_iff, cstr_of_not_mem hleftnul]
    rw [← heq, hwhole.append] at hvalid
    exact hvalid
  rw [hleft, List.append_nil] at heq
  have hprefix : cache ++ us.flatten <+: us.flatten ++ vs.flatten := by
    have hcut := cutBack_isPrefixOf (us ++ vs).flatten
    rw [← hemitted, emitted_append, heq, List.flatten_append] at hcut
    exact (List.prefix_append _ _).trans hcut
  cases cache with
  | nil => exact hcache whole_nil
  | cons a as =>
    cases hu : us.flatten with
    | nil =>
      rw [hu, List.append_nil] at hvalid
      exact hcache hvalid
    | cons b bs =>
      rw [hu] at hvalid hprefix
      exact hvalid.head_ne hcache (List.cons_prefix_cons.mp hprefix).1

/-- Left over bytes spoil every text that makes them valid. -/
theorem exact_iff_withheld (hcache : ¬isValidUtf8 cache) (ts : List Bytes) :
    (¬Spells cache ts ∧ emitted cache ts = cutBack ts.flatten) ↔ Withheld cache ts := by
  constructor
  · intro h
    obtain ⟨-, hemitted⟩ := h
    have hts := zero_not_mem_of_cutBack hemitted
    have hnever : ∀ part, part <+: ts → ¬isValidUtf8 (cache ++ part.flatten) :=
      fun part hpart hvalid ↦ not_cutBack_of_valid hcache hts hpart hvalid hemitted
    refine ⟨hnever, ?_⟩
    rw [← hemitted]
    exact (emitted_of_invalid fun part hpart _ ↦ hnever part hpart).1
  · intro h
    obtain ⟨hnever, hcut⟩ := h
    have hpair : emitted cache ts = [] ∧ ¬Spells cache ts := emitted_of_invalid fun part hpart _ ↦ hnever part hpart
    obtain ⟨hemitted, hspells⟩ := hpair
    exact ⟨hspells, by rw [hemitted, hcut]⟩

/-! The loop -/

variable {L}

theorem accept_stream {s : State Token} {token : Token} (h : ¬L.isEog token) :
    ((accept L token s).1, (accept L token s).2.cacheResponseTokens) =
      if isValidUtf8 (s.cacheResponseTokens ++ L.piece token) then
        (s.cacheResponseTokens ++ L.piece token, [])
      else ([], s.cacheResponseTokens ++ L.piece token) := by
  rw [accept_of_not_eog h]
  split <;> rfl

theorem heard_cons_eog {token : Token} (h : L.isEog token) (pieces : List Bytes) (ending : Ending) :
    heard L ⟨pieces, [token], ending⟩ = [] := by
  simp [heard, h]

theorem heard_cons {token : Token} (h : ¬L.isEog token) (r : Reply Token) (piece : Bytes) :
    heard L ⟨piece :: r.pieces, token :: r.sampled, r.ending⟩ = L.piece token :: heard L r := by
  simp [heard, h]

variable (L) in
/-- What the loop hands out and how it ends, by the texts of the tokens. -/
structure Streams (cache : Bytes) (r : Reply Token) : Prop where
  text : ¬Spells cache (heard L r) → r.text = emitted cache (heard L r)
  spelled : Spells cache (heard L r) → r.ending = .finished ∧ ∀ token ∈ r.sampled, ¬L.isEog token
  ended : (∃ token ∈ r.sampled, L.isEog token) → r.ending = .finished
  finished : r.ending = .finished → (∃ token ∈ r.sampled, L.isEog token) ∨ Spells cache (heard L r)

theorem Streams.exact_iff {r : Reply Token} (h : Streams L cache r) :
    Exact L r ↔ ¬Spells cache (heard L r) ∧ emitted cache (heard L r) = cutBack (heard L r).flatten := by
  constructor
  · intro hexact
    obtain ⟨htext, hending⟩ := hexact
    have hspells : ¬Spells cache (heard L r) := by
      intro hspells
      obtain ⟨hfinished, hnone⟩ := h.spelled hspells
      obtain ⟨token, hmem, heog⟩ := hending.mp hfinished
      exact hnone token hmem heog
    exact ⟨hspells, (h.text hspells).symm.trans htext⟩
  · intro hstream
    obtain ⟨hspells, hemitted⟩ := hstream
    refine ⟨(h.text hspells).trans hemitted, fun hfinished ↦ ?_, h.ended⟩
    exact (h.finished hfinished).resolve_right hspells

/-- A token before the others, with the piece that is handed out for it and the cache that it leaves. -/
theorem Streams.cons {token : Token} {piece cache' : Bytes} {r : Reply Token} (heog : ¬L.isEog token)
    (hspells : Spells cache (L.piece token :: heard L r) ↔ Spells cache' (heard L r))
    (hemitted : emitted cache (L.piece token :: heard L r) = piece ++ emitted cache' (heard L r))
    (h : Streams L cache' r) : Streams L cache ⟨piece :: r.pieces, token :: r.sampled, r.ending⟩ := by
  have hended : (∃ t ∈ token :: r.sampled, L.isEog t) ↔ ∃ t ∈ r.sampled, L.isEog t := by simp [heog]
  refine ⟨fun hnot ↦ ?_, fun hs ↦ ?_, fun he ↦ h.ended (hended.mp he), fun hf ↦ ?_⟩
  · rw [heard_cons heog, hspells] at hnot
    rw [heard_cons heog, hemitted, ← h.text hnot]
    rfl
  · rw [heard_cons heog, hspells] at hs
    obtain ⟨hfinished, hnone⟩ := h.spelled hs
    exact ⟨hfinished, List.forall_mem_cons.mpr ⟨heog, hnone⟩⟩
  · rw [heard_cons heog, hspells, hended]
    exact h.finished hf

theorem generate_streams (draws : List (Draw Token)) (s : State Token) :
    Streams L s.cacheResponseTokens (generate L draws s).1 := by
  refine generate_induction (P := fun s out ↦ Streams L s.cacheResponseTokens out.1) ?_ ?_ ?_ ?_ ?_ draws s
  · intro s
    exact ⟨fun _ ↦ rfl, False.elim, by simp, by simp⟩
  · intro s e
    exact ⟨fun _ ↦ rfl, False.elim, by simp, by simp⟩
  · intro s token heog
    have hheard := heard_cons_eog heog [] .finished
    refine ⟨fun _ ↦ ?_, fun hspells ↦ ?_, fun _ ↦ rfl, fun _ ↦ .inl ⟨token, by simp, heog⟩⟩
    · rw [hheard]
      rfl
    · rw [hheard] at hspells
      exact hspells.elim
  · intro s token heog hpiece
    have hheard : heard L ⟨[], [token], .finished⟩ = [L.piece token] := by simp [heard, heog]
    have hspells : Spells s.cacheResponseTokens [L.piece token] := by
      have haccept := accept_stream (s := checked s) heog
      by_cases hvalid : isValidUtf8 (s.cacheResponseTokens ++ L.piece token)
      · obtain ⟨hp, -⟩ := Prod.mk.inj (haccept.trans (if_pos hvalid))
        rw [hp] at hpiece
        exact (spells_cons_valid hvalid).mpr (.inl hpiece)
      · obtain ⟨hp, -⟩ := Prod.mk.inj (haccept.trans (if_neg hvalid))
        rw [hp] at hpiece
        exact absurd hpiece (by decide)
    rw [← hheard] at hspells
    exact ⟨fun hnot ↦ absurd hspells hnot, fun _ ↦ ⟨rfl, by simpa using heog⟩, fun _ ↦ rfl, fun _ ↦ .inr hspells⟩
  · intro s token r s' heog hpiece ih
    have haccept := accept_stream (s := checked s) heog
    by_cases hvalid : isValidUtf8 (s.cacheResponseTokens ++ L.piece token)
    · obtain ⟨hp, hc⟩ := Prod.mk.inj (haccept.trans (if_pos hvalid))
      rw [hp] at hpiece ⊢
      rw [hc] at ih
      have hspells : Spells s.cacheResponseTokens (L.piece token :: heard L r) ↔ Spells [] (heard L r) :=
        (spells_cons_valid hvalid).trans (or_iff_right hpiece)
      exact ih.cons heog hspells (emitted_cons_valid hvalid)
    · obtain ⟨hp, hc⟩ := Prod.mk.inj (haccept.trans (if_neg hvalid))
      rw [hp] at hpiece ⊢
      rw [hc] at ih
      exact ih.cons heog (spells_cons_invalid hvalid) (emitted_cons_invalid hvalid)

/-! The turns -/

/-- Only incomplete bytes outlive a call. -/
def Pending (s : State Token) : Prop := s.cacheResponseTokens = [] ∨ ¬isValidUtf8 s.cacheResponseTokens

theorem accept_pending {s : State Token} (h : Pending s) (token : Token) :
    Pending (accept L token s).2 := by
  by_cases heog : L.isEog token
  · rw [accept_eog heog]
    exact h
  · have haccept := accept_stream (s := s) heog
    rw [Pending]
    split at haccept
    · obtain ⟨-, hc⟩ := Prod.mk.inj haccept
      exact .inl hc
    · rename_i hinvalid
      obtain ⟨-, hc⟩ := Prod.mk.inj haccept
      exact .inr (hc ▸ hinvalid)

theorem generate_pending (draws : List (Draw Token)) (s : State Token) (h : Pending s) :
    Pending (generate L draws s).2 := by
  revert h
  refine generate_induction (P := fun s out ↦ Pending s → Pending out.2) ?_ ?_ ?_ ?_ ?_ draws s
  · exact fun s ↦ id
  · exact fun s e ↦ id
  · intro s token _ h
    rw [Pending, stopCompletion_eq]
    exact accept_pending (s := checked s) h token
  · intro s token _ _ h
    rw [Pending, stopCompletion_eq]
    exact accept_pending (s := checked s) h token
  · intro s token r s' _ _ ih h
    exact ih (accept_pending (s := checked s) h token)

theorem getResponse_streams (query : Bytes) (draws : List (Draw Token)) (s : State Token) :
    Streams L s.cacheResponseTokens (getResponse L query draws s).1 := by
  rcases getResponse_cases (L := L) query draws s with ⟨e, heq⟩ | ⟨-, heq⟩
  · rw [heq]
    exact ⟨fun _ ↦ rfl, False.elim, by simp, by simp⟩
  · rw [heq, ← (startCompletion_started L query s).cacheResponseTokens]
    exact generate_streams draws _

theorem getResponse_pending (query : Bytes) (draws : List (Draw Token)) {s : State Token} (h : Pending s) :
    Pending (getResponse L query draws s).2 := by
  have hstart : Pending (startCompletion L query s).2 := by
    rw [Pending, (startCompletion_started L query s).cacheResponseTokens]
    exact h
  rcases getResponse_cases (L := L) query draws s with ⟨e, heq⟩ | ⟨-, heq⟩
  · rw [heq]
    exact hstart
  · rw [heq]
    exact generate_pending draws _ hstart

theorem run_pending (uses : List (Use Token)) {s : State Token} (h : Pending s) : Pending (run L uses s) := by
  induction uses generalizing s with
  | nil => exact h
  | cons u uses ih =>
    cases u with
    | add message role => exact ih h
    | turn query draws => exact ih (getResponse_pending query draws h)

variable (L)

end Aigentik.ResponseStream
