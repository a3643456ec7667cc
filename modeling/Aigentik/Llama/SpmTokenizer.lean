import Aigentik.Llama.Symbols
import Aigentik.Llama.Vocab
import Mathlib.Data.Prod.Lex

/-! The tokenizer of vocabularies with scores, which merges neighbours in the order of the scores. -/

namespace Aigentik.Llama.Spm

open Utf8 Collections Segment Vocab

/-- An `llm_bigram_spm`. -/
structure Bigram (Score : Type) where
  left : ℕ
  right : ℕ
  score : Score
  size : ℕ

variable {Score : Type}

def Below [LinearOrder Score] (l r : Bigram Score) : Prop := l.score < r.score ∨ l.score = r.score ∧ r.left < l.left

theorem below_iff [LinearOrder Score] (l r : Bigram Score) : Below l r ↔
    toLex (OrderDual.toDual r.score, r.left) < toLex (OrderDual.toDual l.score, l.left) := by
  rw [Prod.Lex.toLex_lt_toLex, OrderDual.toDual_lt_toDual, OrderDual.toDual_inj, eq_comm, Below]

/-- The work queue as a list in the order of its pops. -/
def workQueue [LinearOrder Score] : PriorityQueue (Bigram Score) Below :=
  (sortedList fun b : Bigram Score ↦ toLex (OrderDual.toDual b.score, b.left)).congr below_iff

section Rules

variable (v : Vocab Score) (text : Bytes)

/-- The candidate that `try_add_bigram` pushes. -/
def bigram (s : List Symbol) (left right : ℕ) : Option (Bigram Score) :=
  let size := (get s left).size + (get s right).size
  match v.textToToken (slice text (get s left).start size) with
  | none => none
  | some token => v.idToToken[token]?.map fun data ↦ ⟨left, right, data.score, size⟩

/-- The notes are `rev_merge`. -/
def rules : MergeRules (Bigram Score) (Bytes → Option (ℕ × ℕ)) where
  left := Bigram.left
  right := Bigram.right
  fresh s c := (get s c.left).size + (get s c.right).size = c.size
  find := bigram v text
  note s c revMerge := Function.update revMerge (slice text (get s c.left).start c.size) (some (c.left, c.right))

variable {v text}

abbrev Known (v : Vocab Score) (part : Bytes) : Prop := (v.textToToken part).isSome

theorem bigram_eq_some {s : List Symbol} {l r : ℕ} {c : Bigram Score} (h : bigram v text s l r = some c) :
    c.left = l ∧ c.right = r ∧ c.size = (get s l).size + (get s r).size ∧
      Known v (slice text (get s l).start c.size) := by
  unfold bigram at h
  dsimp only at h
  split at h
  · cases h
  · rename_i token htoken
    obtain ⟨data, -, rfl⟩ := Option.map_eq_some_iff.mp h
    exact ⟨rfl, rfl, rfl, by rw [Known, htoken]; rfl⟩

theorem rules_sound : Merging.Sound (rules v text) (Grouped (chars text) (Known v)) where
  ends s l r c h := ⟨(bigram_eq_some h).1, (bigram_eq_some h).2.1⟩
  good s s' l r c hstart hfind hfresh hnext hl hr := by
    rw [hnext] at hr
    obtain ⟨rfl, rfl, -, hknown⟩ := bigram_eq_some hfind
    have hsize : (get s' c.left).size + (get s' c.right).size = c.size := of_decide_eq_true hfresh
    refine hl.append (chars_ne_nil text) hr ?_
    rwa [chars_flatten, hsize, hstart]

end Rules

/-- One token, or one for each byte. -/
def encode (v : Vocab Score) (part : Bytes) : Option (List ℕ) :=
  match v.textToToken part with
  | some token => some [token]
  | none => part.mapM v.byteToToken

/-! The text that tokens spell -/

section Spells

variable {v : Vocab Score} {text : Bytes}

/-- Tokens that spell a text in order, each with its own text or as a single byte. -/
inductive Spells (v : Vocab Score) : List ℕ → Bytes → Prop
  | nil : Spells v [] []
  | token {token : ℕ} {tokens : List ℕ} {part rest : Bytes} (htoken : v.textToToken part = some token)
      (hpart : part ≠ []) (h : Spells v tokens rest) : Spells v (token :: tokens) (part ++ rest)
  | byte {token : ℕ} {tokens : List ℕ} {ch : UInt8} {rest : Bytes} (htoken : v.byteToToken ch = some token)
      (h : Spells v tokens rest) : Spells v (token :: tokens) (ch :: rest)

theorem Spells.append {ts ts' : List ℕ} {part rest : Bytes} (h : Spells v ts part) (h' : Spells v ts' rest) :
    Spells v (ts ++ ts') (part ++ rest) := by
  induction h with
  | nil => exact h'
  | token htoken hpart h ih =>
    rw [List.append_assoc]
    exact .token htoken hpart ih
  | byte htoken h ih => exact .byte htoken ih

theorem Spells.length_le {tokens : List ℕ} (h : Spells v tokens text) : tokens.length ≤ text.length := by
  induction h with
  | nil => exact le_rfl
  | token htoken hpart h ih =>
    have hpos := List.length_pos_iff.mpr hpart
    rw [List.length_cons, List.length_append]
    omega
  | byte htoken h ih => exact Nat.succ_le_succ ih

theorem spells_bytes {part : Bytes} {tokens : List ℕ} (h : part.mapM v.byteToToken = some tokens) :
    Spells v tokens part := by
  induction part generalizing tokens with
  | nil =>
    cases h
    exact .nil
  | cons ch part ih =>
    rw [List.mapM_cons] at h
    obtain ⟨token, htoken, hrest⟩ := Option.bind_eq_some_iff.mp h
    obtain ⟨rest, hmap, heq⟩ := Option.bind_eq_some_iff.mp hrest
    cases heq
    exact .byte htoken (ih hmap)

theorem spells_encode {part : Bytes} {tokens : List ℕ} (hpart : part ≠ []) (h : encode v part = some tokens) :
    Spells v tokens part := by
  unfold encode at h
  split at h
  · rename_i token htoken
    cases h
    have hone : Spells v [token] (part ++ []) := .token htoken hpart .nil
    rwa [List.append_nil] at hone
  · exact spells_bytes h

theorem isSome_mapM {α β : Type} {f : α → Option β} {l : List α} (h : ∀ a ∈ l, (f a).isSome) :
    (l.mapM f).isSome := by
  induction l with
  | nil => rfl
  | cons a l ih =>
    obtain ⟨ha, hl⟩ := List.forall_mem_cons.mp h
    obtain ⟨b, hb⟩ := Option.isSome_iff_exists.mp ha
    obtain ⟨bs, hbs⟩ := Option.isSome_iff_exists.mp (ih hl)
    rw [List.mapM_cons, hb, hbs]
    rfl

theorem spells_groups {groups : List (List Bytes)} {parts : List (List ℕ)} (hne : ∀ g ∈ groups, g.flatten ≠ [])
    (h : (groups.mapM fun g ↦ encode v g.flatten) = some parts) : Spells v parts.flatten groups.flatten.flatten := by
  induction groups generalizing parts with
  | nil =>
    cases h
    exact .nil
  | cons g groups ih =>
    rw [List.mapM_cons] at h
    obtain ⟨first, hfirst, hrest⟩ := Option.bind_eq_some_iff.mp h
    obtain ⟨rest, hmap, heq⟩ := Option.bind_eq_some_iff.mp hrest
    cases heq
    rw [List.flatten_cons, List.flatten_cons, List.flatten_append]
    refine (spells_encode (hne g List.mem_cons_self) hfirst).append ?_
    exact ih (fun g hg ↦ hne g (List.mem_cons_of_mem _ hg)) hmap

end Spells

variable [LinearOrder Score] (v : Vocab Score) (Q : PriorityQueue (Bigram Score) Below) (text : Bytes)

/-- The work queue begins with all pairs of neighbouring characters. -/
def merged : Merging Q (Bytes → Option (ℕ × ℕ)) :=
  .exhaust (rules v text) (.seed (rules v text) (symbols text) fun _ ↦ none)

/-- The recursion has a bound here. -/
def resegment (s : List Symbol) (revMerge : Bytes → Option (ℕ × ℕ)) : ℕ → Symbol → Option (List ℕ)
  | 0, _ => none
  | n + 1, symbol =>
    let part := slice text symbol.start symbol.size
    match v.textToToken part with
    | some token => some [token]
    | none =>
      match revMerge part with
      | none => part.mapM v.byteToToken
      | some (left, right) => do
        let first ← resegment s revMerge n (get s left)
        let second ← resegment s revMerge n (get s right)
        return first ++ second

/-- The tokens of a text that is not empty, or the exception of a byte without a token. -/
def tokenize : Option (List ℕ) := do
  let m := merged v Q text
  let ids ← walk m.segments m.segments.length (some 0)
  let parts ← ids.mapM fun i ↦ resegment v text m.segments m.notes m.segments.length (get m.segments i)
  return parts.flatten

variable {v Q text}

theorem merged_inv (htext : text ≠ []) :
    (merged v Q text).Inv (rules v text) (Grouped (chars text) (Known v)) (some 0) text.length := by
  have hsum : ((chars text).map List.length).sum = text.length := by
    rw [← List.length_flatten, chars_flatten]
  have hpos : ∀ n ∈ (chars text).map List.length, 0 < n := by
    simpa [List.length_pos_iff] using chars_ne_nil text
  have hhead : (List.range ((chars text).map List.length).length).head? = some 0 := by
    rw [List.length_map]
    cases hchars : chars text with
    | nil => exact absurd (chars_eq_nil.mp hchars) htext
    | cons c cs => rw [List.length_cons, List.range_succ_eq_map, List.head?_cons]
  have hseed := Merging.seed_inv (Q := Q) rules_sound hpos (fun i hi ↦ grouped_cut (Known v) hi) fun _ ↦ none
  rw [hhead, hsum, ← symbols_eq] at hseed
  exact hseed.exhaust rules_sound

/-- Only texts of tokens are ever noted. -/
theorem merged_notes {part : Bytes} {pair : ℕ × ℕ} (h : (merged v Q text).notes part = some pair) : Known v part := by
  refine Merging.notes_invariant (R := rules v text) (Q := Q)
    (N := fun revMerge ↦ ∀ part pair, revMerge part = some pair → Known v part) ?_ (symbols text) ?_ part pair h
  · intro s l r c revMerge hfind hkeep part pair hpart
    obtain ⟨rfl, -, -, hknown⟩ := bigram_eq_some hfind
    dsimp only [rules] at hpart
    by_cases heq : part = slice text (get s c.left).start c.size
    · rwa [heq]
    · rw [Function.update_of_ne heq] at hpart
      exact hkeep part pair hpart
  · intro part pair hpart
    cases hpart

/-- What is no token was never merged, so that the recursion ends at once. -/
theorem resegment_eq {s : List Symbol} (n : ℕ) (symbol : Symbol) :
    resegment v text s (merged v Q text).notes (n + 1) symbol = encode v (slice text symbol.start symbol.size) := by
  unfold resegment encode
  dsimp only
  cases htoken : v.textToToken (slice text symbol.start symbol.size) with
  | some token => rfl
  | none =>
    cases hnote : (merged v Q text).notes (slice text symbol.start symbol.size) with
    | none => rfl
    | some pair =>
      have hknown := merged_notes hnote
      rw [Known, htoken] at hknown
      cases hknown

/-- The text is cut into runs of its characters. A run of several characters is a token, a character
without a token becomes the tokens of its bytes. -/
theorem tokenize_groups (htext : text ≠ []) : ∃ groups : List (List Bytes), groups.flatten = chars text ∧
    (∀ g ∈ groups, g.length = 1 ∨ g ≠ [] ∧ Known v g.flatten) ∧
    tokenize v Q text = (groups.mapM fun g ↦ encode v g.flatten).map List.flatten := by
  obtain ⟨⟨ids, hchain, hhead⟩, -, -, hgood⟩ := merged_inv (v := v) (Q := Q) htext
  have hlinked : Linked (merged v Q text).segments none ([] : List Bytes).flatten.length ids
      (chars text).flatten.length := by
    rw [chars_flatten]
    exact hchain.linked
  obtain ⟨groups, hflat, hknown, hmap⟩ := linked_groups (chars_ne_nil text) rfl hlinked
    fun i hi ↦ hgood i (hchain.linked.size_pos hi).ne'
  rw [chars_flatten] at hmap
  refine ⟨groups, hflat, hknown, ?_⟩
  have hwalk := hchain.linked.walk hchain.length_le
  rw [hhead] at hwalk
  obtain ⟨n, hn⟩ : ∃ n, (merged v Q text).segments.length = n + 1 := by
    refine Nat.exists_eq_add_one.mpr ((Nat.zero_le 0).trans_lt (lt_length (hchain.linked.size_pos ?_)))
    exact List.mem_of_mem_head? hhead
  have hparts : (ids.mapM fun i ↦ resegment v text (merged v Q text).segments (merged v Q text).notes
      (merged v Q text).segments.length (get (merged v Q text).segments i)) =
        groups.mapM fun g ↦ encode v g.flatten := by
    have hencode := congrArg (List.mapM (encode v)) hmap
    rw [List.mapM_map, List.mapM_map] at hencode
    simp only [hn, resegment_eq]
    exact hencode
  unfold tokenize
  simp only [hwalk, Option.bind_eq_bind, Option.bind_some, hparts]
  cases groups.mapM fun g ↦ encode v g.flatten <;> rfl

/-- Nothing is lost, doubled or moved, and a text whose bytes all have tokens is never refused. -/
theorem tokenize_spells (v : Vocab Score) (Q : PriorityQueue (Bigram Score) Below) (text : Bytes) (htext : text ≠ []) :
    (∀ tokens, tokenize v Q text = some tokens → Spells v tokens text ∧ tokens.length ≤ text.length) ∧
      ((∀ ch ∈ text, (v.byteToToken ch).isSome) → (tokenize v Q text).isSome) := by
  obtain ⟨groups, hflat, hone, heq⟩ := tokenize_groups (v := v) (Q := Q) htext
  have hsub : ∀ g ∈ groups, ∀ c ∈ g, c ∈ chars text := by
    intro g hg c hc
    rw [← hflat]
    exact List.mem_flatten_of_mem hg hc
  have hne : ∀ g ∈ groups, g.flatten ≠ [] := by
    intro g hg
    have hg' : g ≠ [] := by
      rcases hone g hg with hlen | ⟨hg', -⟩
      · exact List.length_pos_iff.mp (hlen ▸ Nat.one_pos)
      · exact hg'
    refine List.length_pos_iff.mp (flatten_length_pos (fun c hc ↦ ?_) hg')
    exact chars_ne_nil text c (hsub g hg c hc)
  refine ⟨fun tokens htokens ↦ ?_, fun hbytes ↦ ?_⟩
  · rw [heq] at htokens
    obtain ⟨parts, hparts, rfl⟩ := Option.map_eq_some_iff.mp htokens
    have hspells := spells_groups hne hparts
    rw [hflat, chars_flatten] at hspells
    exact ⟨hspells, hspells.length_le⟩
  · rw [heq, Option.isSome_map]
    refine isSome_mapM fun g hg ↦ ?_
    unfold encode
    split
    · rfl
    · refine isSome_mapM fun ch hch ↦ hbytes ch ?_
      rw [← chars_flatten text]
      obtain ⟨c, hc, hch⟩ := List.mem_flatten.mp hch
      exact List.mem_flatten_of_mem (hsub g hg c hc) hch

end Aigentik.Llama.Spm
