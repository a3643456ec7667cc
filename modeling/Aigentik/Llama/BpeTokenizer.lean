import Aigentik.Llama.Rendering
import Aigentik.Llama.Unicode

/-! The tokenizer of vocabularies with ranked merges, whose texts spell bytes as characters. -/

namespace Aigentik.Llama.Bpe

open Utf8 Collections Segment Strings LLMInference

structure Vocab (Score : Type) extends Llama.Vocab Score where
  bpeRanks : Bytes → Bytes → Option ℕ
  ignoreMerges : Bool

/-- An `llm_bigram_bpe`. -/
structure Bigram where
  left : ℕ
  right : ℕ
  text : Bytes
  rank : ℕ
  size : ℕ

def Below (l r : Bigram) : Prop := l.rank > r.rank ∨ l.rank = r.rank ∧ l.left > r.left

theorem below_iff (l r : Bigram) : Below l r ↔ toLex (r.rank, r.left) < toLex (l.rank, l.left) := by
  rw [Prod.Lex.toLex_lt_toLex, Below, eq_comm]

def workQueue : PriorityQueue Bigram Below :=
  (sortedList fun b : Bigram ↦ toLex (b.rank, b.left)).congr below_iff

variable {Score : Type} (v : Vocab Score)

section Word

variable (Q : PriorityQueue Bigram Below) (word : Bytes)

def symbolText (s : List Symbol) (i : ℕ) : Bytes := slice word (get s i).start (get s i).size

/-- The candidate that `add_new_bigram` pushes. -/
def bigram (s : List Symbol) (left right : ℕ) : Option Bigram :=
  let leftToken := symbolText word s left
  let rightToken := symbolText word s right
  (v.bpeRanks leftToken rightToken).map fun rank ↦
    ⟨left, right, leftToken ++ rightToken, rank, leftToken.length + rightToken.length⟩

def rules : MergeRules Bigram Unit where
  left := Bigram.left
  right := Bigram.right
  fresh s c := symbolText word s c.left ++ symbolText word s c.right = c.text
  find := bigram v word
  note _ _ notes := notes

/-- A word that is a token is one symbol where the vocabulary ignores merges. -/
def wordSymbols : List Symbol :=
  if v.ignoreMerges && (v.textToToken word).isSome then [⟨none, none, 0, word.length⟩] else symbols word

def merged : Merging Q Unit := .exhaust (rules v word) (.seed (rules v word) (wordSymbols v word) ())

/-- The symbols that are left of a word, in their order. -/
def symbolsFinal : List Bytes :=
  ((merged v Q word).segments.filter (·.size > 0)).map fun sym ↦ slice word sym.start sym.size

end Word

/-- A symbol without a token becomes the tokens of those of its bytes that have one. -/
def encode (str : Bytes) : List ℕ :=
  match v.textToToken str with
  | some token => [token]
  | none => str.filterMap fun ch ↦ v.textToToken [ch]

def tokenize (Q : PriorityQueue Bigram Below) (patterns : List Pattern) (text : Bytes) : Option (List ℕ) :=
  (unicodeRegexSplit patterns text).map fun words ↦ (words.flatMap (symbolsFinal v Q)).flatMap (encode v)

def tokenToPiece (token : ℕ) : Bytes :=
  match v.idToToken[token]? with
  | none => []
  | some data =>
    if data.attr.special then data.text
    else if data.attr.normal then (llamaDecodeText data.text).getD []
    else []

variable {v} {Q : PriorityQueue Bigram Below} {word : Bytes}

/-! The symbols of a word -/

/-- The texts that merging makes. -/
def Joined (v : Vocab Score) (part : Bytes) : Prop :=
  (v.textToToken part).isSome ∨ ∃ left right, part = left ++ right ∧ (v.bpeRanks left right).isSome

theorem rules_sound : Merging.Sound (rules v word) (Grouped (chars word) (Joined v)) where
  ends s l r c h := by
    obtain ⟨rank, -, rfl⟩ := Option.map_eq_some_iff.mp h
    exact ⟨rfl, rfl⟩
  good s s' l r c hstart hfind hfresh hnext hl hr := by
    obtain ⟨rank, hrank, rfl⟩ := Option.map_eq_some_iff.mp hfind
    have htext := of_decide_eq_true hfresh
    dsimp only [symbolText] at htext
    rw [hnext] at hr htext
    refine hl.append (chars_ne_nil word) hr (.inr ⟨_, _, ?_, Option.isSome_of_mem hrank⟩)
    rw [chars_flatten, slice, List.take_add, List.drop_drop]
    exact htext

theorem merged_of_one (symbol : Symbol) (h : wordSymbols v word = [symbol]) :
    (merged v Q word).segments = [symbol] := by
  have hseed : Merging.seed (rules v word) (wordSymbols v word) () = (⟨[symbol], Q.empty, ()⟩ : Merging Q Unit) := by
    rw [h]
    rfl
  have hstep : Merging.step (rules v word) (⟨[symbol], Q.empty, ()⟩ : Merging Q Unit) = none := by
    unfold Merging.step
    dsimp only
    rw [Q.pop_empty]
  rw [merged, hseed, Merging.exhaust_none hstep]

/-- A word is cut into runs of its characters, each of them one character or a text that merging makes. -/
theorem symbolsFinal_groups (v : Vocab Score) (Q : PriorityQueue Bigram Below) (word : Bytes) :
    ∃ groups : List (List Bytes), groups.flatten = chars word ∧
      (∀ g ∈ groups, g.length = 1 ∨ g ≠ [] ∧ Joined v g.flatten) ∧
      symbolsFinal v Q word = groups.map List.flatten := by
  by_cases hone : (v.ignoreMerges && (v.textToToken word).isSome) = true
  · have hknown : (v.textToToken word).isSome := (Bool.and_eq_true_iff.mp hone).2
    have hword : word ≠ [] := by
      obtain ⟨token, htoken⟩ := Option.isSome_iff_exists.mp hknown
      obtain ⟨data, hid, htext⟩ := textToToken_eq_some htoken
      exact htext ▸ v.text_ne data (List.mem_of_getElem? hid)
    refine ⟨[chars word], List.flatten_singleton, ?_, ?_⟩
    · rw [List.forall_mem_singleton, chars_flatten]
      exact .inr ⟨fun hnil ↦ hword (chars_eq_nil.mp hnil), .inl hknown⟩
    · have hfilter : ([⟨none, none, 0, word.length⟩] : List Symbol).filter (·.size > 0) = [⟨none, none, 0, word.length⟩] :=
        List.filter_eq_self.mpr (List.forall_mem_singleton.mpr (decide_eq_true (List.length_pos_iff.mpr hword)))
      rw [symbolsFinal, merged_of_one _ (if_pos hone), hfilter, List.map_singleton, List.map_singleton, chars_flatten,
        slice, List.drop_zero, List.take_length]
  · have hpos : ∀ n ∈ (chars word).map List.length, 0 < n := by
      simpa [List.length_pos_iff] using chars_ne_nil word
    have hsum : ((chars word).map List.length).sum = (chars word).flatten.length := List.length_flatten.symm
    have hseed := Merging.seed_inv (Q := Q) (rules_sound (v := v)) hpos (fun i hi ↦ grouped_cut _ hi) ()
    have hinv := hseed.exhaust rules_sound
    have hsymbols : wordSymbols v word = cut ((chars word).map List.length) := (if_neg hone).trans (symbols_eq word)
    rw [← hsymbols, hsum] at hinv
    obtain ⟨⟨ids, hchain, -⟩, -, -, hgood⟩ := hinv
    have hlinked : Linked (merged v Q word).segments none ([] : List Bytes).flatten.length ids
        (chars word).flatten.length := hchain.linked
    obtain ⟨groups, hflat, hjoined, hmap⟩ := linked_groups (chars_ne_nil word) rfl hlinked
      fun i hi ↦ hgood i (hlinked.size_pos hi).ne'
    refine ⟨groups, hflat, hjoined, ?_⟩
    rw [chars_flatten] at hmap
    rw [← hmap, symbolsFinal, merged, hchain.filter_eq, List.map_map]
    rfl

/-! Rendering -/

/-- A vocabulary with a token for every byte and for every merge, whose special tokens are no texts of other bytes, and
which has the tokens that it puts at the ends of a text. -/
structure Renders (v : Vocab Score) : Prop where
  unstripped : Unstripped v.toVocab
  special : ∀ data ∈ v.idToToken, data.attr.special → Whole data.text ∧ ∀ bs, data.text = encodeBytes bs → data.text = bs
  normal : ∀ data ∈ v.idToToken, ¬data.attr.special → data.attr.normal
  byte : ∀ ch, (v.textToToken (unicodeByteToUtf8 ch)).isSome
  merge : ∀ left right, (v.bpeRanks left right).isSome → (v.textToToken (left ++ right)).isSome
  bos : v.addBos → v.specialBosId.isSome
  eos : v.addEos → v.specialEosId.isSome

variable {bs part text : Bytes} {token : ℕ} {data : TokenData Score}

theorem tokenToPiece_special (hid : v.idToToken[token]? = some data) (hspecial : data.attr.special) :
    tokenToPiece v token = data.text := by
  unfold tokenToPiece
  rw [hid]
  exact if_pos hspecial

/-- What stands for bytes is one token, which is rendered as the bytes. -/
theorem Renders.encode (hv : Renders v) (h : (v.textToToken (encodeBytes bs)).isSome) :
    (Bpe.encode v (encodeBytes bs)).flatMap (tokenToPiece v) = bs := by
  obtain ⟨token, htoken⟩ := Option.isSome_iff_exists.mp h
  obtain ⟨data, hid, htext⟩ := textToToken_eq_some htoken
  have hmem := List.mem_of_getElem? hid
  rw [Bpe.encode, htoken]
  dsimp only
  rw [List.flatMap_singleton]
  by_cases hspecial : data.attr.special
  · rw [tokenToPiece_special hid hspecial]
    exact (hv.special data hmem hspecial).2 bs htext
  · unfold tokenToPiece
    rw [hid]
    dsimp only
    rw [if_neg hspecial, if_pos (hv.normal data hmem hspecial), htext, llamaDecodeText_encodeBytes]
    rfl

theorem exists_map_of_flatten {α β : Type} {f : α → β} {l : List α} {groups : List (List β)}
    (h : groups.flatten = l.map f) : ∃ parts : List (List α), groups = parts.map (List.map f) ∧ parts.flatten = l := by
  induction groups generalizing l with
  | nil => exact ⟨[], rfl, (List.map_eq_nil_iff.mp h.symm).symm⟩
  | cons g groups ih =>
    rw [List.flatten_cons] at h
    obtain ⟨l₁, l₂, rfl, rfl, hrest⟩ := List.map_eq_append_iff.mp h.symm
    obtain ⟨parts, rfl, rfl⟩ := ih hrest.symm
    exact ⟨l₁ :: parts, rfl, rfl⟩

theorem Renders.joined (hv : Renders v) (h : Joined v part) : (v.textToToken part).isSome := by
  rcases h with h | ⟨left, right, rfl, hrank⟩
  · exact h
  · exact hv.merge left right hrank

theorem Renders.symbols (hv : Renders v) (bs : Bytes) :
    ((symbolsFinal v Q (encodeBytes bs)).flatMap (Bpe.encode v)).flatMap (tokenToPiece v) = bs := by
  obtain ⟨groups, hflat, hjoined, hfinal⟩ := symbolsFinal_groups v Q (encodeBytes bs)
  obtain ⟨hgroups, heq⟩ := encodeBytes_groups bs
  rw [heq, chars_eq hgroups] at hflat
  obtain ⟨parts, rfl, rfl⟩ := exists_map_of_flatten hflat
  rw [hfinal, List.map_map, List.flatMap_map, List.flatMap_assoc, List.flatMap_def, List.map_congr_left fun part hpart ↦ ?_,
    List.map_id']
  have hknown : (v.textToToken (encodeBytes part)).isSome := by
    rcases hjoined _ (List.mem_map_of_mem hpart) with hone | ⟨-, hjoin⟩
    · rw [List.length_map] at hone
      obtain ⟨ch, rfl⟩ := List.length_eq_one_iff.mp hone
      have hbyte := hv.byte ch
      rwa [encodeBytes, List.flatMap_singleton]
    · exact hv.joined hjoin
  exact hv.encode hknown

/-- The tokens of a text of shortest characters are rendered as the text. -/
theorem Renders.bpe (hv : Renders v) (patterns : List Pattern) (htext : ∀ c ∈ chars text, Exact c) :
    ∃ tokens, Bpe.tokenize v Q patterns text = some tokens ∧ tokens.flatMap (tokenToPiece v) = text := by
  obtain ⟨parts, hparts, hsplit⟩ := unicodeRegexSplit_eq patterns htext
  rw [chars_flatten] at hparts hsplit
  refine ⟨_, by rw [Bpe.tokenize, hsplit, Option.map_some], ?_⟩
  rw [List.flatMap_map, List.flatMap_assoc, List.flatMap_assoc, List.flatMap_def, List.map_congr_left fun part _ ↦ ?_,
    List.map_id', hparts]
  rw [← List.flatMap_assoc]
  exact hv.symbols part

/-! The batch of a completion -/

def tokenizeFragment (v : Vocab Score) (Q : PriorityQueue Bigram Below) (patterns : List Pattern) :
    Fragment → Option (List ℕ)
  | .rawText raw => tokenize v Q patterns raw
  | .token id => some [id]

def tokenizeFragments (v : Vocab Score) (Q : PriorityQueue Bigram Below) (patterns : List Pattern)
    (buffer : List Fragment) : Option (List ℕ) :=
  (buffer.mapM (tokenizeFragment v Q patterns)).map List.flatten

/-- The case of `llama_vocab::impl::tokenize` for this kind of vocabularies. -/
def tokenizeText (v : Vocab Score) (Q : PriorityQueue Bigram Below) (patterns : List Pattern)
    (addSpecial parseSpecial : Bool) (rawText : Bytes) : Option (List ℕ) := do
  let bos ← endToken (addSpecial && v.addBos) v.specialBosId
  let output ← tokenizeFragments v Q patterns (fragments v.toVocab parseSpecial rawText)
  let eos ← endToken (addSpecial && v.addEos) v.specialEosId
  return bos ++ output ++ eos

/-- The fragments that the tokenizer renders: texts of shortest characters, and special tokens. -/
def Shortest (v : Vocab Score) : Fragment → Prop
  | .rawText raw => ∀ c ∈ chars raw, Exact c
  | .token id => ∃ data, v.idToToken[id]? = some data ∧ data.attr.special

theorem whole_of_exact (h : ∀ c ∈ chars text, Exact c) : Whole text := by
  rw [← chars_flatten text]
  exact whole_flatten fun c hc ↦ (h c hc).1

theorem chars_append_of_whole (h : Whole text) (bs : Bytes) : chars (text ++ bs) = chars text ++ chars bs := by
  have hgroup := chars_isGroup h
  conv_lhs => rw [← chars_flatten text]
  generalize chars text = groups at hgroup
  induction groups with
  | nil => rfl
  | cons g groups ih =>
    obtain ⟨hg, hgroups⟩ := List.forall_mem_cons.mp hgroup
    rw [List.flatten_cons, List.append_assoc, chars_append hg, ih hgroups, List.cons_append]

theorem Renders.shortest (hv : Renders v) (htext : ∀ c ∈ chars text, Exact c) (parseSpecial : Bool) :
    ∀ f ∈ fragments v.toVocab parseSpecial text, Shortest v f := by
  refine fragments_forall (fun id hid data hdata ↦ ⟨v.cache_special id hid, ?_⟩) htext
  intro raw left right hraw hsplit
  obtain ⟨data', hdata', hspecial⟩ := v.cache_special id hid
  obtain rfl : data = data' := Option.some.inj (hdata.symm.trans hdata')
  have hmem := List.mem_of_getElem? hdata
  have hwhole := (hv.special data hmem hspecial).1
  have heq := splitAtFirst_eq_some hsplit
  obtain ⟨hleft, hright⟩ := whole_around (heq ▸ whole_of_exact hraw) hwhole (v.text_ne data hmem)
  have hchars : chars raw = chars left ++ (chars data.text ++ chars right) := by
    rw [heq, chars_append_of_whole hleft, chars_append_of_whole hwhole]
  obtain ⟨hlstrip, hrstrip⟩ := hv.unstripped id hid data hdata
  simp only [lstripped, rstripped, hlstrip, hrstrip, Bool.false_eq_true, if_false]
  refine ⟨fun c hc ↦ hraw c ?_, fun c hc ↦ hraw c ?_⟩
  · rw [hchars]
    exact List.mem_append_left _ hc
  · rw [hchars]
    exact List.mem_append_right _ (List.mem_append_right _ hc)

theorem Renders.fragments (hv : Renders v) (patterns : List Pattern) {buffer : List Fragment}
    (h : ∀ f ∈ buffer, Shortest v f) : ∃ tokens, tokenizeFragments v Q patterns buffer = some tokens ∧
      tokens.flatMap (tokenToPiece v) = buffer.flatMap (Fragment.text v.toVocab) := by
  unfold tokenizeFragments
  induction buffer with
  | nil => exact ⟨[], rfl, rfl⟩
  | cons f buffer ih =>
    obtain ⟨hf, hbuffer⟩ := List.forall_mem_cons.mp h
    obtain ⟨rest, hrest, hpieces⟩ := ih hbuffer
    obtain ⟨parts, hparts, rfl⟩ := Option.map_eq_some_iff.mp hrest
    have hfirst : ∃ first, tokenizeFragment v Q patterns f = some first ∧
        first.flatMap (tokenToPiece v) = f.text v.toVocab := by
      cases f with
      | rawText raw => exact hv.bpe patterns hf
      | token id =>
        obtain ⟨data, hid, hspecial⟩ := hf
        refine ⟨[id], rfl, ?_⟩
        rw [List.flatMap_singleton, tokenToPiece_special hid hspecial, Fragment.text, hid]
        rfl
    obtain ⟨first, hfirst, hpiece⟩ := hfirst
    refine ⟨first ++ parts.flatten, ?_, ?_⟩
    · rw [List.mapM_cons, hfirst, hparts]
      rfl
    · rw [List.flatMap_append, hpiece, hpieces, List.flatMap_cons]

theorem Renders.tokenizeText (hv : Renders v) (patterns : List Pattern) (htext : ∀ c ∈ chars text, Exact c)
    (parseSpecial : Bool) : ∃ tokens, Bpe.tokenizeText v Q patterns true parseSpecial text = some tokens ∧
      tokens.flatMap (tokenToPiece v) =
        endText (tokenToPiece v) v.addBos v.specialBosId ++ text ++ endText (tokenToPiece v) v.addEos v.specialEosId := by
  obtain ⟨bos, hbos, hbostext⟩ := endToken_eq (tokenToPiece v) hv.bos
  obtain ⟨output, houtput, houtputtext⟩ := hv.fragments (Q := Q) patterns (hv.shortest htext parseSpecial)
  obtain ⟨eos, heos, heostext⟩ := endToken_eq (tokenToPiece v) hv.eos
  refine ⟨bos ++ output ++ eos, ?_, ?_⟩
  · unfold Bpe.tokenizeText
    simp only [Bool.true_and, hbos, houtput, heos, Option.bind_eq_bind, Option.bind_some, Option.pure_def]
  · rw [List.flatMap_append, List.flatMap_append, hbostext, houtputtext, heostext,
      (fragments_partition hv.unstripped parseSpecial text).text]

section Completion

variable (v) (Q) (patterns : List Pattern) (chatPrompt : List (Str × Bytes) → Except Str Bytes) (isEog : ℕ → Bool)

def llama : LLMInference.Llama ℕ where
  chatPrompt
  tokenize prompt := (tokenizeText v Q patterns true true prompt).getD []
  isEog
  piece := tokenToPiece v

variable {v}

end Completion

/-! A vocabulary with one merge -/

def byteTokens : List (TokenData ℕ) :=
  (List.finRange 256).map fun n ↦ ⟨unicodeByteToUtf8 (UInt8.ofFin n), 0, normalAttr⟩

theorem mem_byteTokens (ch : UInt8) : ⟨unicodeByteToUtf8 ch, 0, normalAttr⟩ ∈ byteTokens :=
  List.mem_map.mpr ⟨ch.toFin, List.mem_finRange _, rfl⟩

theorem length_unicodeByteToUtf8 (ch : UInt8) : (unicodeByteToUtf8 ch).length ≤ 2 :=
  byte_cases (p := fun ch ↦ (unicodeByteToUtf8 ch).length ≤ 2) (by decide +kernel) ch

theorem head_unicodeByteToUtf8 (ch : UInt8) : unicodeByteToUtf8 ch ≠ [0x61, 0x62] :=
  byte_cases (p := fun ch ↦ unicodeByteToUtf8 ch ≠ [0x61, 0x62]) (by decide +kernel) ch

/-- The tokens `<s>`, `ab`, and one for each byte. -/
def mergeVocab : Vocab ℕ where
  idToToken := ⟨[0x3C, 0x73, 0x3E], 0, controlAttr⟩ :: ⟨[0x61, 0x62], 0, normalAttr⟩ :: byteTokens
  text_ne data hdata := by
    rcases List.mem_cons.mp hdata with rfl | hdata
    · exact List.cons_ne_nil _ _
    · rcases List.mem_cons.mp hdata with rfl | hdata
      · exact List.cons_ne_nil _ _
      · obtain ⟨n, -, rfl⟩ := List.mem_map.mp hdata
        intro hnil
        have hgroup := (unicodeByteToUtf8_exact (UInt8.ofFin n)).1.1
        dsimp only at hnil
        rw [hnil] at hgroup
        exact hgroup.elim
  nodup := by
    have hinj : Function.Injective fun n : Fin 256 ↦ unicodeByteToUtf8 (UInt8.ofFin n) := by
      intro n m hnm
      have hbyte := congrArg unicodeUtf8ToByte hnm
      dsimp only at hbyte
      rw [unicodeUtf8ToByte_byteToUtf8, unicodeUtf8ToByte_byteToUtf8] at hbyte
      exact congrArg UInt8.toFin (Option.some.inj hbyte)
    have hbytes : (byteTokens.map (·.text)).Nodup := by
      rw [byteTokens, List.map_map]
      exact (List.nodup_finRange 256).map hinj
    have hlong : [0x3C, 0x73, 0x3E] ∉ byteTokens.map (·.text) := by
      rw [byteTokens, List.map_map]
      intro hmem
      obtain ⟨n, -, hn⟩ := List.mem_map.mp hmem
      exact absurd ((congrArg List.length hn).symm.trans_le (length_unicodeByteToUtf8 _)) (by decide)
    have hmerge : [0x61, 0x62] ∉ byteTokens.map (·.text) := by
      rw [byteTokens, List.map_map]
      intro hmem
      obtain ⟨n, -, hn⟩ := List.mem_map.mp hmem
      exact head_unicodeByteToUtf8 _ hn
    rw [List.map_cons, List.map_cons, List.nodup_cons, List.nodup_cons, List.mem_cons, not_or]
    exact ⟨⟨by decide, hlong⟩, hmerge, hbytes⟩
  cacheSpecialTokens := [0]
  cache_special id hid := by
    rw [List.mem_singleton.mp hid]
    exact ⟨_, rfl, rfl⟩
  addBos := true
  addEos := false
  addSpacePrefix := false
  specialBosId := some 0
  specialEosId := none
  bpeRanks left right := if left = [0x61] ∧ right = [0x62] then some 0 else none
  ignoreMerges := true

theorem renders_mergeVocab : Renders mergeVocab where
  unstripped id hid data hdata := by
    rw [List.mem_singleton.mp hid] at hdata
    cases hdata
    exact ⟨rfl, rfl⟩
  special data hdata hspecial := by
    rcases List.mem_cons.mp hdata with rfl | hdata
    · refine ⟨by decide, fun bs hbs ↦ ?_⟩
      have hdecode := llamaDecodeText_encodeBytes [0x3C, 0x73, 0x3E]
      have hself : encodeBytes [0x3C, 0x73, 0x3E] = [0x3C, 0x73, 0x3E] := by decide
      rw [hself] at hdecode
      have hback := llamaDecodeText_encodeBytes bs
      rw [← hbs] at hback
      exact Option.some.inj (hdecode.symm.trans hback)
    · rcases List.mem_cons.mp hdata with rfl | hdata
      · exact absurd hspecial Bool.false_ne_true
      · obtain ⟨n, -, rfl⟩ := List.mem_map.mp hdata
        exact absurd hspecial Bool.false_ne_true
  normal data hdata hspecial := by
    rcases List.mem_cons.mp hdata with rfl | hdata
    · exact absurd rfl hspecial
    · rcases List.mem_cons.mp hdata with rfl | hdata
      · rfl
      · obtain ⟨n, -, rfl⟩ := List.mem_map.mp hdata
        rfl
  byte ch := List.findIdx?_isSome.trans (List.any_eq_true.mpr
    ⟨_, List.mem_cons_of_mem _ (List.mem_cons_of_mem _ (mem_byteTokens ch)), decide_eq_true rfl⟩)
  merge left right h := by
    obtain ⟨rank, hrank⟩ := Option.isSome_iff_exists.mp h
    obtain ⟨⟨rfl, rfl⟩, -⟩ := Option.ite_none_right_eq_some.mp hrank
    rfl
  bos _ := rfl
  eos h := absurd h Bool.false_ne_true

end Aigentik.Llama.Bpe
