import Aigentik.Smollm.LLMInference

/-! The vocabulary of a loaded model and the parts of a text that are special tokens. -/

namespace Aigentik.Llama

open Utf8 LLMInference

/-- The bits of `llama_token_attr` that tokenizing and rendering look at. -/
structure TokenAttr where
  unknown : Bool
  normal : Bool
  control : Bool
  userDefined : Bool
  byte : Bool
  lstrip : Bool
  rstrip : Bool
deriving DecidableEq

def TokenAttr.special (attr : TokenAttr) : Bool := attr.control || attr.userDefined || attr.unknown

structure TokenData (Score : Type) where
  text : Bytes
  score : Score
  attr : TokenAttr

/-- No text is empty, and `load` asserts that there are as many texts as tokens. -/
structure Vocab (Score : Type) where
  idToToken : List (TokenData Score)
  text_ne : ∀ data ∈ idToToken, data.text ≠ []
  nodup : (idToToken.map (·.text)).Nodup
  cacheSpecialTokens : List ℕ
  cache_special : ∀ id ∈ cacheSpecialTokens, ∃ data, idToToken[id]? = some data ∧ data.attr.special
  addBos : Bool
  addEos : Bool
  addSpacePrefix : Bool
  specialBosId : Option ℕ
  specialEosId : Option ℕ

variable {Score : Type} (v : Vocab Score)

namespace Vocab

def textToToken (text : Bytes) : Option ℕ := v.idToToken.findIdx? (·.text = text)

def hex (n : UInt8) : UInt8 := if n < 10 then 0x30 + n else 0x37 + n

/-- The text `<0xXX>` of a byte. -/
def byteText (ch : UInt8) : Bytes := [0x3C, 0x30, 0x78, hex (ch >>> 4), hex (ch &&& 15), 0x3E]

/-- Without a token of its own a byte is looked up as a text, and `at` throws where there is none. -/
def byteToToken (ch : UInt8) : Option ℕ := v.textToToken (byteText ch) <|> v.textToToken (cstr [ch])

def unhex (c : UInt8) : Option UInt8 :=
  if 0x30 ≤ c ∧ c ≤ 0x39 then some (c - 0x30)
  else if 0x41 ≤ c ∧ c ≤ 0x46 then some (c - 0x37)
  else if 0x61 ≤ c ∧ c ≤ 0x66 then some (c - 0x57)
  else none

/-- `strtol` to the base 16 on the two characters behind `<0x`. -/
def tokenToByte (text : Bytes) : UInt8 :=
  (((text.drop 3).take 2).map unhex |>.takeWhile Option.isSome).foldl (fun n d ↦ 16 * n + d.getD 0) 0

/-- U+2581, which stands for a blank in the texts of the vocabulary. -/
def mark : Bytes := [0xE2, 0x96, 0x81]

def escapeWhitespace (text : Bytes) : Bytes := text.flatMap fun b ↦ if b = 0x20 then mark else [b]

def unescapeWhitespace : Bytes → Bytes
  | 0xE2 :: 0x96 :: 0x81 :: text => 0x20 :: unescapeWhitespace text
  | b :: text => b :: unescapeWhitespace text
  | [] => []

/-- The piece of a token with special tokens rendered, as the cache of the vocabulary holds it. -/
def tokenToPiece (token : ℕ) : Bytes :=
  match v.idToToken[token]? with
  | none => []
  | some data =>
    if data.attr.special then data.text
    else if data.attr.normal then unescapeWhitespace data.text
    else if data.attr.byte then [tokenToByte data.text]
    else []

end Vocab

/-! Special tokens in a text -/

inductive Fragment
  | rawText (text : Bytes)
  | token (id : ℕ)
deriving DecidableEq

/-- What stands before and behind the first occurrence. -/
def splitAtFirst (sub : Bytes) : Bytes → Option (Bytes × Bytes)
  | [] => if sub = [] then some ([], []) else none
  | b :: text =>
    if sub <+: b :: text then some ([], (b :: text).drop sub.length)
    else (splitAtFirst sub text).map fun parts ↦ (b :: parts.1, parts.2)

def isSpace (b : UInt8) : Bool := b = 0x20 || (0x09 ≤ b && b ≤ 0x0D)

def rawText (text : Bytes) : List Fragment := if text = [] then [] else [.rawText text]

theorem splitAtFirst_eq_some {sub text left right : Bytes} (h : splitAtFirst sub text = some (left, right)) :
    text = left ++ (sub ++ right) := by
  induction text generalizing left right with
  | nil =>
    obtain ⟨rfl, heq⟩ := Option.ite_none_right_eq_some.mp h
    cases heq
    rfl
  | cons b text ih =>
    unfold splitAtFirst at h
    split at h
    · rename_i hpre
      cases h
      obtain ⟨rest, hrest⟩ := hpre
      rw [← hrest, List.drop_left, List.nil_append]
    · obtain ⟨parts, hparts, heq⟩ := Option.map_eq_some_iff.mp h
      cases heq
      rw [ih hparts]
      rfl

def lstripped (attr : TokenAttr) (left : Bytes) : Bytes := if attr.lstrip then left.rdropWhile isSpace else left

def rstripped (attr : TokenAttr) (right : Bytes) : Bytes := if attr.rstrip then right.dropWhile isSpace else right

theorem rstripped_length_le (attr : TokenAttr) (right : Bytes) : (rstripped attr right).length ≤ right.length := by
  unfold rstripped
  split
  · exact (List.dropWhile_suffix _).length_le
  · exact le_rfl

/-- One special token cuts a fragment into what stands between its occurrences. -/
def splitSpecial (id : ℕ) (data : TokenData Score) (hdata : data.text ≠ []) (raw : Bytes) : List Fragment :=
  match _h : splitAtFirst data.text raw with
  | none => [.rawText raw]
  | some (left, right) =>
    rawText (lstripped data.attr left) ++ .token id ::
      if rstripped data.attr right = [] then [] else splitSpecial id data hdata (rstripped data.attr right)
termination_by raw.length
decreasing_by
  have hlen := congrArg List.length (splitAtFirst_eq_some _h)
  have hpos : 0 < data.text.length := List.length_pos_iff.mpr hdata
  have hrest := rstripped_length_le data.attr right
  simp only [List.length_append] at hlen
  omega

/-- One special token on all fragments. Control and unknown tokens are plain text unless they are parsed. -/
def partitionBy (parseSpecial : Bool) (buffer : List Fragment) (id : ℕ) : List Fragment :=
  match h : v.idToToken[id]? with
  | none => buffer
  | some data =>
    if !parseSpecial && (data.attr.control || data.attr.unknown) then buffer
    else buffer.flatMap fun
      | .rawText raw => splitSpecial id data (v.text_ne data (List.mem_of_getElem? h)) raw
      | .token id => [.token id]

def tokenizerStPartition (parseSpecial : Bool) (buffer : List Fragment) : List Fragment :=
  v.cacheSpecialTokens.foldl (partitionBy v parseSpecial) buffer

def fragments (parseSpecial : Bool) (raw : Bytes) : List Fragment :=
  tokenizerStPartition v parseSpecial (rawText raw)

/-! What the partition keeps -/

def Fragment.text : Fragment → Bytes
  | .rawText raw => raw
  | .token id => (v.idToToken[id]?.map (·.text)).getD []

/-- Where no special token strips the blanks around it, the fragments are the text. -/
structure Partition (raw : Bytes) (buffer : List Fragment) : Prop where
  text : buffer.flatMap (Fragment.text v) = raw
  nonempty : .rawText [] ∉ buffer

def Unstripped : Prop := ∀ id ∈ v.cacheSpecialTokens, ∀ data, v.idToToken[id]? = some data →
  data.attr.lstrip = false ∧ data.attr.rstrip = false

variable {v} {id : ℕ} {data : TokenData Score} {raw : Bytes}

theorem partition_rawText (raw : Bytes) : Partition v raw (rawText raw) := by
  unfold rawText
  split
  · rename_i heq
    subst heq
    exact ⟨rfl, List.not_mem_nil⟩
  · rename_i hne
    exact ⟨by simp [Fragment.text], by simpa using Ne.symm hne⟩

theorem splitSpecial_partition (hid : v.idToToken[id]? = some data) (hdata : data.text ≠ [])
    (hstrip : data.attr.lstrip = false ∧ data.attr.rstrip = false) (hraw : raw ≠ []) :
    Partition v raw (splitSpecial id data hdata raw) := by
  induction hn : raw.length using Nat.strong_induction_on generalizing raw with
  | h n ih =>
    rw [splitSpecial]
    split
    · exact ⟨by simp [Fragment.text], by simpa using hraw.symm⟩
    · rename_i left right h
      have heq := splitAtFirst_eq_some h
      obtain ⟨hleft, hempty⟩ := partition_rawText (v := v) left
      simp only [lstripped, rstripped, hstrip.1, hstrip.2, Bool.false_eq_true, if_false]
      split
      · rename_i hnil
        subst hnil
        refine ⟨?_, by simpa using hempty⟩
        rw [List.flatMap_append, hleft, heq, List.append_nil]
        simp [Fragment.text, hid]
      · rename_i hne
        have hlen : right.length < n := by
          have hpos : 0 < data.text.length := List.length_pos_iff.mpr hdata
          rw [← hn, heq]
          simp only [List.length_append]
          omega
        obtain ⟨htext, hnonempty⟩ := ih _ hlen hne rfl
        refine ⟨?_, by simpa using ⟨hempty, hnonempty⟩⟩
        rw [List.flatMap_append, hleft, List.flatMap_cons, htext, heq]
        simp [Fragment.text, hid]

theorem Partition.by {buffer : List Fragment} (h : Partition v raw buffer) (parseSpecial : Bool)
    (hstrip : ∀ data, v.idToToken[id]? = some data → data.attr.lstrip = false ∧ data.attr.rstrip = false) :
    Partition v raw (partitionBy v parseSpecial buffer id) := by
  unfold partitionBy
  split
  · exact h
  · rename_i data hid
    split
    · exact h
    · obtain ⟨htext, hempty⟩ := h
      rw [← htext]
      clear htext
      induction buffer with
      | nil => exact ⟨rfl, List.not_mem_nil⟩
      | cons f buffer ih =>
        obtain ⟨hf, hbuffer⟩ := not_or.mp fun hmem ↦ hempty (List.mem_cons.mpr hmem)
        obtain ⟨ihtext, ihempty⟩ := ih hbuffer
        cases f with
        | rawText raw =>
          have hraw : raw ≠ [] := fun hnil ↦ hf (hnil ▸ rfl)
          have hne : data.text ≠ [] := v.text_ne data (List.mem_of_getElem? hid)
          obtain ⟨hsplit, hsplitempty⟩ := splitSpecial_partition hid hne (hstrip data hid) hraw
          refine ⟨?_, ?_⟩
          · rw [List.flatMap_cons, List.flatMap_append, ihtext]
            exact congrArg (· ++ _) hsplit
          · rw [List.flatMap_cons, List.mem_append, not_or]
            exact ⟨hsplitempty, ihempty⟩
        | token id' =>
          refine ⟨?_, ?_⟩
          · rw [List.flatMap_cons, List.flatMap_append, ihtext, List.flatMap_cons]
            exact congrArg (· ++ _) (List.flatMap_singleton ..)
          · rw [List.flatMap_cons, List.mem_append, not_or]
            exact ⟨by simp, ihempty⟩

theorem fragments_partition (hstrip : Unstripped v) (parseSpecial : Bool) (raw : Bytes) :
    Partition v raw (fragments v parseSpecial raw) := by
  unfold fragments tokenizerStPartition
  refine List.foldlRecOn v.cacheSpecialTokens (partitionBy v parseSpecial) (partition_rawText raw) ?_
  intro buffer h id hid
  exact h.by parseSpecial (hstrip id hid)

/-- A property of fragments that is kept by cutting out one special token. -/
structure Cuts (P : Fragment → Prop) (id : ℕ) (data : TokenData Score) : Prop where
  token : P (.token id)
  parts : ∀ raw left right, P (.rawText raw) → splitAtFirst data.text raw = some (left, right) →
    P (.rawText (lstripped data.attr left)) ∧ P (.rawText (rstripped data.attr right))

theorem mem_rawText {f : Fragment} (h : f ∈ rawText raw) : f = .rawText raw := by
  unfold rawText at h
  split at h
  · exact absurd h List.not_mem_nil
  · exact List.mem_singleton.mp h

theorem Cuts.splitSpecial {P : Fragment → Prop} (hdata : data.text ≠ []) (hcuts : Cuts P id data)
    (hraw : P (.rawText raw)) : ∀ f ∈ splitSpecial id data hdata raw, P f := by
  induction hn : raw.length using Nat.strong_induction_on generalizing raw with
  | h n ih =>
    intro f hf
    rw [Llama.splitSpecial] at hf
    split at hf
    · rwa [List.mem_singleton.mp hf]
    · rename_i left right h
      obtain ⟨hleft, hright⟩ := hcuts.parts raw left right hraw h
      rcases List.mem_append.mp hf with hf | hf
      · rwa [mem_rawText hf]
      · rcases List.mem_cons.mp hf with rfl | hf
        · exact hcuts.token
        · split at hf
          · exact absurd hf List.not_mem_nil
          · refine ih _ ?_ hright rfl f hf
            have hlen := congrArg List.length (splitAtFirst_eq_some h)
            have hpos : 0 < data.text.length := List.length_pos_iff.mpr hdata
            have hrest := rstripped_length_le data.attr right
            simp only [List.length_append] at hlen
            omega

theorem fragments_forall {P : Fragment → Prop} {parseSpecial : Bool}
    (hcuts : ∀ id ∈ v.cacheSpecialTokens, ∀ data, v.idToToken[id]? = some data → Cuts P id data)
    (hraw : P (.rawText raw)) : ∀ f ∈ fragments v parseSpecial raw, P f := by
  unfold fragments tokenizerStPartition
  refine List.foldlRecOn (motive := fun buffer ↦ ∀ f ∈ buffer, P f) v.cacheSpecialTokens
    (partitionBy v parseSpecial) (fun f hf ↦ by rwa [mem_rawText hf]) ?_
  intro buffer h id hid
  unfold partitionBy
  split
  · exact h
  · rename_i data hdata
    split
    · exact h
    · intro f hf
      obtain ⟨f', hf', hf⟩ := List.mem_flatMap.mp hf
      cases f' with
      | rawText raw => exact (hcuts id hid data hdata).splitSpecial _ (h _ hf') f hf
      | token id' =>
        rw [List.mem_singleton.mp hf]
        exact h _ hf'

end Aigentik.Llama
