import Aigentik.Strings.Utf8Groups
import Mathlib

/-! Code points, the characters that stand for bytes in the texts of a vocabulary, and the words of a text. -/

namespace Aigentik.Llama

open Utf8

/-! Code points -/

/-- The first code point and what follows it; an exception where there is none. -/
def unicodeCptFromUtf8 : Bytes → Option (ℕ × Bytes)
  | [] => none
  | a :: utf8 =>
    match width a with
    | none => none
    | some n =>
      let tails := utf8.take (n - 1)
      if tails.length = n - 1 ∧ ∀ b ∈ tails, IsTail b then some (codePoint (a :: tails), utf8.drop (n - 1)) else none

theorem unicodeCptFromUtf8_length {utf8 rest : Bytes} {cpt : ℕ} (h : unicodeCptFromUtf8 utf8 = some (cpt, rest)) :
    rest.length < utf8.length := by
  cases utf8 with
  | nil => cases h
  | cons a utf8 =>
    rw [unicodeCptFromUtf8] at h
    split at h
    · cases h
    · obtain ⟨-, heq⟩ := Option.ite_none_right_eq_some.mp h
      cases heq
      rw [List.length_drop, List.length_cons]
      omega

/-- A byte that starts no character becomes the replacement character. -/
def unicodeCptsFromUtf8 (utf8 : Bytes) : List ℕ :=
  match _h : unicodeCptFromUtf8 utf8 with
  | some (cpt, rest) => cpt :: unicodeCptsFromUtf8 rest
  | none =>
    match utf8 with
    | [] => []
    | _ :: rest => 0xFFFD :: unicodeCptsFromUtf8 rest
termination_by utf8.length
decreasing_by
  · exact unicodeCptFromUtf8_length _h
  · exact Nat.lt_succ_self _

/-- Above U+10FFFF there is an exception. -/
def unicodeCptToUtf8 (cpt : ℕ) : Option Bytes :=
  if cpt ≤ 0x7F then some [.ofNat cpt]
  else if cpt ≤ 0x7FF then some [.ofNat (0xC0 + cpt / 0x40 % 0x20), .ofNat (0x80 + cpt % 0x40)]
  else if cpt ≤ 0xFFFF then
    some [.ofNat (0xE0 + cpt / 0x1000 % 0x10), .ofNat (0x80 + cpt / 0x40 % 0x40), .ofNat (0x80 + cpt % 0x40)]
  else if cpt ≤ 0x10FFFF then
    some [.ofNat (0xF0 + cpt / 0x40000 % 0x08), .ofNat (0x80 + cpt / 0x1000 % 0x40), .ofNat (0x80 + cpt / 0x40 % 0x40),
      .ofNat (0x80 + cpt % 0x40)]
  else none

/-- A group that is the shortest for its code point. Surrogates are among them. -/
def Exact (g : Bytes) : Prop := IsGroup g ∧ leastOf g.length ≤ codePoint g ∧ codePoint g ≤ 0x10FFFF

instance : DecidablePred Exact := fun _ ↦ inferInstanceAs (Decidable (_ ∧ _))

variable {g bs : Bytes}

theorem mapM_eq_some {α β : Type} {f : α → Option β} {g : α → β} {l : List α} (h : ∀ a ∈ l, f a = some (g a)) :
    l.mapM f = some (l.map g) := by
  induction l with
  | nil => rfl
  | cons a l ih =>
    obtain ⟨ha, hl⟩ := List.forall_mem_cons.mp h
    rw [List.mapM_cons, ha, ih hl]
    rfl

theorem unicodeCptFromUtf8_group (h : IsGroup g) (bs : Bytes) :
    unicodeCptFromUtf8 (g ++ bs) = some (codePoint g, bs) := by
  cases g with
  | nil => exact h.elim
  | cons a tails =>
    obtain ⟨hwidth, htails⟩ := h
    rw [List.cons_append, unicodeCptFromUtf8, hwidth]
    dsimp only
    rw [Nat.add_sub_cancel, List.take_left, List.drop_left, if_pos ⟨rfl, htails⟩]

theorem unicodeCptsFromUtf8_group (h : IsGroup g) (bs : Bytes) :
    unicodeCptsFromUtf8 (g ++ bs) = codePoint g :: unicodeCptsFromUtf8 bs := by
  rw [unicodeCptsFromUtf8]
  split
  · rename_i cpt rest heq
    rw [unicodeCptFromUtf8_group h] at heq
    cases heq
    rfl
  · rename_i heq
    rw [unicodeCptFromUtf8_group h] at heq
    cases heq

theorem unicodeCptsFromUtf8_flatten {groups : List Bytes} (h : ∀ g ∈ groups, IsGroup g) :
    unicodeCptsFromUtf8 groups.flatten = groups.map codePoint := by
  induction groups with
  | nil =>
    rw [List.flatten_nil, unicodeCptsFromUtf8]
    rfl
  | cons g groups ih =>
    obtain ⟨hg, hgroups⟩ := List.forall_mem_cons.mp h
    rw [List.flatten_cons, unicodeCptsFromUtf8_group hg, ih hgroups, List.map_cons]

theorem ofNat_eq {n : ℕ} {a : UInt8} (h : n = a.toNat) : UInt8.ofNat n = a := by
  rw [h, UInt8.ofNat_toNat]

/-- The code point of a shortest group spells the group. -/
theorem unicodeCptToUtf8_codePoint (h : Exact g) : unicodeCptToUtf8 (codePoint g) = some g := by
  obtain ⟨hgroup, hleast, hmost⟩ := h
  generalize hn : codePoint g = n at hleast hmost ⊢
  unfold unicodeCptToUtf8
  rcases isGroup_cases hgroup with ⟨a, rfl, ha⟩ | ⟨a, b, rfl, ha, hb⟩ | ⟨a, b, c, rfl, ha, hb, hc⟩ |
    ⟨a, b, c, d, rfl, ha, hb, hc, hd⟩
  · simp only [codePoint] at hn
    rw [if_pos (by omega), ofNat_eq hn.symm]
  · rw [isTail_iff_toNat] at hb
    simp only [codePoint, leastOf, List.length_cons, List.length_nil] at hn hleast
    rw [if_neg (by omega), if_pos (by omega), ofNat_eq (a := a) (by omega), ofNat_eq (a := b) (by omega)]
  · rw [isTail_iff_toNat] at hb hc
    simp only [codePoint, leastOf, List.length_cons, List.length_nil] at hn hleast
    rw [if_neg (by omega), if_neg (by omega), if_pos (by omega), ofNat_eq (a := a) (by omega),
      ofNat_eq (a := b) (by omega), ofNat_eq (a := c) (by omega)]
  · rw [isTail_iff_toNat] at hb hc hd
    simp only [codePoint, leastOf, List.length_cons, List.length_nil] at hn hleast
    rw [if_neg (by omega), if_neg (by omega), if_neg (by omega), if_pos (by omega), ofNat_eq (a := a) (by omega),
      ofNat_eq (a := b) (by omega), ofNat_eq (a := c) (by omega), ofNat_eq (a := d) (by omega)]

theorem mapM_unicodeCptToUtf8 {groups : List Bytes} (h : ∀ g ∈ groups, Exact g) :
    (groups.map codePoint).mapM unicodeCptToUtf8 = some groups := by
  have hmap := mapM_eq_some (g := id) fun g hg ↦ unicodeCptToUtf8_codePoint (h g hg)
  rw [List.map_id] at hmap
  rw [List.mapM_map]
  exact hmap

/-! Characters for bytes -/

/-- The bytes that stand for themselves. -/
def isDirect (ch : ℕ) : Bool := (0x21 ≤ ch && ch ≤ 0x7E) || (0xA1 ≤ ch && ch ≤ 0xAC) || (0xAE ≤ ch && ch ≤ 0xFF)

/-- The other bytes are numbered from 256 on. -/
def byteCpt (byte : UInt8) : ℕ :=
  if isDirect byte.toNat then byte.toNat else 256 + (List.range byte.toNat).countP fun ch ↦ !isDirect ch

def unicodeByteToUtf8 (byte : UInt8) : Bytes := (unicodeCptToUtf8 (byteCpt byte)).getD []

def unicodeUtf8ToByte (utf8 : Bytes) : Option UInt8 :=
  ((List.finRange 256).map UInt8.ofFin).find? fun byte ↦ unicodeByteToUtf8 byte = utf8

def encodeBytes (bs : Bytes) : Bytes := bs.flatMap unicodeByteToUtf8

theorem byteCpt_eq (byte : UInt8) : byteCpt byte =
    if byte.toNat < 0x21 then byte.toNat + 0x100 else if byte.toNat < 0x7F then byte.toNat
    else if byte.toNat < 0xA1 then byte.toNat + 0xA2 else if byte.toNat = 0xAD then 0x143 else byte.toNat :=
  byte_cases (p := fun byte ↦ byteCpt byte =
    if byte.toNat < 0x21 then byte.toNat + 0x100 else if byte.toNat < 0x7F then byte.toNat
    else if byte.toNat < 0xA1 then byte.toNat + 0xA2 else if byte.toNat = 0xAD then 0x143 else byte.toNat)
    (by decide +kernel) byte

theorem byteCpt_injective : Function.Injective byteCpt := by
  intro a b hab
  rw [byteCpt_eq, byteCpt_eq] at hab
  have ha := a.toNat_lt
  have hb := b.toNat_lt
  refine UInt8.toNat_inj.mp ?_
  split at hab <;> split at hab <;> grind

theorem unicodeByteToUtf8_exact (byte : UInt8) :
    Exact (unicodeByteToUtf8 byte) ∧ codePoint (unicodeByteToUtf8 byte) = byteCpt byte :=
  byte_cases (p := fun byte ↦ Exact (unicodeByteToUtf8 byte) ∧ codePoint (unicodeByteToUtf8 byte) = byteCpt byte)
    (by decide +kernel) byte

theorem unicodeUtf8ToByte_byteToUtf8 (byte : UInt8) : unicodeUtf8ToByte (unicodeByteToUtf8 byte) = some byte := by
  have hmem : byte ∈ (List.finRange 256).map UInt8.ofFin :=
    List.mem_map.mpr ⟨byte.toFin, List.mem_finRange _, rfl⟩
  cases hfind : unicodeUtf8ToByte (unicodeByteToUtf8 byte) with
  | none => exact absurd (decide_eq_true rfl) (List.find?_eq_none.mp hfind byte hmem)
  | some byte' =>
    have heq : unicodeByteToUtf8 byte' = unicodeByteToUtf8 byte :=
      of_decide_eq_true (List.find?_some (p := fun b ↦ unicodeByteToUtf8 b = unicodeByteToUtf8 byte) hfind)
    refine congrArg some (byteCpt_injective ?_)
    rw [← (unicodeByteToUtf8_exact byte').2, ← (unicodeByteToUtf8_exact byte).2, heq]

def hexDigit (n : UInt8) : UInt8 := if n < 10 then 0x30 + n else 0x57 + n

/-- What a character that stands for no byte is replaced by. The whole text is part of it. -/
def unknownByte (text utf8 : Bytes) : Bytes :=
  "[UNK_BYTE_0x".toUTF8.toList ++ (utf8.flatMap fun c ↦ [hexDigit (c / 16), hexDigit (c % 16)]) ++ text ++ [0x5D]

def llamaDecodeText (text : Bytes) : Option Bytes :=
  ((unicodeCptsFromUtf8 text).mapM fun cpt ↦ (unicodeCptToUtf8 cpt).map fun utf8 ↦
    match unicodeUtf8ToByte utf8 with
    | some byte => [byte]
    | none => unknownByte text utf8).map List.flatten

theorem encodeBytes_groups (bs : Bytes) :
    (∀ g ∈ bs.map unicodeByteToUtf8, IsGroup g) ∧ encodeBytes bs = (bs.map unicodeByteToUtf8).flatten := by
  refine ⟨?_, rfl⟩
  rw [List.forall_mem_map]
  exact fun byte _ ↦ (unicodeByteToUtf8_exact byte).1.1

theorem llamaDecodeText_encodeBytes (bs : Bytes) : llamaDecodeText (encodeBytes bs) = some bs := by
  obtain ⟨hgroups, heq⟩ := encodeBytes_groups bs
  unfold llamaDecodeText
  rw [heq, unicodeCptsFromUtf8_flatten hgroups, List.map_map, List.mapM_map,
    mapM_eq_some (g := fun byte ↦ [byte]) fun byte _ ↦ ?_, Option.map_some, ← List.flatMap_def, List.flatMap_singleton']
  rw [Function.comp_apply, Function.comp_apply, unicodeCptToUtf8_codePoint (unicodeByteToUtf8_exact byte).1,
    Option.map_some, unicodeUtf8ToByte_byteToUtf8]

/-! Words -/

/-- The matches follow each other from `start` on and end before `stop`. -/
def Ordered (start stop : ℕ) : List (ℕ × ℕ) → Prop
  | [] => start ≤ stop
  | (position, length) :: found => start ≤ position ∧ Ordered (position + length) stop found

/-- What the iteration over the matches of a regular expression yields in a range of code points. -/
structure Pattern where
  found : List ℕ → List (ℕ × ℕ)
  ordered : ∀ range, Ordered 0 range.length (found range)

/-- The sizes of the matches and of what is between them. -/
def pieces (stop : ℕ) : ℕ → List (ℕ × ℕ) → List ℕ
  | start, [] => if start < stop then [stop - start] else []
  | start, (position, length) :: found =>
    (if start < position then [position - start] else []) ++ length :: pieces stop (position + length) found

def unicodeRegexSplitStl (pattern : Pattern) : List ℕ → List ℕ → List ℕ
  | _, [] => []
  | text, offset :: offsets =>
    pieces offset 0 (pattern.found (text.take offset)) ++ unicodeRegexSplitStl pattern (text.drop offset) offsets

def bpeWords : List ℕ → List ℕ → Option (List Bytes)
  | _, [] => some []
  | cpts, offset :: offsets => do
    let word ← (cpts.take offset).mapM unicodeCptToUtf8
    let words ← bpeWords (cpts.drop offset) offsets
    return word.flatten :: words

def unicodeByteEncodingProcess (words : List Bytes) : Option (List Bytes) :=
  words.mapM fun word ↦ ((unicodeCptsFromUtf8 word).mapM unicodeCptToUtf8).map fun utf8 ↦ encodeBytes utf8.flatten

/-- One pattern after the other cuts the pieces of those before it. -/
def unicodeRegexSplit (patterns : List Pattern) (text : Bytes) : Option (List Bytes) := do
  let cpts := unicodeCptsFromUtf8 text
  let offsets := patterns.foldl (fun offsets pattern ↦ unicodeRegexSplitStl pattern cpts offsets) [cpts.length]
  let words ← bpeWords cpts offsets
  unicodeByteEncodingProcess words

/-! What the words keep -/

variable {pattern : Pattern} {start stop position : ℕ} {found : List (ℕ × ℕ)} {offsets cpts : List ℕ} {text : Bytes}
  {groups : List Bytes}

theorem sum_pieces (h : Ordered start stop found) : start + (pieces stop start found).sum = stop := by
  induction found generalizing start with
  | nil =>
    have hle : start ≤ stop := h
    unfold pieces
    split
    · rw [List.sum_singleton, Nat.add_sub_cancel' hle]
    · rw [List.sum_nil]
      omega
  | cons m found ih =>
    obtain ⟨hle, hrest⟩ := h
    have hsum := ih hrest
    rw [pieces, List.sum_append, List.sum_cons]
    split
    · rw [List.sum_singleton]
      omega
    · rw [List.sum_nil]
      omega

theorem sum_unicodeRegexSplitStl (h : offsets.sum ≤ cpts.length) :
    (unicodeRegexSplitStl pattern cpts offsets).sum = offsets.sum := by
  induction offsets generalizing cpts with
  | nil => rfl
  | cons offset offsets ih =>
    rw [List.sum_cons] at h ⊢
    have hrange := pattern.ordered (cpts.take offset)
    rw [List.length_take, Nat.min_eq_left (by omega)] at hrange
    have hpieces := sum_pieces hrange
    rw [unicodeRegexSplitStl, List.sum_append, ih (by rw [List.length_drop]; omega)]
    omega

/-- The words are the characters of the text, divided. -/
theorem bpeWords_eq (h : ∀ g ∈ groups, Exact g) (hsum : offsets.sum = groups.length) :
    ∃ words : List (List Bytes), words.flatten = groups ∧
      bpeWords (groups.map codePoint) offsets = some (words.map List.flatten) := by
  induction offsets generalizing groups with
  | nil =>
    rw [List.sum_nil] at hsum
    exact ⟨[], (List.length_eq_zero_iff.mp hsum.symm).symm, rfl⟩
  | cons offset offsets ih =>
    rw [List.sum_cons] at hsum
    have hdrop : offsets.sum = (groups.drop offset).length := by
      rw [List.length_drop]
      omega
    obtain ⟨words, hwords, hrest⟩ := ih (fun g hg ↦ h g (List.mem_of_mem_drop hg)) hdrop
    refine ⟨groups.take offset :: words, by rw [List.flatten_cons, hwords, List.take_append_drop], ?_⟩
    have hword := mapM_unicodeCptToUtf8 fun g hg ↦ h g (List.mem_of_mem_take (i := offset) hg)
    rw [bpeWords, ← List.map_take, ← List.map_drop, hword, hrest]
    rfl

/-- The words of a text are its bytes, divided and then replaced by the characters that stand for them. -/
theorem unicodeRegexSplit_eq (patterns : List Pattern) (h : ∀ g ∈ groups, Exact g) :
    ∃ parts : List Bytes, parts.flatten = groups.flatten ∧
      unicodeRegexSplit patterns groups.flatten = some (parts.map encodeBytes) := by
  have hcpts := unicodeCptsFromUtf8_flatten fun g hg ↦ (h g hg).1
  have hsum : (patterns.foldl (fun offsets pattern ↦ unicodeRegexSplitStl pattern (groups.map codePoint) offsets)
      [(groups.map codePoint).length]).sum = groups.length := by
    refine List.foldlRecOn (motive := fun offsets : List ℕ ↦ offsets.sum = groups.length) patterns _ ?_ ?_
    · rw [List.sum_singleton, List.length_map]
    · intro offsets hoffsets pattern _
      rw [sum_unicodeRegexSplitStl (by rw [hoffsets, List.length_map]), hoffsets]
  obtain ⟨words, hwords, hbpe⟩ := bpeWords_eq h hsum
  refine ⟨words.map List.flatten, by rw [← List.flatten_flatten, hwords], ?_⟩
  have hencode : unicodeByteEncodingProcess (words.map List.flatten) =
      some ((words.map List.flatten).map encodeBytes) := by
    refine mapM_eq_some fun word hword ↦ ?_
    obtain ⟨gs, hgs, rfl⟩ := List.mem_map.mp hword
    have hexact : ∀ g ∈ gs, Exact g := fun g hg ↦ h g (hwords ▸ List.mem_flatten_of_mem hgs hg)
    rw [unicodeCptsFromUtf8_flatten fun g hg ↦ (hexact g hg).1, mapM_unicodeCptToUtf8 hexact]
    rfl
  unfold unicodeRegexSplit
  simp only [hcpts, hbpe, Option.bind_eq_bind, Option.bind_some, hencode]

end Aigentik.Llama
