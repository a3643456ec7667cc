import Aigentik.Llama.SpmTokenizer
import Aigentik.Strings.Utf8Groups

/-! What the tokens of a prompt are rendered as. -/

namespace Aigentik.Llama

open Utf8 Collections Segment Strings Vocab LLMInference

section Tokenize

variable {Score : Type} [LinearOrder Score] (v : Vocab Score) (Q : PriorityQueue (Spm.Bigram Score) Spm.Below)

/-- A fragment with the blank that is put before it at the start and after a special token. -/
def spaced (isPrevSpecial : Bool) (raw : Bytes) : Bytes :=
  if v.addSpacePrefix && isPrevSpecial then 0x20 :: raw else raw

def tokenizeFragments : Bool → List Fragment → Option (List ℕ)
  | _, [] => some []
  | isPrevSpecial, .rawText raw :: buffer => do
    let first ← Spm.tokenize v Q (escapeWhitespace (spaced v isPrevSpecial raw))
    let rest ← tokenizeFragments false buffer
    return first ++ rest
  | _, .token id :: buffer => (tokenizeFragments true buffer).map (id :: ·)

/-- The token at an end of the output; the program stops where the vocabulary asks for one that it does not have. -/
def endToken (wanted : Bool) (id : Option ℕ) : Option (List ℕ) := if wanted then id.map ([·]) else some []

/-- What the token at an end is rendered as. -/
def endText (piece : ℕ → Bytes) (wanted : Bool) (id : Option ℕ) : Bytes :=
  if wanted then (id.map piece).getD [] else []

theorem endToken_eq (piece : ℕ → Bytes) {wanted : Bool} {id : Option ℕ} (h : wanted → id.isSome) :
    ∃ tokens, endToken wanted id = some tokens ∧ tokens.flatMap piece = endText piece wanted id := by
  cases wanted with
  | false => exact ⟨[], rfl, rfl⟩
  | true =>
    obtain ⟨token, rfl⟩ := Option.isSome_iff_exists.mp (h rfl)
    exact ⟨[token], rfl, List.flatMap_singleton ..⟩

def tokenize (addSpecial parseSpecial : Bool) (rawText : Bytes) : Option (List ℕ) := do
  let bos ← endToken (addSpecial && v.addBos) v.specialBosId
  let output ← tokenizeFragments v Q true (fragments v parseSpecial rawText)
  let eos ← endToken (addSpecial && v.addEos) v.specialEosId
  return bos ++ output ++ eos

end Tokenize

/-! Characters of whole texts -/

variable {a b ch : UInt8} {g bs text sub : Bytes}

theorem unicodeLenUtf8_eq {n : ℕ} (h : width a = some n) : unicodeLenUtf8 a = n := by
  have heq : ∀ m, width a = some m → unicodeLenUtf8 a = m :=
    byte_cases (p := fun a ↦ ∀ m, width a = some m → unicodeLenUtf8 a = m) (by decide +kernel) a
  exact heq n h

theorem chars_append (h : IsGroup g) (bs : Bytes) : chars (g ++ bs) = g :: chars bs := by
  cases g with
  | nil => exact h.elim
  | cons a tails =>
    have hlen : unicodeLenUtf8 a = (a :: tails).length := unicodeLenUtf8_eq h.1
    rw [List.cons_append, chars, hlen, ← List.cons_append, List.take_left, List.drop_left]

theorem chars_eq {groups : List Bytes} (h : ∀ g ∈ groups, IsGroup g) : chars groups.flatten = groups := by
  induction groups with
  | nil =>
    rw [List.flatten_nil, chars]
  | cons g groups ih =>
    obtain ⟨hg, hgroups⟩ := List.forall_mem_cons.mp h
    rw [List.flatten_cons, chars_append hg, ih hgroups]

theorem chars_isGroup (h : Whole text) : ∀ c ∈ chars text, IsGroup c := by
  obtain ⟨groups, rfl, hgroups⟩ := whole_iff_groups.mp h
  rwa [chars_eq hgroups]

theorem isGroup_mark : IsGroup mark := by
  refine ⟨rfl, ?_⟩
  rw [List.forall_mem_cons, List.forall_mem_singleton]
  decide

theorem isGroup_single (h : width a = some 1) : IsGroup [a] := ⟨h, fun _ hmem ↦ absurd hmem List.not_mem_nil⟩

theorem isGroup_blank : IsGroup [0x20] := isGroup_single rfl

/-! Blanks and marks, character by character -/

def escapeChar (c : Bytes) : Bytes := if c = [0x20] then mark else c

def unescapeChar (c : Bytes) : Bytes := if c = mark then [0x20] else c

theorem escapeWhitespace_append (bs cs : Bytes) :
    escapeWhitespace (bs ++ cs) = escapeWhitespace bs ++ escapeWhitespace cs := List.flatMap_append

theorem escapeWhitespace_eq_self (h : 0x20 ∉ bs) : escapeWhitespace bs = bs := by
  induction bs with
  | nil => rfl
  | cons b bs ih =>
    obtain ⟨hb, hbs⟩ := not_or.mp fun hmem ↦ h (List.mem_cons.mpr hmem)
    have hcons : escapeWhitespace (b :: bs) = (if b = 0x20 then mark else [b]) ++ escapeWhitespace bs := rfl
    rw [hcons, if_neg (Ne.symm hb), ih hbs]
    rfl

theorem escapeWhitespace_group (h : IsGroup g) : escapeWhitespace g = escapeChar g := by
  cases g with
  | nil => exact h.elim
  | cons a tails =>
    obtain ⟨hwidth, htails⟩ := h
    have hblank : 0x20 ∉ tails := fun hmem ↦ absurd (htails _ hmem) (by decide)
    unfold escapeChar
    split
    · rename_i heq
      rw [heq]
      rfl
    · rename_i hne
      refine escapeWhitespace_eq_self fun hmem ↦ ?_
      rcases List.mem_cons.mp hmem with rfl | hmem
      · have hlen : tails.length + 1 = 1 := (Option.some.inj hwidth).symm
        rw [List.length_eq_zero_iff.mp (Nat.succ.inj hlen)] at hne
        exact hne rfl
      · exact hblank hmem

theorem escapeChar_isGroup (h : IsGroup g) : IsGroup (escapeChar g) := by
  unfold escapeChar
  split
  · exact isGroup_mark
  · exact h

theorem escapeWhitespace_flatten {groups : List Bytes} (h : ∀ g ∈ groups, IsGroup g) :
    escapeWhitespace groups.flatten = (groups.map escapeChar).flatten := by
  induction groups with
  | nil => rfl
  | cons g groups ih =>
    obtain ⟨hg, hgroups⟩ := List.forall_mem_cons.mp h
    rw [List.flatten_cons, escapeWhitespace_append, escapeWhitespace_group hg, ih hgroups, List.map_cons,
      List.flatten_cons]

/-- The characters of an escaped text are those of the text, with a mark for each blank. -/
theorem chars_escapeWhitespace (h : Whole text) : chars (escapeWhitespace text) = (chars text).map escapeChar := by
  have hgroups := chars_isGroup h
  conv_lhs => rw [← chars_flatten text, escapeWhitespace_flatten hgroups]
  refine chars_eq ?_
  rw [List.forall_mem_map]
  exact fun g hg ↦ escapeChar_isGroup (hgroups g hg)

theorem unescapeWhitespace_cons (h : ¬mark <+: b :: bs) :
    unescapeWhitespace (b :: bs) = b :: unescapeWhitespace bs := by
  rw [unescapeWhitespace]
  intro text hb hbs
  subst hb hbs
  exact h ⟨text, rfl⟩

theorem unescapeWhitespace_of_notMem (h : 0xE2 ∉ g) (bs : Bytes) :
    unescapeWhitespace (g ++ bs) = g ++ unescapeWhitespace bs := by
  induction g with
  | nil => rfl
  | cons a g ih =>
    obtain ⟨ha, hg⟩ := not_or.mp fun hmem ↦ h (List.mem_cons.mpr hmem)
    rw [List.cons_append, unescapeWhitespace_cons, ih hg, List.cons_append]
    intro hpre
    exact ha (List.cons_prefix_cons.mp hpre).1

theorem unescapeWhitespace_group (h : IsGroup g) (bs : Bytes) :
    unescapeWhitespace (g ++ bs) = unescapeChar g ++ unescapeWhitespace bs := by
  unfold unescapeChar
  split
  · rename_i heq
    subst heq
    rfl
  · rename_i hne
    cases g with
    | nil => exact h.elim
    | cons a tails =>
      have htails : 0xE2 ∉ tails := fun hmem ↦ absurd (h.2 _ hmem) (by decide)
      have hpre : ¬mark <+: a :: (tails ++ bs) := by
        intro hpre
        obtain ⟨rest, hrest⟩ := hpre
        exact hne (h.eq_of_append_eq isGroup_mark hrest.symm).1
      rw [List.cons_append, unescapeWhitespace_cons hpre, unescapeWhitespace_of_notMem htails, List.cons_append]

theorem unescapeWhitespace_flatten {groups : List Bytes} (h : ∀ g ∈ groups, IsGroup g) :
    unescapeWhitespace groups.flatten = (groups.map unescapeChar).flatten := by
  induction groups with
  | nil => rfl
  | cons g groups ih =>
    obtain ⟨hg, hgroups⟩ := List.forall_mem_cons.mp h
    rw [List.flatten_cons, unescapeWhitespace_group hg, ih hgroups, List.map_cons, List.flatten_cons]

theorem unescapeChar_escapeChar (h : g ≠ mark) : unescapeChar (escapeChar g) = g := by
  unfold escapeChar
  split
  · rename_i heq
    rw [heq]
    decide
  · exact if_neg h

/-! Parts of whole texts -/

/-- Where a whole part stands in a whole text, what is around it is whole. -/
theorem whole_around {left right : Bytes} (h : Whole (left ++ (sub ++ right))) (hsub : Whole sub) (hne : sub ≠ []) :
    Whole left ∧ Whole right := by
  rw [Whole, scan_append] at h
  obtain ⟨k, hk, hrest⟩ := Option.bind_eq_some_iff.mp h
  cases k with
  | zero => exact ⟨hk, hsub.append.mp hrest⟩
  | succ k =>
    cases sub with
    | nil => exact absurd rfl hne
    | cons a sub =>
      obtain ⟨k', hstep, -⟩ := Option.bind_eq_some_iff.mp hsub
      obtain ⟨n, hn, -⟩ := Option.map_eq_some_iff.mp hstep
      rw [List.cons_append, scan_cons, step_lead hn] at hrest
      cases hrest

theorem prefix_of_prefix_escape {p : Bytes} (hp : 0xE2 ∉ p) (h : p <+: escapeWhitespace text) : p <+: text := by
  induction text generalizing p with
  | nil => exact h
  | cons b text ih =>
    cases p with
    | nil => exact List.nil_prefix
    | cons a p =>
      obtain ⟨ha, hp⟩ := not_or.mp fun hmem ↦ hp (List.mem_cons.mpr hmem)
      have hcons : escapeWhitespace (b :: text) = (if b = 0x20 then mark else [b]) ++ escapeWhitespace text := rfl
      rw [hcons] at h
      split at h
      · exact absurd (List.cons_prefix_cons.mp h).1.symm ha
      · obtain ⟨rfl, hrest⟩ := List.cons_prefix_cons.mp h
        exact List.cons_prefix_cons.mpr ⟨rfl, ih hp hrest⟩

/-- What has no byte of a mark in front stands in the text where it stands in the escaped text. -/
theorem infix_of_infix_escape {p : Bytes} (hp : ∀ b ∈ p, b ∉ mark) (h : p <:+: escapeWhitespace text) :
    p <:+: text := by
  have hhead : ∀ {m rest : Bytes}, (∀ b ∈ m, b ∈ mark) → m ≠ [] → p <+: m ++ rest → p = [] := by
    intro m rest hm hne hpre
    cases m with
    | nil => exact absurd rfl hne
    | cons b m =>
      cases p with
      | nil => rfl
      | cons a p =>
        have hab := (List.cons_prefix_cons.mp hpre).1
        exact absurd (hab ▸ hm b List.mem_cons_self) (hp a List.mem_cons_self)
  have hskip : ∀ {m rest : Bytes}, (∀ b ∈ m, b ∈ mark) → p <:+: m ++ rest → p = [] ∨ p <:+: rest := by
    intro m rest hm hinf
    induction m with
    | nil => exact .inr hinf
    | cons b m ih =>
      rcases List.infix_cons_iff.mp hinf with hpre | hinf
      · exact .inl (hhead hm (List.cons_ne_nil _ _) hpre)
      · exact ih (fun b hb ↦ hm b (List.mem_cons_of_mem _ hb)) hinf
  induction text with
  | nil => exact h
  | cons b text ih =>
    have hcons : escapeWhitespace (b :: text) = (if b = 0x20 then mark else [b]) ++ escapeWhitespace text := rfl
    by_cases hb : b = 0x20
    · rw [hcons, if_pos hb] at h
      rcases hskip (fun _ hmem ↦ hmem) h with rfl | hinf
      · exact List.nil_infix
      · exact List.infix_cons (ih hinf)
    · rw [hcons, if_neg hb] at h
      rcases List.infix_cons_iff.mp h with hpre | hinf
      · refine (prefix_of_prefix_escape (fun hmem ↦ hp _ hmem (by decide)) ?_).isInfix
        rwa [hcons, if_neg hb]
      · exact List.infix_cons (ih hinf)

theorem hex_range (ch : UInt8) : (hex (ch >>> 4) > 0x20 ∧ hex (ch >>> 4) < 0x80) ∧
    hex (ch &&& 15) > 0x20 ∧ hex (ch &&& 15) < 0x80 :=
  byte_cases (p := fun ch ↦ (hex (ch >>> 4) > 0x20 ∧ hex (ch >>> 4) < 0x80) ∧
    hex (ch &&& 15) > 0x20 ∧ hex (ch &&& 15) < 0x80) (by decide +kernel) ch

theorem byteText_ascii (ch : UInt8) : ∀ b ∈ byteText ch, b ∉ mark ∧ b ≠ 0x20 := by
  obtain ⟨hhigh, hlow⟩ := hex_range ch
  have hascii : ∀ b : UInt8, b > 0x20 ∧ b < 0x80 → b ∉ mark ∧ b ≠ 0x20 := by
    rintro b ⟨hgt, hlt⟩
    have hmark : ∀ c ∈ mark, ¬c < 0x80 := by
      rw [mark, List.forall_mem_cons, List.forall_mem_cons, List.forall_mem_singleton]
      decide
    refine ⟨fun hmem ↦ hmark b hmem hlt, fun heq ↦ ?_⟩
    rw [heq] at hgt
    exact absurd hgt (by decide)
  simp only [byteText, List.forall_mem_cons]
  exact ⟨hascii _ (by decide), hascii _ (by decide), hascii _ (by decide), hascii _ hhigh, hascii _ hlow,
    hascii _ (by decide), fun _ hmem ↦ absurd hmem List.not_mem_nil⟩

theorem tokenToByte_byteText (ch : UInt8) : tokenToByte (byteText ch) = ch :=
  byte_cases (p := fun ch ↦ tokenToByte (byteText ch) = ch) (by decide +kernel) ch

/-- A text that every vocabulary of this kind can render: whole characters, no mark and no text of a byte token. -/
structure Plain (text : Bytes) : Prop where
  whole : Whole text
  mark : ¬mark <:+: text
  byte : ∀ ch, ¬byteText ch <:+: text

theorem Plain.of_infix (h : Plain text) (hbs : Whole bs) (hinf : bs <:+: text) : Plain bs :=
  ⟨hbs, fun hmark ↦ h.mark (hmark.trans hinf), fun ch hbyte ↦ h.byte ch (hbyte.trans hinf)⟩

theorem Plain.blank (h : Plain text) : Plain (0x20 :: text) := by
  refine ⟨(show Whole [0x20] from rfl).append.mpr h.whole, fun hmark ↦ ?_, fun ch hbyte ↦ ?_⟩
  · rcases List.infix_cons_iff.mp hmark with hpre | hinf
    · exact absurd (List.cons_prefix_cons.mp hpre).1 (by decide)
    · exact h.mark hinf
  · rcases List.infix_cons_iff.mp hbyte with hpre | hinf
    · exact absurd (List.cons_prefix_cons.mp hpre).1 (by decide)
    · exact h.byte ch hinf

/-! Rendering -/

section Renders

variable {Score : Type} {v : Vocab Score} {data : TokenData Score} {token id : ℕ}

/-- How a token of the vocabulary is rendered. -/
inductive Kind (data : TokenData Score) : Prop
  | special (hspecial : data.attr.special) (hwhole : Whole data.text) (hmark : ¬Vocab.mark <:+: data.text)
  | normal (hspecial : ¬data.attr.special) (hnormal : data.attr.normal)
  | byte (ch : UInt8) (hspecial : ¬data.attr.special) (hnormal : ¬data.attr.normal) (hbyte : data.attr.byte)
      (htext : data.text = byteText ch)

/-- A vocabulary that has a token for every byte and for the mark, whose special tokens are whole texts without a mark,
and which has the tokens that it puts at the ends of a text. -/
structure Renders (v : Vocab Score) : Prop where
  unstripped : Unstripped v
  kind : ∀ data ∈ v.idToToken, Kind data
  known_mark : Spm.Known v mark
  byte : ∀ ch, ∃ data ∈ v.idToToken, data.text = byteText ch ∧ ¬data.attr.special ∧ ¬data.attr.normal
  bos : v.addBos → v.specialBosId.isSome
  eos : v.addEos → v.specialEosId.isSome

theorem textToToken_eq_some (h : v.textToToken text = some token) :
    ∃ data, v.idToToken[token]? = some data ∧ data.text = text := by
  obtain ⟨hlt, htext, -⟩ := List.findIdx?_eq_some_iff_getElem.mp h
  exact ⟨_, List.getElem?_eq_getElem hlt, of_decide_eq_true htext⟩

theorem tokenToPiece_special (hid : v.idToToken[token]? = some data) (hspecial : data.attr.special) :
    v.tokenToPiece token = data.text := by
  unfold tokenToPiece
  rw [hid]
  exact if_pos hspecial

theorem tokenToPiece_normal (hid : v.idToToken[token]? = some data) (hspecial : ¬data.attr.special)
    (hnormal : data.attr.normal) : v.tokenToPiece token = unescapeWhitespace data.text := by
  unfold tokenToPiece
  rw [hid]
  dsimp only
  rw [if_neg hspecial, if_pos hnormal]

theorem tokenToPiece_byte (hid : v.idToToken[token]? = some data) (hspecial : ¬data.attr.special)
    (hnormal : ¬data.attr.normal) (hbyte : data.attr.byte) : v.tokenToPiece token = [tokenToByte data.text] := by
  unfold tokenToPiece
  rw [hid]
  dsimp only
  rw [if_neg hspecial, if_neg hnormal, if_pos hbyte]

theorem Renders.byteToToken (hv : Renders v) (ch : UInt8) :
    ∃ token, v.byteToToken ch = some token ∧ v.tokenToPiece token = [ch] := by
  obtain ⟨data, hmem, htext, hspecial, hnormal⟩ := hv.byte ch
  have hknown : (v.textToToken (byteText ch)).isSome := by
    refine List.findIdx?_isSome.trans (List.any_eq_true.mpr ⟨data, hmem, ?_⟩)
    exact decide_eq_true htext
  obtain ⟨token, htoken⟩ := Option.isSome_iff_exists.mp hknown
  obtain ⟨data', hid, htext'⟩ := textToToken_eq_some htoken
  have hsame : data' = data :=
    List.inj_on_of_nodup_map v.nodup (List.mem_of_getElem? hid) hmem (htext'.trans htext.symm)
  subst hsame
  refine ⟨token, ?_, ?_⟩
  · rw [Vocab.byteToToken, htoken]
    rfl
  · cases hv.kind data' hmem with
    | special hspecial' => exact absurd hspecial' hspecial
    | normal _ hnormal' => exact absurd hnormal' hnormal
    | byte ch' _ _ hbyte =>
      rw [tokenToPiece_byte hid hspecial hnormal hbyte, htext, tokenToByte_byteText]

theorem Renders.bytes (hv : Renders v) (part : Bytes) :
    ∃ tokens, part.mapM v.byteToToken = some tokens ∧ tokens.flatMap v.tokenToPiece = part := by
  induction part with
  | nil => exact ⟨[], rfl, rfl⟩
  | cons ch part ih =>
    obtain ⟨token, htoken, hpiece⟩ := hv.byteToToken ch
    obtain ⟨tokens, htokens, hpieces⟩ := ih
    refine ⟨token :: tokens, ?_, ?_⟩
    · rw [List.mapM_cons, htoken, htokens]
      rfl
    · rw [List.flatMap_cons, hpiece, hpieces]
      rfl

theorem map_unescapeChar {g : List Bytes} (h : ¬mark <:+: g.flatten) : g.map unescapeChar = g := by
  refine (List.map_congr_left fun c hc ↦ if_neg fun heq ↦ h ?_).trans (List.map_id g)
  obtain ⟨before, after, rfl⟩ := List.append_of_mem hc
  rw [List.flatten_append, List.flatten_cons, heq]
  exact ⟨before.flatten, after.flatten, by rw [List.append_assoc]⟩

/-- A run of characters is rendered as the run with blanks for its marks. -/
theorem Renders.encode (hv : Renders v) {g : List Bytes} (hg : ∀ c ∈ g, IsGroup c)
    (hbyte : ∀ ch, ¬byteText ch <:+: g.flatten) (hone : g.length = 1 ∨ g ≠ [] ∧ Spm.Known v g.flatten) :
    ∃ tokens, Spm.encode v g.flatten = some tokens ∧
      tokens.flatMap v.tokenToPiece = (g.map unescapeChar).flatten := by
  cases htoken : v.textToToken g.flatten with
  | some token =>
    refine ⟨[token], by rw [Spm.encode, htoken], ?_⟩
    rw [List.flatMap_singleton]
    obtain ⟨data, hid, htext⟩ := textToToken_eq_some htoken
    cases hv.kind data (List.mem_of_getElem? hid) with
    | special hspecial _ hmark =>
      rw [htext] at hmark
      rw [tokenToPiece_special hid hspecial, htext, map_unescapeChar hmark]
    | normal hspecial hnormal =>
      rw [tokenToPiece_normal hid hspecial hnormal, htext, unescapeWhitespace_flatten hg]
    | byte ch _ _ _ htext' =>
      have hinf : byteText ch <:+: g.flatten := by rw [← htext', htext]
      exact absurd hinf (hbyte ch)
  | none =>
    rcases hone with hone | ⟨-, hknown⟩
    · obtain ⟨c, rfl⟩ := List.length_eq_one_iff.mp hone
      obtain ⟨tokens, htokens, hpieces⟩ := hv.bytes c
      have hc : c ≠ mark := by
        intro heq
        have hmark := hv.known_mark
        rw [List.flatten_singleton, heq] at htoken
        rw [Spm.Known, htoken] at hmark
        cases hmark
      refine ⟨tokens, ?_, ?_⟩
      · rw [Spm.encode, htoken]
        dsimp only
        rwa [List.flatten_singleton]
      · rw [hpieces, List.map_singleton, List.flatten_singleton]
        exact (if_neg hc).symm
    · rw [Spm.Known, htoken] at hknown
      cases hknown

theorem Renders.groups (hv : Renders v) {groups : List (List Bytes)} (hgroup : ∀ c ∈ groups.flatten, IsGroup c)
    (hbyte : ∀ ch, ¬byteText ch <:+: groups.flatten.flatten)
    (hone : ∀ g ∈ groups, g.length = 1 ∨ g ≠ [] ∧ Spm.Known v g.flatten) :
    ∃ parts, (groups.mapM fun g ↦ Spm.encode v g.flatten) = some parts ∧
      parts.flatten.flatMap v.tokenToPiece = (groups.flatten.map unescapeChar).flatten := by
  induction groups with
  | nil => exact ⟨[], rfl, rfl⟩
  | cons g groups ih =>
    rw [List.flatten_cons, List.forall_mem_append] at hgroup
    rw [List.forall_mem_cons] at hone
    simp only [List.flatten_cons, List.flatten_append] at hbyte
    have hleft : ∀ ch, ¬byteText ch <:+: g.flatten :=
      fun ch hinf ↦ hbyte ch (hinf.trans (List.prefix_append ..).isInfix)
    have hright : ∀ ch, ¬byteText ch <:+: groups.flatten.flatten :=
      fun ch hinf ↦ hbyte ch (hinf.trans (List.suffix_append ..).isInfix)
    obtain ⟨tokens, htokens, hpieces⟩ := hv.encode hgroup.1 hleft hone.1
    obtain ⟨parts, hparts, hrest⟩ := ih hgroup.2 hright hone.2
    refine ⟨tokens :: parts, ?_, ?_⟩
    · rw [List.mapM_cons, htokens, hparts]
      rfl
    · rw [List.flatten_cons, List.flatMap_append, hpieces, hrest, List.flatten_cons, List.map_append,
        List.flatten_append]

/-- The text of the fragments with the blanks that are put before them. -/
def spacedText (v : Vocab Score) : Bool → List Fragment → Bytes
  | _, [] => []
  | isPrevSpecial, .rawText raw :: buffer => spaced v isPrevSpecial raw ++ spacedText v false buffer
  | _, .token id :: buffer => (Fragment.token id).text v ++ spacedText v true buffer

/-- The fragments that the tokenizer renders: plain texts that are not empty, and special tokens. -/
def Plain.Fragment (v : Vocab Score) : Llama.Fragment → Prop
  | .rawText raw => raw ≠ [] ∧ Plain raw
  | .token id => ∃ data, v.idToToken[id]? = some data ∧ data.attr.special

theorem Plain.spaced (h : Plain text) (isPrevSpecial : Bool) : Plain (spaced v isPrevSpecial text) := by
  unfold Llama.spaced
  split
  · exact h.blank
  · exact h

theorem spaced_ne_nil (h : text ≠ []) (isPrevSpecial : Bool) : spaced v isPrevSpecial text ≠ [] := by
  unfold spaced
  split
  · exact List.cons_ne_nil _ _
  · exact h

theorem spacedText_eq (h : v.addSpacePrefix = false) (isPrevSpecial : Bool) (buffer : List Fragment) :
    spacedText v isPrevSpecial buffer = buffer.flatMap (Fragment.text v) := by
  induction buffer generalizing isPrevSpecial with
  | nil => rfl
  | cons f buffer ih =>
    cases f with
    | rawText raw =>
      rw [spacedText, ih, List.flatMap_cons, spaced, h]
      rfl
    | token id => rw [spacedText, ih, List.flatMap_cons]

/-- A special token stands between plain texts wherever it is cut out of one. -/
theorem Renders.plain (hv : Renders v) (htext : Plain text) (parseSpecial : Bool) :
    ∀ f ∈ Llama.fragments v parseSpecial text, Plain.Fragment v f := by
  have hparts : ∀ f ∈ Llama.fragments v parseSpecial text, f ≠ .rawText [] → Plain.Fragment v f := by
    refine fragments_forall (fun id hid data hdata ↦ ⟨fun _ ↦ ?_, ?_⟩) fun hne ↦ ⟨fun hnil ↦ hne (hnil ▸ rfl), htext⟩
    · exact v.cache_special id hid
    · intro raw left right hraw hsplit
      obtain ⟨data', hdata', hspecial⟩ := v.cache_special id hid
      obtain rfl : data = data' := Option.some.inj (hdata.symm.trans hdata')
      have hne : data.text ≠ [] := v.text_ne data (List.mem_of_getElem? hdata)
      have heq := splitAtFirst_eq_some hsplit
      have hplain : Plain raw := by
        refine (hraw fun hnil ↦ hne ?_).2
        rw [Fragment.rawText.inj hnil] at heq
        exact (List.append_eq_nil_iff.mp (List.append_eq_nil_iff.mp heq.symm).2).1
      have hwhole : Whole data.text := by
        cases hv.kind data (List.mem_of_getElem? hdata) with
        | special _ hwhole => exact hwhole
        | normal hspecial' => exact absurd hspecial hspecial'
        | byte _ hspecial' => exact absurd hspecial hspecial'
      obtain ⟨hleft, hright⟩ := whole_around (heq ▸ hplain.whole) hwhole hne
      obtain ⟨hlstrip, hrstrip⟩ := hv.unstripped id hid data hdata
      simp only [lstripped, rstripped, hlstrip, hrstrip, Bool.false_eq_true, if_false]
      refine ⟨fun hnil ↦ ⟨fun h ↦ hnil (h ▸ rfl), hplain.of_infix hleft ?_⟩,
        fun hnil ↦ ⟨fun h ↦ hnil (h ▸ rfl), hplain.of_infix hright ?_⟩⟩
      · rw [heq]
        exact (List.prefix_append ..).isInfix
      · rw [heq, ← List.append_assoc]
        exact (List.suffix_append ..).isInfix
  intro f hf
  refine hparts f hf fun hnil ↦ ?_
  exact (fragments_partition hv.unstripped parseSpecial text).nonempty (hnil ▸ hf)

variable [LinearOrder Score] {Q : PriorityQueue (Spm.Bigram Score) Spm.Below}

/-- The tokens of a plain text are rendered as the text. -/
theorem Renders.spm (hv : Renders v) (htext : Plain text) (hne : text ≠ []) :
    ∃ tokens, Spm.tokenize v Q (escapeWhitespace text) = some tokens ∧ tokens.flatMap v.tokenToPiece = text := by
  have hescape : escapeWhitespace text ≠ [] := by
    intro hnil
    have hchars := chars_escapeWhitespace htext.whole
    rw [hnil, chars_eq_nil.mpr rfl] at hchars
    exact hne (chars_eq_nil.mp (List.map_eq_nil_iff.mp hchars.symm))
  obtain ⟨groups, hflat, hone, heq⟩ := Spm.tokenize_groups (v := v) (Q := Q) hescape
  have hchars : groups.flatten = (chars text).map escapeChar := hflat.trans (chars_escapeWhitespace htext.whole)
  have hgroup : ∀ c ∈ groups.flatten, IsGroup c := by
    rw [hchars, List.forall_mem_map]
    exact fun c hc ↦ escapeChar_isGroup (chars_isGroup htext.whole c hc)
  have hbyte : ∀ ch, ¬byteText ch <:+: groups.flatten.flatten := by
    intro ch hinf
    rw [hflat, chars_flatten] at hinf
    exact htext.byte ch (infix_of_infix_escape (fun b hb ↦ (byteText_ascii ch b hb).1) hinf)
  obtain ⟨parts, hparts, hpieces⟩ := hv.groups hgroup hbyte hone
  refine ⟨parts.flatten, by rw [heq, hparts]; rfl, ?_⟩
  have hback : ((chars text).map escapeChar).map unescapeChar = chars text := by
    rw [List.map_map]
    refine (List.map_congr_left fun c hc ↦ unescapeChar_escapeChar fun hmark ↦ htext.mark ?_).trans (List.map_id _)
    obtain ⟨before, after, hsplit⟩ := List.append_of_mem hc
    have hflatten := chars_flatten text
    rw [hsplit, List.flatten_append, List.flatten_cons, hmark] at hflatten
    exact ⟨before.flatten, after.flatten, by rw [List.append_assoc, hflatten]⟩
  rw [hpieces, hchars, hback, chars_flatten]

theorem Renders.fragments (hv : Renders v) {buffer : List Fragment} (h : ∀ f ∈ buffer, Plain.Fragment v f)
    (isPrevSpecial : Bool) : ∃ tokens, tokenizeFragments v Q isPrevSpecial buffer = some tokens ∧
      tokens.flatMap v.tokenToPiece = spacedText v isPrevSpecial buffer := by
  induction buffer generalizing isPrevSpecial with
  | nil => exact ⟨[], rfl, rfl⟩
  | cons f buffer ih =>
    obtain ⟨hf, hbuffer⟩ := List.forall_mem_cons.mp h
    cases f with
    | rawText raw =>
      obtain ⟨hraw, hplain⟩ := hf
      obtain ⟨first, hfirst, hpiece⟩ := hv.spm (Q := Q) (hplain.spaced isPrevSpecial) (spaced_ne_nil (v := v) hraw _)
      obtain ⟨rest, hrest, hpieces⟩ := ih hbuffer false
      refine ⟨first ++ rest, ?_, ?_⟩
      · rw [tokenizeFragments, hfirst, hrest]
        rfl
      · rw [List.flatMap_append, hpiece, hpieces]
        rfl
    | token id =>
      obtain ⟨data, hid, hspecial⟩ := hf
      obtain ⟨rest, hrest, hpieces⟩ := ih hbuffer true
      refine ⟨id :: rest, ?_, ?_⟩
      · rw [tokenizeFragments, hrest]
        rfl
      · rw [List.flatMap_cons, tokenToPiece_special hid hspecial, hpieces, spacedText, Fragment.text, hid]
        rfl

/-- The tokens of a prompt are rendered as the prompt, with the blanks that the vocabulary asks for and the tokens at
its ends. -/
theorem Renders.tokenize (hv : Renders v) (htext : Plain text) (parseSpecial : Bool) :
    ∃ tokens, Llama.tokenize v Q true parseSpecial text = some tokens ∧
      tokens.flatMap v.tokenToPiece = endText v.tokenToPiece v.addBos v.specialBosId ++
        spacedText v true (Llama.fragments v parseSpecial text) ++ endText v.tokenToPiece v.addEos v.specialEosId := by
  obtain ⟨bos, hbos, hbostext⟩ := endToken_eq v.tokenToPiece hv.bos
  obtain ⟨output, houtput, houtputtext⟩ := hv.fragments (Q := Q) (hv.plain htext parseSpecial) true
  obtain ⟨eos, heos, heostext⟩ := endToken_eq v.tokenToPiece hv.eos
  refine ⟨bos ++ output ++ eos, ?_, ?_⟩
  · unfold Llama.tokenize
    simp only [Bool.true_and, hbos, houtput, heos, Option.bind_eq_bind, Option.bind_some, Option.pure_def]
  · rw [List.flatMap_append, List.flatMap_append, hbostext, houtputtext, heostext]

end Renders

/-! The batch of a completion -/

section Completion

variable {Score : Type} [LinearOrder Score] (v : Vocab Score) (Q : PriorityQueue (Spm.Bigram Score) Spm.Below)
  (chatPrompt : List (Str × Bytes) → Except Str Bytes) (isEog : ℕ → Bool)

/-- A model whose prompts are tokenized with a vocabulary; both texts are asked for with their special tokens. -/
def llama : LLMInference.Llama ℕ where
  chatPrompt
  tokenize prompt := (tokenize v Q true true prompt).getD []
  isEog
  piece := v.tokenToPiece

variable {v}

end Completion

/-! A vocabulary of bytes -/

def byteAttr : TokenAttr := ⟨false, false, false, false, true, false, false⟩

def normalAttr : TokenAttr := ⟨false, true, false, false, false, false, false⟩

def controlAttr : TokenAttr := ⟨false, false, true, false, false, false, false⟩

def byteTokens : List (TokenData ℕ) := (List.finRange 256).map fun n ↦ ⟨byteText (UInt8.ofFin n), 0, byteAttr⟩

/-- The tokens `<s>`, the mark, and one for each byte. -/
def byteVocab : Vocab ℕ where
  idToToken := ⟨[0x3C, 0x73, 0x3E], 0, controlAttr⟩ :: ⟨mark, 1, normalAttr⟩ :: byteTokens
  text_ne := by
    simp [byteTokens, mark, byteText]
  nodup := by
    have hinj : Function.Injective fun n : Fin 256 ↦ byteText (UInt8.ofFin n) := by
      intro n m hnm
      have hbyte := congrArg tokenToByte hnm
      dsimp only at hbyte
      rw [tokenToByte_byteText, tokenToByte_byteText] at hbyte
      exact congrArg UInt8.toFin hbyte
    have hbytes : (byteTokens.map (·.text)).Nodup := by
      rw [byteTokens, List.map_map]
      exact (List.nodup_finRange 256).map hinj
    simp [byteTokens, mark, byteText] at hbytes ⊢
    exact hbytes
  cacheSpecialTokens := [0]
  cache_special := by
    intro id hid
    rw [List.mem_singleton.mp hid]
    exact ⟨_, rfl, rfl⟩
  addBos := true
  addEos := false
  addSpacePrefix := false
  specialBosId := some 0
  specialEosId := none

theorem renders_byteVocab : Renders byteVocab where
  unstripped id hid data hdata := by
    rw [List.mem_singleton.mp hid] at hdata
    cases hdata
    exact ⟨rfl, rfl⟩
  kind data hdata := by
    rcases List.mem_cons.mp hdata with rfl | hdata
    · exact .special rfl (by decide) (by decide)
    · rcases List.mem_cons.mp hdata with rfl | hdata
      · exact .normal Bool.false_ne_true rfl
      · obtain ⟨n, -, rfl⟩ := List.mem_map.mp hdata
        exact .byte (UInt8.ofFin n) Bool.false_ne_true Bool.false_ne_true rfl rfl
  known_mark := rfl
  byte ch := by
    refine ⟨_, List.mem_cons_of_mem _ (List.mem_cons_of_mem _ (List.mem_map.mpr ⟨ch.toFin, List.mem_finRange _, rfl⟩)),
      ?_, Bool.false_ne_true, Bool.false_ne_true⟩
    rfl
  bos _ := rfl
  eos h := absurd h Bool.false_ne_true

theorem tokenize_spells_bytes : ∃ tokens, Spm.tokenize byteVocab Spm.workQueue [0x61, 0x62] = some tokens ∧
    Spm.Spells byteVocab tokens [0x61, 0x62] := by
  obtain ⟨hspells, hsome⟩ := Spm.tokenize_spells byteVocab Spm.workQueue [0x61, 0x62] (by decide)
  have htokens := hsome fun ch _ ↦ by
    obtain ⟨token, htoken, -⟩ := renders_byteVocab.byteToToken ch
    rw [htoken]
    rfl
  obtain ⟨tokens, htokens⟩ := Option.isSome_iff_exists.mp htokens
  exact ⟨tokens, htokens, (hspells tokens htokens).1⟩

end Aigentik.Llama
