import Aigentik.Email.GmailApiClient
import Aigentik.Strings.Search
import Mathlib.Data.Nat.Find

namespace Aigentik.FromHeader

open Strings GmailApiClient

/-- What `.` does not match. -/
def isLineTerminator (c : Char) : Bool :=
  (10 ≤ c.toNat && c.toNat ≤ 13) || c.toNat == 0x85 || c.toNat == 0x2028 || c.toNat == 0x2029

def InLine (s : Str) : Prop := ∀ c ∈ s, isLineTerminator c = false

instance (s : Str) : Decidable (InLine s) := List.decidableBAll _ _

/-- A mailbox address as it stands in a header. -/
structure Address where
  text : Str
  nonempty : text ≠ []
  unopened : '<' ∉ text
  unclosed : '>' ∉ text
  inLine : InLine text
  trimmed : trim text = text

inductive Mailbox
  | bare
  | named (name : Str)

def Mailbox.header (address : Str) : Mailbox → Str
  | .bare => address
  | .named name => name ++ (' ' :: '<' :: address ++ ['>'])

/-- A response with a `From` header of that form. -/
structure Mail (P : Platform) where
  raw : RawEmail
  mailbox : Mailbox
  address : Address
  header_eq : raw.header P "From" = mailbox.header address.text

/-- A `<` with this behind it opens brackets that the name closes, or the address. -/
def Opens (rest : Str) : Prop :=
  InLine rest ∨ ∃ content after, rest = content ++ '>' :: after ∧ content ≠ [] ∧ InLine content

/-- The name stands for no other address: where it opens brackets first, they hold the address itself. -/
def Mailbox.Honest (address : Str) : Mailbox → Prop
  | .bare => True
  | .named name => ∀ before rest, name = before ++ '<' :: rest → Opens rest →
    (∀ before' rest', name = before' ++ '<' :: rest' → Opens rest' → before.length ≤ before'.length) →
    address ++ ['>'] <+: rest

def addressRegex : Re := .cat [.char '<', .group 1 (.plus false .dot), .char '>']

variable {content content' after after' before name : Str} {address : Address}

theorem parseEmail_eq (sender : Str) : parseEmail sender =
    match addressRegex.find sender with
    | some m => m.group 1
    | none => trim sender := rfl

theorem dot_eq : Re.dot = .one fun c ↦ !isLineTerminator c := rfl

theorem spells_addressRegex {v : Str} :
    addressRegex.Spells v ↔ ∃ content, content ≠ [] ∧ InLine content ∧ v = '<' :: content ++ ['>'] := by
  constructor
  · intro h
    obtain ⟨_, _, ⟨c, hc, rfl⟩, ⟨_, _, hcontent, ⟨_, _, ⟨e, he, rfl⟩, rfl, rfl⟩, rfl⟩, rfl⟩ := h
    obtain ⟨_, _, ⟨d, hd, rfl⟩, ⟨vs, hvs, rfl⟩, rfl⟩ := hcontent
    obtain rfl : c = '<' := eq_of_beq hc
    obtain rfl : e = '>' := eq_of_beq he
    have hline : InLine vs.flatten → InLine (d :: vs.flatten) := fun h ↦
      List.forall_mem_cons.mpr ⟨(Bool.not_eq_true' _).mp hd, h⟩
    refine ⟨d :: vs.flatten, List.cons_ne_nil _ _, hline fun c hc ↦ ?_, by simp⟩
    obtain ⟨w, hw, hc⟩ := List.mem_flatten.mp hc
    obtain ⟨d', hd', rfl⟩ := hvs w hw
    obtain rfl := List.mem_singleton.mp hc
    exact (Bool.not_eq_true' _).mp hd'
  · intro h
    obtain ⟨content, hne, hline, rfl⟩ := h
    cases content with
    | nil => exact absurd rfl hne
    | cons d content =>
      obtain ⟨hd, hline⟩ := List.forall_mem_cons.mp hline
      refine ⟨['<'], _, ⟨'<', rfl, rfl⟩, ⟨d :: content, ['>'],
        ⟨[d], content, ⟨d, (Bool.not_eq_true' _).mpr hd, rfl⟩, ?_, rfl⟩,
        ⟨['>'], [], ⟨'>', rfl, rfl⟩, rfl, rfl⟩, rfl⟩, rfl⟩
      refine ⟨content.map ([·]), fun w hw ↦ ?_, (List.flatMap_singleton' content).symm⟩
      obtain ⟨c, hc, rfl⟩ := List.mem_map.mp hw
      exact ⟨c, (Bool.not_eq_true' _).mpr (hline c hc), rfl⟩

/-- The content ends at the first `>` behind its first character. -/
theorem matchAt_addressRegex {d : Char} (hd : isLineTerminator d = false) (hline : InLine content)
    (hclose : '>' ∉ content) :
    addressRegex.matchAt before ('<' :: d :: content ++ '>' :: after) =
      some ⟨before, '<' :: d :: content ++ ['>'], after, [(1, d :: content)]⟩ := by
  rw [Re.matchAt, addressRegex, Re.cat, Re.cat, Re.cat, Re.cat, Re.plus, dot_eq]
  simp only [List.cons_append, Re.go, Re.char, beq_self_eq_true, if_true, hd, Bool.not_false]
  refine Re.loop_lazy _ (by simpa [InLine] using hline) (by simp) ?_ ?_
  · rintro a (_ | ⟨e, b⟩) rfl hb
    · exact absurd rfl hb
    · have he : ¬e = '>' := fun he ↦ hclose (he ▸ List.mem_append_right a List.mem_cons_self)
      rw [List.cons_append, Re.go, if_neg (by simpa using he)]
  · have hvalue := Re.take_matched ('<' :: d :: content ++ ['>']) after
    have hgroup := Re.take_matched (d :: content) ('>' :: after)
    simp only [List.cons_append, List.append_assoc, List.nil_append] at hvalue hgroup
    rw [Re.go, if_pos (beq_self_eq_true _), hvalue, hgroup]

theorem InLine.append {s t : Str} (hs : InLine s) (ht : InLine t) : InLine (s ++ t) :=
  List.forall_mem_append.mpr ⟨hs, ht⟩

/-- A text is cut at a `>` in one way, if there is none before it. -/
theorem content_unique (h : content ++ '>' :: after = content' ++ '>' :: after') (hclose : '>' ∉ content)
    (hclose' : '>' ∉ content') : content = content' := by
  rcases List.append_eq_append_iff.mp h with ⟨w, rfl, hw⟩ | ⟨w, rfl, hw⟩
  · cases w with
    | nil => exact (List.append_nil content).symm
    | cons c w =>
      obtain rfl := (List.cons.inj hw).1
      exact absurd (List.mem_append_right content List.mem_cons_self) hclose'
  · cases w with
    | nil => exact List.append_nil content'
    | cons c w =>
      obtain rfl := (List.cons.inj hw).1
      exact absurd (List.mem_append_right content' List.mem_cons_self) hclose

/-- What is closed at all is closed by the first `>` behind its first character. -/
theorem exists_content (hne : content ≠ []) (hline : InLine content) : ∃ d content' after',
    content ++ '>' :: after = d :: content' ++ '>' :: after' ∧ isLineTerminator d = false ∧ InLine content' ∧
      '>' ∉ content' := by
  cases content with
  | nil => exact absurd rfl hne
  | cons d content =>
    obtain ⟨hd, hline⟩ := List.forall_mem_cons.mp hline
    by_cases hclose : '>' ∈ content
    · obtain ⟨content', rest, rfl, hclose'⟩ := List.eq_append_cons_of_mem hclose
      refine ⟨d, content', rest ++ '>' :: after, by simp, hd, fun c hc ↦ ?_, hclose'⟩
      exact hline c (List.mem_append_left _ hc)
    · exact ⟨d, content, after, rfl, hd, hline, hclose⟩

/-- Brackets that begin in the name begin where it opens brackets. -/
theorem opens_of_matchAt {a b : Str} (heq : a ++ b = name ++ (' ' :: '<' :: address.text ++ ['>']))
    (hle : a.length ≤ name.length) (hmatch : (addressRegex.matchAt a b).isSome) :
    ∃ rest, name = a ++ '<' :: rest ∧ Opens rest := by
  obtain ⟨v, ⟨after, rfl⟩, hv⟩ := Re.matchAt_isSome_iff.mp hmatch
  obtain ⟨content, hne, hline, rfl⟩ := spells_addressRegex.mp hv
  obtain ⟨v, rfl, hb⟩ : ∃ v, name = a ++ v ∧
      '<' :: content ++ ['>'] ++ after = v ++ (' ' :: '<' :: address.text ++ ['>']) := by
    rcases List.append_eq_append_iff.mp heq with ⟨v, hname, hb⟩ | ⟨v, ha, hb⟩
    · exact ⟨v, hname, hb⟩
    · obtain rfl : v = [] := by
        rw [ha, List.length_append] at hle
        exact List.length_eq_zero_iff.mp (by omega)
      exact ⟨[], by rw [ha, List.append_nil, List.append_nil], hb.symm⟩
  cases v with
  | nil => exact absurd (List.cons.inj hb).1 (by decide)
  | cons c rest =>
    obtain ⟨rfl, htail⟩ := List.cons.inj hb
    have hrest : content ++ '>' :: after = rest ++ (' ' :: '<' :: address.text ++ ['>']) := by simpa using htail
    refine ⟨rest, rfl, ?_⟩
    rcases List.append_eq_append_iff.mp hrest with ⟨w, rfl, hw⟩ | ⟨w, rfl, hw⟩
    · cases w with
      | nil => exact absurd (List.cons.inj hw).1 (by decide)
      | cons c w =>
        obtain ⟨rfl, -⟩ := List.cons.inj hw
        exact .inr ⟨content, w, rfl, hne, hline⟩
    · exact .inl fun c hc ↦ hline c (List.mem_append_left w hc)

theorem Opens.closes {rest : Str} (h : Opens rest) (address : Address) : ∃ content after,
    rest ++ (' ' :: '<' :: address.text ++ ['>']) = content ++ '>' :: after ∧ content ≠ [] ∧ InLine content := by
  rcases h with hline | ⟨content, after, rfl, hne, hline⟩
  · refine ⟨rest ++ (' ' :: '<' :: address.text), [], by simp, by simp, ?_⟩
    exact hline.append (.append (s := [' ', '<']) (by decide) address.inLine)
  · exact ⟨content, after ++ (' ' :: '<' :: address.text ++ ['>']), by simp, hne, hline⟩

theorem parseEmail_of_first {d : Char} (hd : isLineTerminator d = false) (hline : InLine content)
    (hclose : '>' ∉ content)
    (hfirst : ∀ a b, before ++ ('<' :: d :: content ++ '>' :: after) = a ++ b → a.length < before.length →
      addressRegex.matchAt a b = none) :
    parseEmail (before ++ ('<' :: d :: content ++ '>' :: after)) = d :: content := by
  rw [parseEmail_eq, Re.find_of_first (matchAt_addressRegex hd hline hclose) hfirst]
  rfl

theorem parseEmail_unopened (hname : ∀ before rest, name = before ++ '<' :: rest → ¬Opens rest) :
    parseEmail (name ++ (' ' :: '<' :: address.text ++ ['>'])) = address.text := by
  obtain ⟨d, content, htext⟩ := List.exists_cons_of_ne_nil address.nonempty
  have hopen :
      name ++ (' ' :: '<' :: address.text ++ ['>']) = (name ++ [' ']) ++ ('<' :: d :: content ++ '>' :: []) := by
    simp [htext]
  have hline := address.inLine
  have hclose := address.unclosed
  rw [htext] at hline hclose
  obtain ⟨hd, hline⟩ := List.forall_mem_cons.mp hline
  rw [hopen, htext]
  refine parseEmail_of_first hd hline (List.not_mem_of_not_mem_cons hclose) fun a b heq hlt ↦ ?_
  by_contra hmatch
  rw [List.length_append] at hlt
  obtain ⟨rest, hrest, hopens⟩ := opens_of_matchAt (heq.symm.trans hopen.symm) (Nat.le_of_lt_succ hlt)
    (Option.isSome_iff_ne_none.mpr hmatch)
  exact hname a rest hrest hopens

/-- A text that ends in `>` and has no `<` in it does not reach into the address behind the name. -/
theorem prefix_name_iff {rest : Str} : address.text ++ ['>'] <+: rest ++ (' ' :: '<' :: address.text ++ ['>']) ↔
    address.text ++ ['>'] <+: rest := by
  refine ⟨fun ⟨after, h⟩ ↦ ?_, fun h ↦ h.trans (List.prefix_append _ _)⟩
  rcases List.append_eq_append_iff.mp h with ⟨w, hrest, -⟩ | ⟨w, htext, hw⟩
  · exact ⟨w, hrest.symm⟩
  · rcases w with _ | ⟨c, _ | ⟨c', w⟩⟩
    · exact ⟨[], by rw [htext, List.append_nil, List.append_nil]⟩
    · obtain ⟨rfl, -⟩ := List.cons.inj hw
      exact absurd (List.append_inj_right' htext rfl) (by decide)
    · obtain ⟨-, hw⟩ := List.cons.inj hw
      obtain ⟨rfl, -⟩ := List.cons.inj hw
      have hmem : '<' ∈ address.text ++ ['>'] := htext ▸ List.mem_append_right _ (by simp)
      rcases List.mem_append.mp hmem with hmem | hmem
      · exact absurd hmem address.unopened
      · exact absurd (List.mem_singleton.mp hmem) (by decide)

/-- If the name opens brackets, the address is read exactly if they hold it. -/
theorem parseEmail_opened {rest : Str} (hopens : Opens rest)
    (hfirst : ∀ before' rest', before ++ '<' :: rest = before' ++ '<' :: rest' → Opens rest' →
      before.length ≤ before'.length) :
    parseEmail (before ++ '<' :: rest ++ (' ' :: '<' :: address.text ++ ['>'])) = address.text ↔
      address.text ++ ['>'] <+: rest := by
  obtain ⟨_, _, heq, hne, hline⟩ := hopens.closes address
  obtain ⟨d, content, after, hcut, hd, hline, hclose⟩ := exists_content hne hline
  rw [hcut] at heq
  have hread : parseEmail (before ++ '<' :: rest ++ (' ' :: '<' :: address.text ++ ['>'])) = d :: content := by
    have hopen : before ++ '<' :: rest ++ (' ' :: '<' :: address.text ++ ['>']) =
        before ++ ('<' :: d :: content ++ '>' :: after) := by
      rw [List.append_assoc, List.cons_append, heq, List.cons_append, List.cons_append, List.cons_append]
    rw [hopen]
    refine parseEmail_of_first hd hline hclose fun a b hsplit hlt ↦ ?_
    by_contra hmatch
    have hle : a.length ≤ (before ++ '<' :: rest).length := by
      rw [List.length_append]
      omega
    obtain ⟨rest', hrest, hopens'⟩ := opens_of_matchAt (hsplit.symm.trans hopen.symm) hle
      (Option.isSome_iff_ne_none.mpr hmatch)
    exact absurd (hfirst a rest' hrest hopens') (Nat.not_le.mpr hlt)
  rw [hread, ← prefix_name_iff, heq]
  constructor
  · rintro htext
    exact ⟨after, by simp [htext]⟩
  · intro h
    obtain ⟨after', hafter⟩ := h
    obtain ⟨e, text, htext⟩ := List.exists_cons_of_ne_nil address.nonempty
    have hunclosed := address.unclosed
    rw [htext] at hafter hunclosed ⊢
    simp only [List.cons_append, List.append_assoc, List.nil_append, List.cons.injEq] at hafter
    obtain ⟨rfl, hafter⟩ := hafter
    rw [content_unique hafter (List.not_mem_of_not_mem_cons hunclosed) hclose]

theorem parseEmail_bare (address : Address) : parseEmail address.text = address.text := by
  have hnone : addressRegex.find address.text = none := by
    by_contra hfind
    obtain ⟨m, hm⟩ := Option.ne_none_iff_exists'.mp hfind
    obtain ⟨heq, hat, -⟩ := Re.find_eq_some hm
    obtain ⟨-, hspells, -⟩ := Re.matchAt_eq_some hat
    obtain ⟨content, -, -, hvalue⟩ := spells_addressRegex.mp hspells
    exact address.unopened (by rw [heq, hvalue]; simp)
  rw [parseEmail_eq, hnone]
  exact address.trimmed

theorem exists_first (before : Str) {rest : Str} (hopens : Opens rest) :
    ∃ before' rest', before ++ '<' :: rest = before' ++ '<' :: rest' ∧ Opens rest' ∧
      ∀ before'' rest'', before ++ '<' :: rest = before'' ++ '<' :: rest'' → Opens rest'' →
      before'.length ≤ before''.length := by
  classical
  have hex : ∃ n before' rest', before ++ '<' :: rest = before' ++ '<' :: rest' ∧ Opens rest' ∧ before'.length = n :=
    ⟨_, before, rest, rfl, hopens, rfl⟩
  obtain ⟨before', rest', heq, hopens', hlength⟩ := Nat.find_spec hex
  refine ⟨before', rest', heq, hopens', fun before'' rest'' heq' hopens'' ↦ ?_⟩
  rw [hlength]
  exact Nat.find_min' hex ⟨before'', rest'', heq', hopens'', rfl⟩

theorem parseEmail_iff (mailbox : Mailbox) (address : Address) :
    parseEmail (mailbox.header address.text) = address.text ↔ mailbox.Honest address.text := by
  cases mailbox with
  | bare => exact iff_of_true (parseEmail_bare address) trivial
  | named name =>
    by_cases hname : ∃ before rest, name = before ++ '<' :: rest ∧ Opens rest
    · obtain ⟨before, rest, rfl, hopens⟩ := hname
      obtain ⟨before', rest', heq, hopens', hfirst⟩ := exists_first before hopens
      simp only [Mailbox.header, Mailbox.Honest, heq] at hfirst ⊢
      rw [parseEmail_opened hopens' hfirst]
      constructor
      · intro hprefix before'' rest'' heq' hopens'' hfirst'
        have hlength := Nat.le_antisymm (hfirst _ _ heq' hopens'') (hfirst' _ _ rfl hopens')
        obtain ⟨-, hrest⟩ := List.append_inj heq' hlength
        rwa [← (List.cons.inj hrest).2]
      · intro hhonest
        exact hhonest before' rest' rfl hopens' hfirst
    · have hnone (before rest) (heq : name = before ++ '<' :: rest) : ¬Opens rest :=
        fun h ↦ hname ⟨before, rest, heq, h⟩
      exact iff_of_true (parseEmail_unopened hnone) fun before rest heq hopens _ ↦ absurd hopens (hnone before rest heq)

/-- The address is read exactly if the name stands for no other; and then no other mailbox is read as the same one. -/
theorem fromEmail_iff (P : Platform) (mail : Mail P) (messageId : Str) :
    ((mail.raw.parsed P messageId).fromEmail = mail.address.text ↔ mail.mailbox.Honest mail.address.text) ∧
      (mail.mailbox.Honest mail.address.text → ∀ mail' : Mail P, mail'.mailbox.Honest mail'.address.text →
        ∀ messageId', mail'.address.text ≠ mail.address.text →
          (mail'.raw.parsed P messageId').fromEmail ≠ (mail.raw.parsed P messageId).fromEmail) := by
  have hread (mail : Mail P) (messageId : Str) :
      (mail.raw.parsed P messageId).fromEmail = mail.address.text ↔ mail.mailbox.Honest mail.address.text := by
    rw [RawEmail.parsed, mail.header_eq]
    exact parseEmail_iff mail.mailbox mail.address
  refine ⟨hread mail messageId, fun hhonest mail' hhonest' messageId' hne heq ↦ hne ?_⟩
  rw [← (hread mail messageId).mpr hhonest, ← (hread mail' messageId').mpr hhonest', heq]

/-! A quoted name with brackets -/

def mallory : Address :=
  ⟨"m@example.com", by decide, by decide, by decide, by decide, by decide⟩

def spoofed : Mail asciiPlatform where
  raw := ⟨[(some "From".toList, some "\"<boss@x.com>\" <m@example.com>".toList)], none, none, []⟩
  mailbox := .named "\"<boss@x.com>\""
  address := mallory
  header_eq := by decide +kernel

theorem spoofed_fromEmail : (spoofed.raw.parsed asciiPlatform "m1").fromEmail = "boss@x.com" ∧
    (spoofed.raw.parsed asciiPlatform "m1").fromEmail ≠ spoofed.address.text := by
  decide +kernel

end Aigentik.FromHeader
