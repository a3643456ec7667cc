import Aigentik.Ai.AgentLLMFacade
import Aigentik.Strings.Search
import Mathlib.Data.List.Forall2

namespace Aigentik.SimpleCommands

open Strings AgentLLMFacade

/-- Characters that are the same, or that are both visible. -/
def Alike (c d : Char) : Prop := c = d ∨ isWhitespace c = false ∧ isWhitespace d = false

/-- Words are lowercased on their own, and those in ASCII letter by letter. What follows a letter of
the same word can only change how that letter is lowercased. -/
structure LowersWords (P : Platform) : Prop where
  ascii : ∀ s : Str, (∀ c ∈ s, c.toNat < 128) → P.lowercase s = s.map Char.toLower
  spaced : ∀ s t : Str, P.lowercase (s ++ ' ' :: t) = P.lowercase s ++ ' ' :: P.lowercase t
  visible : ∀ s : Str, isBlank (P.lowercase s) = isBlank s
  possessive : ∀ s : Str, ∃ t, P.lowercase (s ++ "'s") = t ++ "'s" ∧ List.Forall₂ Alike t (P.lowercase s)

/-- The command asks for the action, with the name as its target. -/
def Names (P : Platform) (name action : Str) (result : CommandResult) : Prop :=
  result.action = action ∧ result.target = some (trim (P.lowercase name))

/-- The four commands about a contact are understood. -/
structure Understood (P : Platform) (name : Str) : Prop where
  find : Names P name "find_contact" (parseSimpleCommand P ("find " ++ name))
  phone : Names P name "get_contact_phone" (parseSimpleCommand P ("what's " ++ name ++ "'s number"))
  never : Names P name "never_reply_to" (parseSimpleCommand P ("never reply to " ++ name))
  always : Names P name "always_reply_to" (parseSimpleCommand P ("always reply to " ++ name))

def deletedWords : List Str := ["what is", "get", "phone", "number", "'s", "whats"]

/-- What the phone command deletes, wherever it stands. -/
def Deleted (v : Str) : Prop := (∃ d, Re.dot.Spells d ∧ v = "what" ++ d ++ "s") ∨ v ∈ deletedWords

/-- The phone command leaves the text whole when "'s" follows it. -/
def Whole (s : Str) : Prop := (∀ v, Deleted v → ¬v <:+: s) ∧ ¬"what".toList <:+ s

/-- The words for which an "always reply" is taken for something else. -/
def manners : List Str := ["never reply", "formally", "casually", "briefly"]

/-- The lowercased name, as it stands at the end of a trimmed command. -/
def ending (P : Platform) (name : Str) : Str := (P.lowercase name).rdropWhile isWhitespace

/-- The name has none of the words that the four commands are told apart by. -/
structure Clear (P : Platform) (name : Str) : Prop where
  whole : Whole (P.lowercase name)
  lowered : P.lowercase (name ++ "'s") = P.lowercase name ++ "'s"
  not_look_up : startsWith (ending P name) "look up " = false
  no_manner : ∀ w ∈ manners, contains (P.lowercase name) w = false

variable {P : Platform} {name : Str}

/-! The lowered commands -/

theorem ending_ne_nil (hP : LowersWords P) (hname : isBlank name = false) : ending P name ≠ [] := by
  intro hnil
  rw [ending, List.rdropWhile_eq_nil_iff, ← List.all_eq_true, ← isBlank, hP.visible, hname] at hnil
  cases hnil

theorem lower_command (hP : LowersWords P) (hname : isBlank name = false) {f g : Str} (hg : g = f ++ [' '])
    (hf : P.lowercase f = f) (hhead : f.head?.any (!isWhitespace ·) = true) :
    trim (P.lowercase (g ++ name)) = g ++ ending P name := by
  cases f with
  | nil => cases hhead
  | cons c f =>
    have hc : isWhitespace c = false := by simpa using hhead
    rw [hg, List.append_assoc, List.singleton_append, hP.spaced, hf, List.cons_append, trim_cons hc, List.append_cons,
      ← List.cons_append, rdropWhile_append _ (ending_ne_nil hP hname)]
    rfl

theorem trim_ending : trim (ending P name) = trim (P.lowercase name) := trim_rdropWhile

theorem contains_ending {w : Str} {c : Char} (hc : isWhitespace c = false) :
    contains (ending P name) (w ++ [c]) = contains (P.lowercase name) (w ++ [c]) := by
  rw [Bool.eq_iff_iff, contains_iff, contains_iff, ending, infix_rdropWhile_iff hc]

theorem contains_separated {f s w : Str} (hw : ' ' ∉ w) :
    contains (f ++ ' ' :: s) w = (contains f w || contains s w) := by
  rw [Bool.eq_iff_iff, Bool.or_eq_true, contains_iff, contains_iff, contains_iff, infix_separated_iff hw]

/-- The command seems to ask for a phone number. -/
def phoned (s : Str) : Bool := contains s "number" || (contains s "phone" && contains s "what")

theorem phoned_ending : phoned (ending P name) = phoned (P.lowercase name) := by
  have hnumber : contains (ending P name) "number" = contains (P.lowercase name) "number" :=
    contains_ending (w := "numbe") (c := 'r') (by decide)
  have hphone : contains (ending P name) "phone" = contains (P.lowercase name) "phone" :=
    contains_ending (w := "phon") (c := 'e') (by decide)
  have hwhat : contains (ending P name) "what" = contains (P.lowercase name) "what" :=
    contains_ending (w := "wha") (c := 't') (by decide)
  rw [phoned, hnumber, hphone, hwhat, phoned]

theorem phoned_command {f g : Str} (hg : g = f ++ [' ']) (hf : phoned f = false) (hwhat : contains f "what" = false)
    (hphone : contains f "phone" = false) : phoned (g ++ ending P name) = phoned (P.lowercase name) := by
  rw [hg, List.append_assoc, List.singleton_append, ← phoned_ending, phoned, contains_separated (by decide),
    contains_separated (by decide), contains_separated (by decide), hphone, hwhat]
  rw [phoned, hphone, Bool.false_and, Bool.or_false] at hf
  rw [hf]
  rfl

/-! The branches of the parser -/

def sends (s : Str) : Bool := startsWith s "text " || startsWith s "send text"

section

variable {text lower : Str}

theorem parse_phoned (hlower : trim (P.lowercase text) = lower) (hsends : sends lower = false)
    (hphoned : phoned lower = true) : parseSimpleCommand P text =
      ⟨"get_contact_phone", ifEmptyNone (trim (whatsNumberRegex.replaceAll [] lower)), none, false, none⟩ := by
  unfold parseSimpleCommand
  rw [sends] at hsends
  rw [phoned] at hphoned
  simp only [hlower, hsends, hphoned, if_true, Bool.false_eq_true, if_false]

theorem parse_find (hlower : trim (P.lowercase text) = lower) (hsends : sends lower = false)
    (hphoned : phoned lower = false) (hfind : startsWith lower "find " = true) : parseSimpleCommand P text =
      ⟨"find_contact", some (trim (removePrefix (removePrefix lower "find ") "look up ")), none, false, none⟩ := by
  unfold parseSimpleCommand
  rw [sends] at hsends
  rw [phoned] at hphoned
  simp only [hlower, hsends, hphoned, hfind, Bool.true_or, if_true, Bool.false_eq_true, if_false]

def finds (s : Str) : Bool := startsWith s "find " || startsWith s "look up "

theorem parse_never (hlower : trim (P.lowercase text) = lower) (hsends : sends lower = false)
    (hphoned : phoned lower = false) (hfinds : finds lower = false) (hnever : contains lower "never reply" = true) :
    parseSimpleCommand P text =
      ⟨"never_reply_to", some (trim (substringAfter lower "never reply to ")), none, false, none⟩ := by
  unfold parseSimpleCommand
  rw [sends] at hsends
  rw [phoned] at hphoned
  rw [finds] at hfinds
  simp only [hlower, hsends, hphoned, hfinds, hnever, if_true, Bool.false_eq_true, if_false]

/-- An instruction without a manner. -/
def plainly (s : Str) : Bool :=
  contains s "always reply" && !contains s "formally" && !contains s "casually" && !contains s "briefly"

theorem parse_always (hlower : trim (P.lowercase text) = lower) (hsends : sends lower = false)
    (hphoned : phoned lower = false) (hfinds : finds lower = false) (hnever : contains lower "never reply" = false)
    (hplainly : plainly lower = true) : parseSimpleCommand P text =
      ⟨"always_reply_to", some (trim (substringAfter lower "always reply to ")), none, false, none⟩ := by
  unfold parseSimpleCommand
  rw [sends] at hsends
  rw [phoned] at hphoned
  rw [finds] at hfinds
  rw [plainly] at hplainly
  simp only [hlower, hsends, hphoned, hfinds, hnever, hplainly, if_true, Bool.false_eq_true, if_false]

theorem parse_manner (hlower : trim (P.lowercase text) = lower) (hsends : sends lower = false)
    (hphoned : phoned lower = false) (hfinds : finds lower = false) (hnever : contains lower "never reply" = false)
    (halways : contains lower "always reply" = true) (hplainly : plainly lower = false) :
    (parseSimpleCommand P text).action = "set_contact_instructions".toList := by
  have hreply : contains lower "reply" = true :=
    contains_of_infix ((List.suffix_append "always ".toList "reply").isInfix.trans (contains_iff.mp halways))
  have hmanner : (contains lower "formally" || contains lower "casually" || contains lower "briefly") = true := by
    rw [plainly, halways, Bool.true_and] at hplainly
    rw [← Bool.not_eq_false', Bool.not_or, Bool.not_or]
    exact hplainly
  unfold parseSimpleCommand
  rw [sends] at hsends
  rw [phoned] at hphoned
  rw [finds] at hfinds
  rw [plainly] at hplainly
  simp only [hlower, hsends, hphoned, hfinds, hnever, hplainly, hreply, hmanner, Bool.true_or, Bool.true_and,
    if_true, Bool.false_eq_true, if_false]

end

/-! The commands but that for the phone number -/

variable {text lower action : Str}

/-- A command in which a number is asked for is no other command. -/
theorem not_names_of_phoned (hlower : trim (P.lowercase text) = lower) (hsends : sends lower = false)
    (hphoned : phoned lower = true) (haction : "get_contact_phone".toList ≠ action) :
    ¬Names P name action (parseSimpleCommand P text) := by
  rw [parse_phoned hlower hsends hphoned]
  exact fun h ↦ haction h.1

/-- A name that begins with the words of a search loses them. -/
theorem look_up_cut (hlook : startsWith (ending P name) "look up " = true) :
    trim (removePrefix (ending P name) "look up ") ≠ trim (P.lowercase name) := by
  obtain ⟨rest, hrest⟩ := startsWith_iff.mp hlook
  have hself : trim (ending P name) = ending P name := by
    rw [← hrest]
    refine (trim_cons (by decide)).trans ?_
    have hidem := List.rdropWhile_idempotent isWhitespace (P.lowercase name)
    rw [← ending, ← hrest] at hidem
    exact hidem
  intro hcut
  rw [← trim_ending, hself, ← hrest, removePrefix_append] at hcut
  have hlength := trim_length_le rest
  rw [hcut, List.length_append] at hlength
  have hpos : "look up ".toList.length = 8 := rfl
  omega

theorem find_iff (hP : LowersWords P) (hname : isBlank name = false) :
    Names P name "find_contact" (parseSimpleCommand P ("find " ++ name)) ↔
      phoned (P.lowercase name) = false ∧ startsWith (ending P name) "look up " = false := by
  have hlower := lower_command (f := "find") (g := "find ") hP hname rfl (hP.ascii _ (by simp)) (by decide)
  have hphoned : phoned ("find " ++ ending P name) = phoned (P.lowercase name) :=
    phoned_command (f := "find") rfl (by decide) (by decide) (by decide)
  cases hasked : phoned (P.lowercase name) with
  | true => exact iff_of_false (not_names_of_phoned hlower rfl (hphoned.trans hasked) (by decide)) nofun
  | false =>
    rw [parse_find hlower rfl (hphoned.trans hasked) rfl, removePrefix_append]
    cases hlook : startsWith (ending P name) "look up " with
    | true => exact iff_of_false (fun h ↦ look_up_cut hlook (Option.some.inj h.2)) nofun
    | false =>
      refine iff_of_true ⟨rfl, ?_⟩ ⟨rfl, rfl⟩
      rw [removePrefix, hlook, if_neg Bool.false_ne_true, trim_ending]

theorem never_iff (hP : LowersWords P) (hname : isBlank name = false) :
    Names P name "never_reply_to" (parseSimpleCommand P ("never reply to " ++ name)) ↔
      phoned (P.lowercase name) = false := by
  have hlower := lower_command (f := "never reply to") (g := "never reply to ") hP hname rfl
    (hP.ascii _ (by simp)) (by decide)
  have hphoned : phoned ("never reply to " ++ ending P name) = phoned (P.lowercase name) :=
    phoned_command (f := "never reply to") rfl (by decide) (by decide) (by decide)
  cases hasked : phoned (P.lowercase name) with
  | true => exact iff_of_false (not_names_of_phoned hlower rfl (hphoned.trans hasked) (by decide)) nofun
  | false =>
    rw [parse_never hlower rfl (hphoned.trans hasked) rfl rfl, substringAfter_append, trim_ending]
    exact iff_of_true ⟨rfl, rfl⟩ rfl

/-- A word whose first letter is not in the command is in it only where it is in the name. -/
theorem contains_command {g w : Str} {c d : Char} (hc : c ∉ g) (hd : isWhitespace d = false) :
    contains (g ++ ending P name) (c :: w ++ [d]) = contains (P.lowercase name) (c :: w ++ [d]) := by
  rw [← contains_ending hd, Bool.eq_iff_iff, contains_iff, contains_iff, List.cons_append, infix_append_of_not_mem hc]

/-- The command of an instruction that is always followed. -/
def always (P : Platform) (name : Str) : Str := "always reply to " ++ ending P name

theorem contains_always_never : contains (always P name) "never reply" = contains (P.lowercase name) "never reply" :=
  contains_command (g := "always reply to ") (w := "ever repl") (c := 'n') (d := 'y') (by decide) (by decide)

theorem plainly_always : plainly (always P name) = (!contains (P.lowercase name) "formally" &&
    !contains (P.lowercase name) "casually" && !contains (P.lowercase name) "briefly") := by
  have hformally : contains (always P name) "formally" = contains (P.lowercase name) "formally" :=
    contains_command (g := "always reply to ") (w := "ormall") (c := 'f') (d := 'y') (by decide) (by decide)
  have hcasually : contains (always P name) "casually" = contains (P.lowercase name) "casually" :=
    contains_command (g := "always reply to ") (w := "asuall") (c := 'c') (d := 'y') (by decide) (by decide)
  have hbriefly : contains (always P name) "briefly" = contains (P.lowercase name) "briefly" :=
    contains_command (g := "always reply to ") (w := "riefl") (c := 'b') (d := 'y') (by decide) (by decide)
  have halways : contains (always P name) "always reply" = true := rfl
  rw [plainly, halways, hformally, hcasually, hbriefly, Bool.true_and]

theorem no_manner_iff : (∀ w ∈ manners, contains (P.lowercase name) w = false) ↔
    contains (always P name) "never reply" = false ∧ plainly (always P name) = true := by
  rw [contains_always_never, plainly_always]
  simp [manners, and_assoc]

theorem always_iff (hP : LowersWords P) (hname : isBlank name = false) :
    Names P name "always_reply_to" (parseSimpleCommand P ("always reply to " ++ name)) ↔
      phoned (P.lowercase name) = false ∧ ∀ w ∈ manners, contains (P.lowercase name) w = false := by
  have hlower : trim (P.lowercase ("always reply to " ++ name)) = always P name :=
    lower_command (f := "always reply to") (g := "always reply to ") hP hname rfl (hP.ascii _ (by simp)) (by decide)
  have hphoned : phoned (always P name) = phoned (P.lowercase name) :=
    phoned_command (f := "always reply to") rfl (by decide) (by decide) (by decide)
  have hrest : substringAfter (always P name) "always reply to " = ending P name := substringAfter_append _ _
  rw [no_manner_iff]
  cases hasked : phoned (P.lowercase name) with
  | true => exact iff_of_false (not_names_of_phoned hlower rfl (hphoned.trans hasked) (by decide)) nofun
  | false =>
    cases hnever : contains (always P name) "never reply" with
    | true =>
      rw [parse_never hlower rfl (hphoned.trans hasked) rfl hnever]
      have hother : "never_reply_to".toList ≠ "always_reply_to".toList := by decide
      exact iff_of_false (fun h ↦ hother h.1) nofun
    | false =>
      cases hplainly : plainly (always P name) with
      | true =>
        rw [parse_always hlower rfl (hphoned.trans hasked) rfl hnever hplainly, hrest, trim_ending]
        exact iff_of_true ⟨rfl, rfl⟩ ⟨rfl, rfl, rfl⟩
      | false =>
        have haction := parse_manner hlower rfl (hphoned.trans hasked) rfl hnever rfl hplainly
        have hother : "set_contact_instructions".toList ≠ "always_reply_to".toList := by decide
        exact iff_of_false (fun h ↦ hother (haction.symm.trans h.1)) nofun

/-! What the phone command deletes -/

theorem spells_iff {v : Str} : whatsNumberRegex.Spells v ↔ Deleted v := by
  rw [Deleted]
  constructor
  · intro h'
    rcases h' with ⟨a, _, ha, ⟨d, _, hd, ⟨b, _, hb, rfl, rfl⟩, rfl⟩, rfl⟩ | h | h | h | h | h | h
    · rw [Re.spells_text.mp ha, Re.spells_text.mp hb]
      rcases hd with hd | rfl
      · exact .inl ⟨d, hd, rfl⟩
      · exact .inr (by decide)
    all_goals
      rw [Re.spells_text.mp h]
      exact .inr (by decide)
  · intro h'
    rcases h' with ⟨d, hd, rfl⟩ | h
    · exact .inl ⟨"what", d ++ "s", Re.spells_text.mpr rfl,
        ⟨d, "s", .inl hd, ⟨"s", [], Re.spells_text.mpr rfl, rfl, rfl⟩, rfl⟩, rfl⟩
    · simp only [deletedWords, List.mem_cons, List.not_mem_nil, or_false] at h
      have htext {w : Str} (hw : v = w) : (Re.text w).Spells v := Re.spells_text.mpr hw
      exact .inr (h.imp htext (.imp htext (.imp htext (.imp htext (.imp htext htext)))))

def visible (s : Str) : ℕ := s.countP (!isWhitespace ·)

theorem visible_append (s t : Str) : visible (s ++ t) = visible s + visible t := List.countP_append

theorem visible_cons (c : Char) (s : Str) : visible (c :: s) = visible s + if isWhitespace c then 0 else 1 := by
  cases hc : isWhitespace c <;> simp [visible, hc]

theorem Deleted.visible_pos {v : Str} (h : Deleted v) : 0 < visible v := by
  rcases h with ⟨d, -, rfl⟩ | h
  · have hwhat : visible "what" = 4 := by decide
    rw [visible_append, visible_append, hwhat]
    omega
  · revert v
    decide

theorem Deleted.ne_nil {v : Str} (h : Deleted v) : v ≠ [] := by
  intro heq
  subst heq
  exact Nat.lt_irrefl 0 h.visible_pos

/-- Where an apostrophe is deleted, so are the "s" behind it and no more than a "what" before it. -/
theorem Deleted.apostrophe {y q : Str} (h : Deleted (y ++ '\'' :: q)) :
    q = "s".toList ∧ (y = [] ∨ y = "what".toList) := by
  have hmem (y : Str) : '\'' ∈ y ++ '\'' :: q := List.mem_append_right y List.mem_cons_self
  have hwhat : '\'' ∉ "what".toList := by decide
  have hs : '\'' ∉ "s".toList := by decide
  rcases h with ⟨_, ⟨c, -, rfl⟩, h⟩ | h
  · rw [List.append_assoc] at h
    rcases List.append_eq_append_iff.mp h with ⟨as, hy, hrest⟩ | ⟨bs, rfl, hrest⟩
    · rcases List.cons_eq_append_iff.mp hrest with ⟨rfl, hrest⟩ | ⟨as', rfl, -⟩
      · rw [List.append_nil] at hy
        have hq : q = "s".toList := (List.cons.inj hrest).2
        exact ⟨hq, .inr hy.symm⟩
      · exact (hwhat (hy ▸ List.mem_append_right y List.mem_cons_self)).elim
    · rcases List.cons_eq_append_iff.mp hrest with ⟨rfl, hrest⟩ | ⟨bs', rfl, hrest⟩
      · have hq : "s".toList = q := (List.cons.inj hrest).2
        exact ⟨hq.symm, .inr (List.append_nil _)⟩
      · have htail : "s".toList = bs' ++ '\'' :: q := (List.cons.inj hrest).2
        exact (hs (htail ▸ hmem bs')).elim
  · have honly : ∀ w ∈ deletedWords, '\'' ∈ w → w = '\'' :: "s".toList := by decide
    have hword : y ++ '\'' :: q = '\'' :: "s".toList := honly _ h (hmem y)
    rcases List.append_eq_cons_iff.mp hword with ⟨rfl, hrest⟩ | ⟨y', rfl, hrest⟩
    · exact ⟨(List.cons.inj hrest).2, .inl rfl⟩
    · exact (hs (hrest ▸ hmem y')).elim

/-! The phone command -/

def possessive : Str := "'s number"

theorem deleted_mark : Deleted "'s" := .inr (by decide)

theorem deleted_whats : Deleted "what's" := .inl ⟨"'", ⟨'\'', by decide, rfl⟩, rfl⟩

theorem replaceFrom_number {n : ℕ} (hn : n ≠ 0) : whatsNumberRegex.replaceFrom [] n " number" = " ".toList := by
  obtain ⟨n, rfl⟩ := Nat.exists_eq_add_one_of_ne_zero hn
  cases n <;> rfl

/-- Where the first match ends, for a text with "'s number" behind it. -/
theorem find_possessive {s : Str} {m : Re.Match} (hm : whatsNumberRegex.find (s ++ possessive) = some m) :
    Deleted m.value ∧ ((∃ u, s = m.before ++ (m.value ++ u) ∧ m.rest = u ++ possessive) ∨
      m.rest = " number".toList ∧ (s = m.before ∨ s = m.before ++ "what")) := by
  obtain ⟨hs, hat, -⟩ := Re.find_eq_some hm
  obtain ⟨-, hspells, -⟩ := Re.matchAt_eq_some hat
  have hdeleted := spells_iff.mp hspells
  have hle : m.before.length ≤ s.length := by
    obtain ⟨m', hm', hle⟩ := Re.find_of_spells (a := s) (t := " number") (spells_iff.mpr deleted_mark)
    obtain rfl : m' = m := Option.some.inj (hm'.symm.trans hm)
    exact hle
  refine ⟨hdeleted, ?_⟩
  obtain ⟨u, rfl⟩ : m.before <+: s :=
    List.prefix_of_prefix_length_le ⟨_, hs.symm⟩ (List.prefix_append s possessive) hle
  rw [List.append_assoc, List.append_cancel_left_eq] at hs
  rcases List.append_eq_append_iff.mp hs with ⟨as, hvalue, hrest⟩ | ⟨bs, rfl, hrest⟩
  · cases as with
    | nil =>
      rw [List.append_nil] at hvalue
      exact .inl ⟨[], by rw [hvalue, List.append_nil], hrest.symm⟩
    | cons c as =>
      obtain ⟨rfl, htail⟩ : '\'' = c ∧ "s number".toList = as ++ m.rest := List.cons.inj hrest
      rw [hvalue] at hdeleted
      obtain ⟨rfl, hbefore⟩ := hdeleted.apostrophe
      have hnumber : " number".toList = m.rest := (List.cons.inj htail).2
      refine .inr ⟨hnumber.symm, hbefore.imp (fun h ↦ ?_) fun h ↦ by rw [h]⟩
      rw [h, List.append_nil]
  · exact .inl ⟨bs, rfl, hrest⟩

/-- The first match is the "'s" behind the text exactly if the text is left whole. -/
theorem before_eq_iff {s : Str} {m : Re.Match} (hm : whatsNumberRegex.find (s ++ possessive) = some m) :
    m.before = s ↔ Whole s := by
  constructor
  · intro hbefore
    constructor
    · intro v hv h
      obtain ⟨a, b, rfl⟩ := h
      have hpos := List.length_pos_iff.mpr hv.ne_nil
      rw [List.append_assoc, List.append_assoc] at hm
      refine Re.not_spells_of_find hm ?_ (spells_iff.mpr hv)
      rw [hbefore, List.length_append, List.length_append]
      omega
    · intro h
      obtain ⟨a, rfl⟩ := h
      have hm' : whatsNumberRegex.find (a ++ ("what's" ++ " number")) = some m := by
        rw [List.append_assoc] at hm
        exact hm
      refine Re.not_spells_of_find hm' ?_ (spells_iff.mpr deleted_whats)
      have hpos : "what".toList.length = 4 := rfl
      rw [hbefore, List.length_append, hpos]
      omega
  · intro h
    obtain ⟨hnone, hwhat⟩ := h
    obtain ⟨hdeleted, ⟨u, hs, -⟩ | ⟨-, hs | hs⟩⟩ := find_possessive hm
    · exact (hnone _ hdeleted ⟨m.before, u, by rw [hs, List.append_assoc]⟩).elim
    · exact hs.symm
    · exact (hwhat ⟨m.before, hs.symm⟩).elim

theorem find_exists (s : Str) : ∃ m, whatsNumberRegex.find (s ++ possessive) = some m := by
  obtain ⟨m, hm, -⟩ := Re.find_of_spells (a := s) (t := " number") (spells_iff.mpr deleted_mark)
  exact ⟨m, hm⟩

/-- A text that is left whole loses what stands behind it. -/
theorem replaceFrom_whole {s : Str} {n : ℕ} (hs : Whole s) (hn : 2 ≤ n) :
    whatsNumberRegex.replaceFrom [] n (s ++ possessive) = s ++ " " := by
  obtain ⟨m, hm⟩ := find_exists s
  obtain ⟨hdeleted, hcases⟩ := find_possessive hm
  have hbefore := (before_eq_iff hm).mpr hs
  obtain ⟨n, rfl⟩ := Nat.exists_eq_add_of_le' hn
  have hrest : m.rest = " number".toList := by
    rcases hcases with ⟨u, hu, -⟩ | ⟨hrest, -⟩
    · rw [hbefore, List.self_eq_append_right, List.append_eq_nil_iff] at hu
      exact (hdeleted.ne_nil hu.1).elim
    · exact hrest
  rw [Re.replaceFrom_succ [] _ hm hdeleted.ne_nil, hbefore, hrest, replaceFrom_number (Nat.succ_ne_zero n),
    List.append_nil]

/-- No more is left of a text than it has, and less if it is not left whole. -/
theorem visible_replaceFrom {s : Str} {n : ℕ} (hn : s.length + 2 ≤ n) :
    visible (whatsNumberRegex.replaceFrom [] n (s ++ possessive)) ≤ visible s ∧
      (¬Whole s → visible (whatsNumberRegex.replaceFrom [] n (s ++ possessive)) < visible s) := by
  induction n generalizing s with
  | zero => omega
  | succ n ih =>
    obtain ⟨m, hm⟩ := find_exists s
    obtain ⟨hdeleted, hcases⟩ := find_possessive hm
    have hpos := hdeleted.visible_pos
    rw [Re.replaceFrom_succ [] _ hm hdeleted.ne_nil, List.append_nil, visible_append]
    rcases hcases with ⟨u, hs, hrest⟩ | ⟨hrest, hs | hs⟩
    · have hlength : 0 < m.value.length := List.length_pos_iff.mpr hdeleted.ne_nil
      have hle := (ih (s := u) (by rw [hs, List.length_append, List.length_append] at hn; omega)).1
      rw [hrest, hs, visible_append, visible_append]
      omega
    · rw [← before_eq_iff hm, hrest, replaceFrom_number (by omega)]
      have hspace : visible " " = 0 := by decide
      refine ⟨?_, fun h ↦ (h hs.symm).elim⟩
      rw [hspace, ← hs]
      omega
    · rw [hrest, replaceFrom_number (by omega)]
      have hspace : visible " " = 0 := by decide
      have hwhat : visible "what" = 4 := by decide
      have hvisible : visible s = visible m.before + 4 := by rw [← hwhat, ← visible_append, ← hs]
      omega

/-! Texts that are lowercased alike -/

theorem visible_dropWhile (s : Str) : visible (s.dropWhile isWhitespace) = visible s := by
  induction s with
  | nil => rfl
  | cons c s ih =>
    cases hc : isWhitespace c with
    | true => rw [List.dropWhile_cons_of_pos hc, ih, visible_cons, hc, if_pos rfl, Nat.add_zero]
    | false => rw [List.dropWhile_cons_of_neg (by simp [hc])]

theorem visible_trim (s : Str) : visible (trim s) = visible s := by
  have hend (t : Str) : visible (t.rdropWhile isWhitespace) = visible t := by
    rw [visible, List.rdropWhile, List.countP_reverse, ← visible, visible_dropWhile, visible, List.countP_reverse,
      visible]
  rw [trim, hend, visible_dropWhile]

theorem Alike.isWhitespace_eq {c d : Char} (h : Alike c d) : isWhitespace c = isWhitespace d := by
  rcases h with rfl | ⟨hc, hd⟩
  · rfl
  · rw [hc, hd]

section

variable {s t : Str}

theorem visible_alike (h : List.Forall₂ Alike s t) : visible s = visible t := by
  induction h with
  | nil => rfl
  | cons hhead _ ih => rw [visible_cons, visible_cons, ih, hhead.isWhitespace_eq]

theorem dropWhile_alike (h : List.Forall₂ Alike s t) :
    List.Forall₂ Alike (s.dropWhile isWhitespace) (t.dropWhile isWhitespace) := by
  induction h with
  | nil => exact .nil
  | @cons c d s t hhead htail ih =>
    rw [List.dropWhile_cons, List.dropWhile_cons, hhead.isWhitespace_eq]
    split
    · exact ih
    · exact .cons hhead htail

/-- What is cut off in front is blank, and so the same. -/
theorem eq_of_dropWhile (h : List.Forall₂ Alike s t)
    (hdrop : s.dropWhile isWhitespace = t.dropWhile isWhitespace) : s = t := by
  induction h with
  | nil => rfl
  | @cons c d s t hhead htail ih =>
    cases hd : isWhitespace d with
    | true =>
      have hc : isWhitespace c = true := hhead.isWhitespace_eq.trans hd
      rw [List.dropWhile_cons_of_pos hc, List.dropWhile_cons_of_pos hd] at hdrop
      rcases hhead with rfl | ⟨-, hvisible⟩
      · rw [ih hdrop]
      · rw [hvisible] at hd
        cases hd
    | false =>
      have hc : isWhitespace c = false := hhead.isWhitespace_eq.trans hd
      rw [List.dropWhile_cons_of_neg (by simp [hc]), List.dropWhile_cons_of_neg (by simp [hd])] at hdrop
      exact hdrop

theorem eq_of_trim (h : List.Forall₂ Alike s t) (htrim : trim s = trim t) : s = t := by
  refine eq_of_dropWhile h (List.reverse_injective (eq_of_dropWhile ?_ (List.reverse_injective htrim)))
  exact List.forall₂_reverse_iff.mpr (dropWhile_alike h)

end

/-! The phone command -/

theorem Deleted.head_visible {v : Str} (h : Deleted v) : v.head?.any (!isWhitespace ·) = true := by
  rcases h with ⟨d, -, rfl⟩ | h
  · rfl
  · have hall : ∀ w ∈ deletedWords, w.head?.any (!isWhitespace ·) = true := by decide
    exact hall v h

theorem whole_cons (s : Str) : Whole (' ' :: s) ↔ Whole s := by
  have hcons {v : Str} (hv : Deleted v) : v <:+: ' ' :: s ↔ v <:+: s := by
    rw [List.infix_cons_iff]
    refine or_iff_right fun hpre ↦ ?_
    have hhead := hv.head_visible
    rcases List.prefix_cons_iff.mp hpre with rfl | ⟨u, rfl, -⟩
    · cases hhead
    · exact Bool.false_ne_true hhead
  have hsuffix : "what".toList <:+ ' ' :: s ↔ "what".toList <:+ s := by
    rw [List.suffix_cons_iff]
    refine or_iff_right fun heq ↦ ?_
    have hhead : 'w' = ' ' := (List.cons.inj heq).1
    revert hhead
    decide
  rw [Whole, Whole, hsuffix]
  exact and_congr_left' (forall_congr' fun v ↦ forall_congr' fun hv ↦ not_congr (hcons hv))

/-- The words before the name are deleted first. -/
theorem find_whats (t : Str) : ∃ m, whatsNumberRegex.find ("what's" ++ t) = some m ∧ Deleted m.value ∧
    m.before = [] ∧ m.rest = t := by
  obtain ⟨m, hm, hle⟩ := Re.find_of_spells (a := []) (t := t) (spells_iff.mpr deleted_whats)
  have hbefore : m.before = [] := List.length_eq_zero_iff.mp (Nat.le_zero.mp hle)
  obtain ⟨hs, hat, -⟩ := Re.find_eq_some hm
  obtain ⟨-, hspells, -⟩ := Re.matchAt_eq_some hat
  have hdeleted := spells_iff.mp hspells
  refine ⟨m, hm, hdeleted, hbefore, ?_⟩
  rw [hbefore, List.nil_append, List.nil_append] at hs
  rcases hdeleted with ⟨_, ⟨c, -, rfl⟩, hvalue⟩ | hword
  · rw [hvalue] at hs
    exact (List.append_inj_right hs rfl).symm
  · have hother : ∀ w ∈ deletedWords, ¬(w <+: "what's".toList ∨ "what's".toList <+: w) := by decide
    have hvalue : m.value <+: "what's" ++ t := ⟨m.rest, hs.symm⟩
    exact (hother _ hword (List.prefix_or_prefix_of_prefix hvalue (List.prefix_append _ t))).elim

theorem lower_phone (hP : LowersWords P) {t : Str} (ht : P.lowercase (name ++ "'s") = t ++ "'s") :
    trim (P.lowercase ("what's " ++ name ++ "'s number")) = "what's" ++ (' ' :: t ++ possessive) := by
  have hsplit : "what's " ++ name ++ "'s number" =
      "what's".toList ++ ' ' :: ((name ++ "'s") ++ ' ' :: "number".toList) := by
    have hbefore : "what's ".toList = "what's".toList ++ [' '] := rfl
    have hbehind : "'s number".toList = "'s".toList ++ ' ' :: "number".toList := rfl
    rw [hbefore, hbehind]
    simp only [List.append_assoc, List.cons_append, List.nil_append]
  have hjoin : t ++ "'s".toList ++ ' ' :: "number".toList = t ++ possessive := by
    rw [List.append_assoc]
    rfl
  have hbehind : possessive.rdropWhile isWhitespace = possessive := by decide
  have hwhats : P.lowercase "what's" = "what's".toList := hP.ascii _ (by simp)
  have hnumber : P.lowercase "number" = "number".toList := hP.ascii _ (by simp)
  rw [hsplit, hP.spaced, hP.spaced, ht, hwhats, hnumber, hjoin]
  refine (trim_cons (by decide)).trans ?_
  change ("what's".toList ++ (' ' :: t ++ possessive)).rdropWhile isWhitespace = _
  rw [← List.append_assoc, rdropWhile_append _ (by decide), hbehind]

theorem trim_append_space (s : Str) : trim (s ++ " ") = trim s := by
  rw [← trim_rdropWhile, rdropWhile_append_of_all _ (by decide), trim_rdropWhile]

theorem ifEmptyNone_eq_some {s u : Str} (hu : u ≠ []) : ifEmptyNone s = some u ↔ s = u := by
  rw [ifEmptyNone]
  split
  · rename_i hs
    exact iff_of_false nofun fun h ↦ hu (h.symm.trans hs)
  · exact Option.some_inj

theorem phone_iff (hP : LowersWords P) (hname : isBlank name = false) :
    Names P name "get_contact_phone" (parseSimpleCommand P ("what's " ++ name ++ "'s number")) ↔
      Whole (P.lowercase name) ∧ P.lowercase (name ++ "'s") = P.lowercase name ++ "'s" := by
  obtain ⟨t, ht, halike⟩ := hP.possessive name
  have hphoned : phoned ("what's" ++ (' ' :: t ++ possessive)) = true := by
    have hnumber : "number".toList <:+ possessive := List.suffix_append "'s ".toList "number"
    have hend : possessive <:+ "what's" ++ (' ' :: t ++ possessive) :=
      List.suffix_append_of_suffix (List.suffix_append _ _)
    rw [phoned, contains_of_infix (hnumber.trans hend).isInfix, Bool.true_or]
  have hne : trim (P.lowercase name) ≠ [] := by
    rw [ne_eq, trim_eq_nil_iff, hP.visible, hname]
    exact Bool.false_ne_true
  obtain ⟨m, hm, hdeleted, hbefore, hrest⟩ := find_whats (' ' :: t ++ possessive)
  have hlength : (' ' :: t).length + 2 ≤ ("what's".toList ++ (' ' :: t ++ possessive)).length := by
    rw [List.length_append, List.length_append]
    have hfour : "what's".toList.length = 6 := rfl
    omega
  rw [parse_phoned (lower_phone hP ht) rfl hphoned, Names, Re.replaceAll, Re.replaceFrom_succ [] _ hm hdeleted.ne_nil,
    hbefore, hrest, List.append_nil, List.nil_append, ifEmptyNone_eq_some hne, ht, List.append_cancel_right_eq]
  by_cases hwhole : Whole (' ' :: t)
  · have htrim : trim (whatsNumberRegex.replaceFrom [] ("what's" ++ (' ' :: t ++ possessive)).length
        (' ' :: t ++ possessive)) = trim t := by
      rw [replaceFrom_whole hwhole (by omega), trim_append_space]
      exact trim_blank_cons (by decide)
    rw [htrim]
    constructor
    · intro h
      obtain ⟨-, hsame⟩ := h
      obtain rfl := eq_of_trim halike hsame
      exact ⟨(whole_cons _).mp hwhole, rfl⟩
    · intro h
      obtain ⟨-, rfl⟩ := h
      exact ⟨rfl, rfl⟩
  · have hless := (visible_replaceFrom hlength).2 hwhole
    refine iff_of_false ?_ ?_
    · intro h
      obtain ⟨-, hsame⟩ := h
      have hvisible := congrArg visible hsame
      rw [visible_trim, visible_trim, ← visible_alike halike] at hvisible
      have hspace : visible (' ' :: t) = visible t := by
        rw [visible_cons]
        rfl
      rw [hspace] at hless
      exact Nat.ne_of_lt hless hvisible
    · intro h
      obtain ⟨hclear, rfl⟩ := h
      exact hwhole ((whole_cons _).mpr hclear)

/-- A name without a deleted word asks for no number. -/
theorem Whole.not_phoned {s : Str} (h : Whole s) : phoned s = false := by
  have hnot {w : Str} (hw : w ∈ deletedWords) : contains s w = false := by
    rw [← Bool.not_eq_true, contains_iff]
    exact h.1 w (.inr hw)
  rw [phoned, hnot (by decide), hnot (by decide), Bool.false_and, Bool.false_or]

/-- Each of the four commands is told from the others by words that the name must not have. -/
theorem understood_iff (hP : LowersWords P) (hname : isBlank name = false) : Understood P name ↔ Clear P name := by
  constructor
  · intro h
    obtain ⟨hfind, hphone, -, halways⟩ := h
    obtain ⟨-, hlook⟩ := (find_iff hP hname).mp hfind
    obtain ⟨hwhole, hlowered⟩ := (phone_iff hP hname).mp hphone
    exact ⟨hwhole, hlowered, hlook, ((always_iff hP hname).mp halways).2⟩
  · intro h
    obtain ⟨hwhole, hlowered, hlook, hmanner⟩ := h
    have hphoned := hwhole.not_phoned
    exact ⟨(find_iff hP hname).mpr ⟨hphoned, hlook⟩, (phone_iff hP hname).mpr ⟨hwhole, hlowered⟩,
      (never_iff hP hname).mpr hphoned, (always_iff hP hname).mpr ⟨hphoned, hmanner⟩⟩

theorem isWhitespace_letter {c : Char} (hlow : 65 ≤ c.toNat) (hhigh : c.toNat ≤ 122) : isWhitespace c = false := by
  simp [isWhitespace, isSeparator]
  omega

theorem isWhitespace_toLower (c : Char) : isWhitespace c.toLower = isWhitespace c := by
  delta Char.toLower
  split
  · rename_i h
    have hlow : 65 ≤ c.toNat := h.1
    have hhigh : c.toNat ≤ 90 := h.2
    have hadd : (c.val + ('a'.val - 'A'.val)).toNat = c.toNat + 32 := by
      rw [UInt32.toNat_add]
      exact Nat.mod_eq_of_lt (by omega : c.toNat + 32 < 2 ^ 32)
    rw [isWhitespace_letter hlow (by omega)]
    refine isWhitespace_letter ?_ ?_
    · exact (by omega : 65 ≤ c.toNat + 32).trans_eq hadd.symm
    · exact hadd.trans_le (by omega)
  · rfl

theorem asciiPlatform_lowersWords : LowersWords asciiPlatform where
  ascii _ _ := rfl
  spaced s t := List.map_append
  visible s := by
    change (s.map Char.toLower).all isWhitespace = s.all isWhitespace
    rw [List.all_map]
    exact congrArg s.all (funext isWhitespace_toLower)
  possessive s := ⟨s.map Char.toLower, List.map_append, List.forall₂_same.mpr fun _ _ ↦ .inl rfl⟩

theorem ann_understood : Understood asciiPlatform "Ann" := by
  have hwhole : Whole "ann" := by
    refine ⟨?_, by decide⟩
    intro v h hin
    rcases h with ⟨_, ⟨c, -, rfl⟩, rfl⟩ | hword
    · have hlength : 6 ≤ 3 := hin.length_le
      omega
    · have hnot : ∀ w ∈ deletedWords, contains "ann" w = false := by decide
      rw [← contains_iff, hnot v hword] at hin
      cases hin
  exact (understood_iff asciiPlatform_lowersWords (by decide)).mpr ⟨hwhole, rfl, by decide, by decide⟩

/-- The letters of "get" are deleted out of the name. -/
theorem bridget_cut :
    (parseSimpleCommand asciiPlatform ("what's " ++ "Bridget" ++ "'s number")).target = some "brid".toList ∧
      ¬Understood asciiPlatform "Bridget" := by
  have hlowercase : asciiPlatform.lowercase ("what's " ++ "Bridget" ++ "'s number") =
      "what's bridget's number".toList := rfl
  have hlower : trim (asciiPlatform.lowercase ("what's " ++ "Bridget" ++ "'s number")) =
      "what's bridget's number".toList := by
    rw [hlowercase]
    decide +kernel
  have hcut : ifEmptyNone (trim (whatsNumberRegex.replaceAll [] "what's bridget's number")) =
      some "brid".toList := by decide +kernel
  have htarget : (parseSimpleCommand asciiPlatform ("what's " ++ "Bridget" ++ "'s number")).target =
      some "brid".toList := by
    rw [parse_phoned hlower (by decide +kernel) (by decide +kernel), hcut]
  refine ⟨htarget, fun h ↦ ?_⟩
  have hsame := htarget.symm.trans h.phone.2
  revert hsame
  decide

end Aigentik.SimpleCommands
