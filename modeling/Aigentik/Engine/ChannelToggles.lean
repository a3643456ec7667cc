import Aigentik.Core.MessageEngine
import Aigentik.Effects.Execution
import Mathlib.Logic.Function.Basic

namespace Aigentik.ChannelToggles

open Strings Effects MessageEngine ChannelManager AdminAuthManager

/-- The state of the channels in memory, and the preferences. -/
structure Switches where
  channelState : Channel → Bool
  prefs : Str → Option Bool

def channelKey (channelName : Str) : Str := "channel_enabled_" ++ channelName

def Switches.setChannelEnabled (s : Switches) (channelName : Str) (enabled : Bool) : Switches :=
  { s with prefs := Function.update s.prefs (channelKey channelName) (some enabled) }

def Switches.getChannelEnabled (s : Switches) (channelName : Str) (default : Bool) : Bool :=
  (s.prefs (channelKey channelName)).getD default

def Switches.set (s : Switches) (ch : Channel) (enabled : Bool) : Switches :=
  { s with channelState := Function.update s.channelState ch enabled }.setChannelEnabled ch.name enabled

/-- What is loaded when the app starts again. -/
def Switches.stored (s : Switches) (ch : Channel) : Bool := s.getChannelEnabled ch.name true

variable (P : Platform) (cfg : EngineConfig) (others : (op : EngineOp) → engineSig.Resp op)

/-- The channel manager answers for itself, and everything else may answer anything. -/
def switchSem : (op : EngineOp) → Switches → engineSig.Resp op × Switches
  | .act (.channelEnable ch), s => ((), s.set ch true)
  | .act (.channelDisable ch), s => ((), s.set ch false)
  | .act (.channelIsEnabled ch), s => (s.channelState ch, s)
  | op, s => (others op, s)

def keywords : Channel → List Str
  | .sms => ["sms", "text", "phone", "direct"]
  | .gvoice => ["voice", "gvoice", "google voice"]
  | .email => ["email", "mail", "gmail"]

/-- Whether the word stands in the text, with no word character on either side. -/
def hasWord (word : Str) : Option Char → Str → Bool
  | _, [] => false
  | previous, c :: s =>
    (!previous.any P.isWordChar && startsWith (c :: s) word && !((c :: s).drop word.length).head?.any P.isWordChar) ||
      hasWord word (some c) s

/-- The input asks for one channel: by a keyword of its own, and without the words for all of them. -/
structure NamesOne (input : Str) (ch : Channel) (enable : Bool) : Prop where
  parsed : parseToggleCommand P (P.lowercase input) = some (ch, enable)
  keyword : ∃ w ∈ keywords ch, contains (P.lowercase (P.lowercase input)) w = true
  not_all : hasWord P "all" none (P.lowercase input) = false
  not_everything : hasWord P "everything" none (P.lowercase input) = false

/-- The pending command that a confirmation releases. -/
def released (message : Message) : Option Str :=
  (others (.auth (.pendingGet message.sender)) : Option Str).filter fun pending ↦
    P.equalsIgnoreCase (trim (confirmed (trim message.body))) (trim pending)

/-- The command that is carried out: the input, or what it confirms, if the destructive guard lets it through. -/
def carriedOut : ℕ → Message → Bool → Option Str
  | 0, _, _ => none
  | depth + 1, message, skipDestructiveCheck =>
    let rawInput := trim message.body
    if isConfirm P rawInput then
      (released P others message).bind fun pending ↦ carriedOut depth { message with body := pending } true
    else if !skipDestructiveCheck && isDestructiveCommand P rawInput then none
    else some rawInput

/-- The channel is as asked for, in memory and in the preferences, and the others are as they were. -/
def Framed (ch : Channel) (enable : Bool) (s s' : Switches) : Prop :=
  s'.channelState = Function.update s.channelState ch enable ∧ s'.stored = Function.update s.stored ch enable

variable {P cfg others} {s : Switches} {ch : Channel} {enable : Bool}

/-! One channel -/

theorem channelKey_injective : ∀ ch ch' : Channel, channelKey ch.name = channelKey ch'.name → ch = ch' := by
  intro ch ch'
  cases ch <;> cases ch' <;> decide

theorem stored_set (ch : Channel) (enabled : Bool) (s : Switches) :
    (s.set ch enabled).stored = Function.update s.stored ch enabled := by
  funext other
  by_cases h : other = ch
  · rw [h, Function.update_self]
    simp [Switches.stored, Switches.set, Switches.setChannelEnabled, Switches.getChannelEnabled]
  · rw [Function.update_of_ne h]
    have hkey : channelKey other.name ≠ channelKey ch.name := fun heq ↦ h (channelKey_injective _ _ heq)
    simp [Switches.stored, Switches.set, Switches.setChannelEnabled, Switches.getChannelEnabled, hkey]

theorem framed_set (s : Switches) : Framed ch enable s (s.set ch enable) := ⟨rfl, stored_set ch enable s⟩

/-! All channels -/

def Switches.setAll (s : Switches) (enable : Bool) (chs : List Channel) : Switches :=
  chs.foldl (fun s ch ↦ s.set ch enable) s

theorem setAll_channelState (chs : List Channel) (other : Channel) :
    (s.setAll enable chs).channelState other = if other ∈ chs then enable else s.channelState other := by
  induction chs generalizing s with
  | nil => rfl
  | cons ch chs ih =>
    rw [Switches.setAll, List.foldl_cons, ← Switches.setAll, ih]
    by_cases h : other = ch
    · simp [Switches.set, Switches.setChannelEnabled, h]
    · simp [Switches.set, Switches.setChannelEnabled, h]

theorem setAll_stored (chs : List Channel) (other : Channel) :
    (s.setAll enable chs).stored other = if other ∈ chs then enable else s.stored other := by
  induction chs generalizing s with
  | nil => rfl
  | cons ch chs ih =>
    rw [Switches.setAll, List.foldl_cons, ← Switches.setAll, ih, stored_set]
    by_cases h : other = ch
    · simp [h]
    · simp [h]

theorem mem_entries (ch : Channel) : ch ∈ Channel.entries := by
  cases ch <;> decide

theorem framed_setAll : Framed ch enable s (s.setAll enable Channel.entries) ↔
    ∀ other ≠ ch, s.channelState other = enable ∧ s.stored other = enable := by
  have hstate : (s.setAll enable Channel.entries).channelState = fun _ ↦ enable := by
    funext other
    rw [setAll_channelState, if_pos (mem_entries other)]
  have hstored : (s.setAll enable Channel.entries).stored = fun _ ↦ enable := by
    funext other
    rw [setAll_stored, if_pos (mem_entries other)]
  rw [Framed, hstate, hstored]
  constructor
  · intro h other hne
    have hleft := congrFun h.1 other
    have hright := congrFun h.2 other
    rw [Function.update_of_ne hne] at hleft hright
    exact ⟨hleft.symm, hright.symm⟩
  · intro h
    constructor
    · funext other
      by_cases hne : other = ch
      · rw [hne, Function.update_self]
      · rw [Function.update_of_ne hne, (h other hne).1]
    · funext other
      by_cases hne : other = ch
      · rw [hne, Function.update_self]
      · rw [Function.update_of_ne hne, (h other hne).2]

/-! The handler -/

variable (others) in
def actSem (op : ActOp) (s : Switches) : actSig.Resp op × Switches := switchSem others (.act op) s

/-- The calls that leave every channel as it is. -/
def Reads : ActOp → Prop
  | .channelEnable _ | .channelDisable _ => False
  | _ => True

theorem actSem_reads (op : ActOp) (s : Switches) (h : Reads op) : (actSem others op s).2 = s := by
  cases op with
  | channelEnable ch => exact h.elim
  | channelDisable ch => exact h.elim
  | _ => rfl

theorem liftAct_exec (p : Act Unit) : ((liftAct p).exec (switchSem others) s).2 = (p.exec (actSem others) s).2 :=
  congrArg Prod.snd (Prog.exec_lift actHom p)

theorem report_reads (f : Str → Str) : (do notify (f (← statusSummary)) : Act Unit).Calls Reads :=
  (statusSummary_calls fun _ ↦ trivial).bind fun _ ↦ act_calls trivial

theorem replyToSender_reads (message : Message) (reply : AgentLLMFacade.Reply) :
    (replyToSender message reply).Calls Reads := by
  unfold replyToSender
  split
  · have send : (act (.sendReply message.id reply)).Calls Reads := act_calls trivial
    exact (attempt_calls send).bind fun _ ↦ trivial
  · trivial
  · have route : (act (.routeReply message.sender reply)).Calls Reads := act_calls trivial
    exact attempt_calls route
  · have route : (act (.routeReply message.sender reply)).Calls Reads := act_calls trivial
    exact attempt_calls route
  · exact act_calls trivial

theorem announce_reads (message : Message) (text : Str) : (announce message text).Calls Reads := by
  refine ⟨trivial, fun _ ↦ ?_⟩
  dsimp only [Prog.bind]
  split
  · exact replyToSender_reads _ _
  · trivial

theorem announce_exec (message : Message) (text : Str) :
    ((liftAct (announce message text)).exec (switchSem others) s).2 = s := by
  rw [liftAct_exec]
  exact (announce_reads message text).exec_snd actSem_reads

theorem setEnabled_exec : (setEnabled enable ch).exec (actSem others) s = (.ok (), s.set ch enable) := by
  cases enable <;> rfl

theorem setAllEnabled_exec (chs : List Channel) :
    (setAllEnabled enable chs).exec (actSem others) s = (.ok (), s.setAll enable chs) := by
  induction chs generalizing s with
  | nil => rfl
  | cons ch chs ih => exact (Prog.exec_bind_ok setEnabled_exec).trans ih

theorem toggle_exec (lower : Str) : ((toggle lower ch enable).exec (actSem others) s).2 =
    if contains lower "all" || contains lower "everything" then s.setAll enable Channel.entries
    else s.set ch enable := by
  rw [toggle]
  split
  · rw [Prog.exec_bind_ok (setAllEnabled_exec _)]
    exact (report_reads fun summary ↦ "All channels " ++ verb enable ++ ":\n" ++ summary).exec_snd actSem_reads
  · rw [Prog.exec_bind_ok setEnabled_exec]
    exact (report_reads fun summary ↦ ch.name ++ " " ++ verb enable ++ ".\n" ++ summary).exec_snd actSem_reads

theorem runCommand_exec {message : Message} {input : Str}
    (hparsed : parseToggleCommand P (P.lowercase input) = some (ch, enable)) :
    ((runCommand P cfg message input).exec (actSem others) s).2 =
      ((toggle (P.lowercase input) ch enable).exec (actSem others) s).2 := by
  rw [runCommand]
  simp only [hparsed]

/-! The destructive guard -/

theorem consume_exec (message : Message) :
    (liftAuth (consumePendingDestructive P message.sender (confirmed (trim message.body)))).exec
      (switchSem others) s = (.ok (released P others message), s) := by
  unfold consumePendingDestructive released
  obtain ⟨pending, hpending⟩ : ∃ pending : Option Str, others (.auth (.pendingGet message.sender)) = pending :=
    ⟨_, rfl⟩
  simp only [hpending, AdminAuthManager.call, Prog.call_bind, Prog.ret_bind, Prog.lift, Prog.exec_call, switchSem,
    authHom, Equiv.refl_apply]
  cases pending with
  | none => rfl
  | some pending =>
    dsimp only
    by_cases hmatch : P.equalsIgnoreCase (trim (confirmed (trim message.body))) (trim pending)
    · rw [if_pos hmatch, Option.filter_some, if_pos hmatch]
      rfl
    · rw [if_neg hmatch, Option.filter_some, if_neg hmatch]
      rfl

variable (P cfg others s) in
/-- What the handling does to the channels is what the command that is carried out does to them. -/
theorem handleAdminCommand_exec (depth : ℕ) (message : Message) (skipDestructiveCheck : Bool) :
    match carriedOut P others depth message skipDestructiveCheck with
    | none => ((handleAdminCommand P cfg depth message skipDestructiveCheck).exec (switchSem others) s).2 = s
    | some input => ∃ message', ((handleAdminCommand P cfg depth message skipDestructiveCheck).exec
        (switchSem others) s).2 = ((runCommand P cfg message' input).exec (actSem others) s).2 := by
  induction depth generalizing message skipDestructiveCheck with
  | zero => rfl
  | succ depth ih =>
    unfold handleAdminCommand carriedOut
    by_cases hconfirm : isConfirm P (trim message.body) = true
    · simp only [if_pos hconfirm]
      rw [Prog.exec_bind_ok (consume_exec message)]
      cases released P others message with
      | none => exact announce_exec message noPending
      | some pending => exact ih { message with body := pending } true
    · simp only [if_neg hconfirm]
      by_cases hheld : (!skipDestructiveCheck && isDestructiveCommand P (trim message.body)) = true
      · simp only [if_pos hheld]
        exact announce_exec message _
      · simp only [if_neg hheld]
        exact ⟨message, liftAct_exec _⟩

/-- An input that is held back changes no channel. -/
theorem held_back {depth : ℕ} {message : Message} {skipDestructiveCheck : Bool}
    (hheld : carriedOut P others depth message skipDestructiveCheck = none) :
    ((handleAdminCommand P cfg depth message skipDestructiveCheck).exec (switchSem others) s).2 = s := by
  have hexec := handleAdminCommand_exec P cfg others s depth message skipDestructiveCheck
  rw [hheld] at hexec
  exact hexec

theorem carriedOut_exec {depth : ℕ} {message : Message} {skipDestructiveCheck : Bool} {input : Str}
    (hcarried : carriedOut P others depth message skipDestructiveCheck = some input)
    (hparsed : parseToggleCommand P (P.lowercase input) = some (ch, enable)) :
    ((handleAdminCommand P cfg depth message skipDestructiveCheck).exec (switchSem others) s).2 =
      if contains (P.lowercase input) "all" || contains (P.lowercase input) "everything" then
        s.setAll enable Channel.entries
      else s.set ch enable := by
  have hexec := handleAdminCommand_exec P cfg others s depth message skipDestructiveCheck
  rw [hcarried] at hexec
  obtain ⟨message', hrun⟩ := hexec
  rw [hrun, runCommand_exec hparsed, toggle_exec]

/-- Only that channel changes, unless the letters of "all" stand anywhere in the input and
another channel is in the other state. -/
theorem toggle_framed_iff {depth : ℕ} {message : Message} {skipDestructiveCheck : Bool} {input : Str}
    (hcarried : carriedOut P others depth message skipDestructiveCheck = some input)
    (hnames : NamesOne P input ch enable) :
    Framed ch enable s
        ((handleAdminCommand P cfg depth message skipDestructiveCheck).exec (switchSem others) s).2 ↔
      ¬(contains (P.lowercase input) "all" ∨ contains (P.lowercase input) "everything") ∨
        ∀ other ≠ ch, s.channelState other = enable ∧ s.stored other = enable := by
  rw [carriedOut_exec hcarried hnames.parsed]
  by_cases hall : contains (P.lowercase input) "all" ∨ contains (P.lowercase input) "everything"
  · rw [if_pos (by simpa using hall), framed_setAll]
    exact ⟨.inr, fun h ↦ h.resolve_left (not_not_intro hall)⟩
  · rw [if_neg (by simpa using hall)]
    exact ⟨fun _ ↦ .inl hall, fun _ ↦ framed_set s⟩

def chat (body : Str) : Message where
  id := []
  channel := .chat
  sender := "owner"
  senderName := none
  body := body
  timestamp := 0

def fresh : Switches := ⟨fun _ ↦ true, fun _ ↦ none⟩

theorem stop_email_framed :
    Framed .email false fresh
      ((handleAdminCommand asciiPlatform ⟨[], [], []⟩ 1 (chat "stop email") false).exec
        (switchSem quiet) fresh).2 := by
  have hcarried : carriedOut asciiPlatform quiet 1 (chat "stop email") false = some "stop email".toList := by decide
  have hnames : NamesOne asciiPlatform "stop email" .email false :=
    ⟨by decide, ⟨"email", by decide, by decide⟩, by decide, by decide⟩
  exact (toggle_framed_iff hcarried hnames).mpr (.inl (by decide))

/-- The letters of "all" stand in a name, and every channel is paused. -/
theorem sally_pauses_all :
    carriedOut asciiPlatform quiet 1 (chat "stop email from sally") false = some "stop email from sally".toList ∧
      NamesOne asciiPlatform "stop email from sally" .email false ∧
      ¬Framed .email false fresh
        ((handleAdminCommand asciiPlatform ⟨[], [], []⟩ 1 (chat "stop email from sally") false).exec
          (switchSem quiet) fresh).2 := by
  have hcarried : carriedOut asciiPlatform quiet 1 (chat "stop email from sally") false =
      some "stop email from sally".toList := by decide
  have hnames : NamesOne asciiPlatform "stop email from sally" .email false :=
    ⟨by decide, ⟨"email", by decide, by decide⟩, by decide, by decide⟩
  refine ⟨hcarried, hnames, ?_⟩
  rw [carriedOut_exec hcarried hnames.parsed, if_pos (by decide), framed_setAll]
  intro h
  have hsms : true = false := (h .sms (by decide)).1
  cases hsms

end Aigentik.ChannelToggles
