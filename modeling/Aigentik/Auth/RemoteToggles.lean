import Aigentik.Auth.AgentSettingsViewModel
import Aigentik.Effects.StepRuns
import Aigentik.Engine.ChannelToggles

namespace Aigentik.RemoteToggles

open Strings Effects AgentSettingsViewModel ChannelManager

/-- The two copies of a channel's state: in the map of `ChannelManager`, and in the preferences. -/
inductive Copy
  | live | stored
  deriving DecidableEq

structure Write where
  copy : Copy
  channel : Channel
  enabled : Bool

/-- The writes of `enable` and `disable`. -/
def setWrites (channel : Channel) (enabled : Bool) : List Write :=
  [⟨.live, channel, enabled⟩, ⟨.stored, channel, enabled⟩]

def get (settings : Settings) : Copy → Channel → Bool
  | .live => settings.channelState
  | .stored => settings.channelEnabled

def Write.run (w : Write) (settings : Settings) : Settings :=
  match w.copy with
  | .live => { settings with channelState := Function.update settings.channelState w.channel w.enabled }
  | .stored => { settings with channelEnabled := Function.update settings.channelEnabled w.channel w.enabled }

def writeAll (writes : List Write) (settings : Settings) : Settings :=
  writes.foldl (fun settings w ↦ w.run settings) settings

/-- The switches of the form. -/
def switch (form : AgentSettingsUiState) : Channel → Bool
  | .sms => form.smsEnabled
  | .gvoice => form.gvoiceEnabled
  | .email => form.emailEnabled

def withSwitch (form : AgentSettingsUiState) (enabled : Bool) : Channel → AgentSettingsUiState
  | .sms => { form with smsEnabled := enabled }
  | .gvoice => { form with gvoiceEnabled := enabled }
  | .email => { form with emailEnabled := enabled }

/-- What `load` reads besides the channels. -/
def loadedForm (settings : Settings) : AgentSettingsUiState where
  agentName := settings.agentName
  ownerName := settings.ownerName
  adminNumber := settings.adminNumber
  isPaused := settings.isPaused

def load (settings : Settings) : AgentSettingsUiState :=
  { loadedForm settings with
    smsEnabled := settings.channelEnabled .sms
    gvoiceEnabled := settings.channelEnabled .gvoice
    emailEnabled := settings.channelEnabled .email }

/-- What `save` writes of the channels. -/
def formWrites (form : AgentSettingsUiState) : List Write :=
  Channel.entries.flatMap fun ch ↦ setWrites ch (switch form ch)

def savedForm (form : AgentSettingsUiState) : AgentSettingsUiState :=
  { form with
    adminPassword := []
    adminPasswordConfirm := []
    statusMessage := "Settings saved"
    statusIsError := false }

/-- What the main thread has still to do: `load` with the form that it makes, `save`, and the handler of a switch. -/
inductive Main
  | idle
  | loading (left : List Channel) (form : AgentSettingsUiState)
  | saving (left : List Write)
  | switching (left : List Write)

def Main.pending : Main → List Write
  | .saving left | .switching left => left
  | _ => []

/-- The writes that remote commands have still to make are one list a command; `loaded` is what the last `load` has
read, and `touched` marks the switches that the user has changed since. -/
structure State where
  form : AgentSettingsUiState
  settings : Settings
  main : Main
  commands : List (List Write)
  loaded : Channel → Bool
  touched : Channel → Bool

/-- A new view model, which loads at once. -/
def created (settings : Settings) (commands : List (List Write)) : State where
  form := {}
  settings
  main := .loading Channel.entries (loadedForm settings)
  commands
  loaded := switch {}
  touched _ := false

variable (P : Platform)

/-- The writes of a command whose channel toggle is carried out. -/
def toggleWrites (input : Str) : List Write :=
  let lower := P.lowercase input
  match parseToggleCommand P lower with
  | none => []
  | some (channel, enable) =>
    if contains lower "all" || contains lower "everything" then Channel.entries.flatMap (setWrites · enable)
    else setWrites channel enable

inductive Event
  | load
  | update (block : AgentSettingsUiState → AgentSettingsUiState)
  | switch (ch : Channel) (enabled : Bool)
  | save (salt : List UInt8)
  | proceed
  | command (input : Str)
  | commandWrite (i : ℕ)

def State.updated (s : State) (block : AgentSettingsUiState → AgentSettingsUiState) : State :=
  { s with
    form := block s.form
    touched := fun ch ↦ s.touched ch || RemoteToggles.switch (block s.form) ch != RemoteToggles.switch s.form ch }

/-- What `save` does before the channels. -/
def State.saveBegun (s : State) (salt : List UInt8) : State :=
  let (accepted, form, settings) := save P salt s.form s.settings
  if accepted then
    { s with
      settings := { settings with
        isConfigured := s.settings.isConfigured
        channelEnabled := s.settings.channelEnabled
        channelState := s.settings.channelState }
      main := .saving (formWrites s.form) }
  else { s with form }

/-- The next access of the main thread to a channel, or the end of its call. -/
def proceed (s : State) : Option State :=
  match s.main with
  | .idle => none
  | .loading (ch :: left) form =>
    some { s with main := .loading left (withSwitch form (s.settings.channelEnabled ch) ch) }
  | .loading [] form => some { s with form, loaded := switch form, touched := fun _ ↦ false, main := .idle }
  | .saving (w :: left) => some { s with settings := w.run s.settings, main := .saving left }
  | .saving [] =>
    some { s with settings := { s.settings with isConfigured := true }, form := savedForm s.form, main := .idle }
  | .switching (w :: left) => some { s with settings := w.run s.settings, main := .switching left }
  | .switching [] => some { s with main := .idle }

def step (s : State) : Event → Option State
  | .load => match s.main with
    | .idle => some { s with main := .loading Channel.entries (loadedForm s.settings) }
    | _ => none
  | .update block => match s.main with
    | .idle => some (s.updated block)
    | _ => none
  | .switch ch enabled => match s.main with
    | .idle => some { s.updated (withSwitch · enabled ch) with main := .switching (setWrites ch enabled) }
    | _ => none
  | .save salt => match s.main with
    | .idle => some (s.saveBegun P salt)
    | _ => none
  | .proceed => proceed s
  | .command input => some { s with commands := s.commands ++ [toggleWrites P input] }
  | .commandWrite i => match s.commands[i]? with
    | some (w :: left) => some { s with settings := w.run s.settings, commands := s.commands.set i left }
    | _ => none

abbrev Run : State → List Event → State → Prop := StepRun fun s e s' ↦ step P s e = some s'

/-- At every write to a channel that `save` makes in a run. -/
def AtSaves (s₀ : State) (es : List Event) (Q : State → Write → Prop) : Prop :=
  ∀ earlier s w left, earlier ++ [.proceed] <+: es → Run P s₀ earlier s → s.main = .saving (w :: left) → Q s w

/-- A write of `save` changes a channel only if the user has changed its switch since the last `load`. -/
def SavesOnlyTouched (s₀ : State) (es : List Event) : Prop :=
  AtSaves P s₀ es fun s _ ↦ ∀ s', step P s .proceed = some s' →
    ∀ copy ch, get s'.settings copy ch ≠ get s.settings copy ch → s.touched ch = true

/-- A channel whose switch the user has not changed is, at the write, as the last `load` has read it. -/
def WrittenAsLoaded (s₀ : State) (es : List Event) : Prop :=
  AtSaves P s₀ es fun s w ↦ s.touched w.channel = false → get s.settings w.copy w.channel = s.loaded w.channel

/-- An untouched switch shows what was loaded, and the main thread has still to write what the form shows. -/
structure Consistent (s : State) : Prop where
  untouched : ∀ ch, s.touched ch = false → switch s.form ch = s.loaded ch
  pending : ∀ w ∈ s.main.pending, w.enabled = switch s.form w.channel

variable {P} {s s' s₀ : State} {es : List Event} {w : Write} {left : List Write} {settings : Settings}

/-! Writes -/

theorem get_run (w : Write) (settings : Settings) (copy : Copy) (ch : Channel) :
    get (w.run settings) copy ch =
      if copy = w.copy ∧ ch = w.channel then w.enabled else get settings copy ch := by
  obtain ⟨wcopy, channel, enabled⟩ := w
  by_cases hch : ch = channel
  · subst hch
    cases copy <;> cases wcopy <;> simp [Write.run, get]
  · cases copy <;> cases wcopy <;> simp [Write.run, get, hch]

theorem setWrites_enabled {ch : Channel} {enabled : Bool} (h : w ∈ setWrites ch enabled) :
    w.channel = ch ∧ w.enabled = enabled := by
  rcases List.mem_cons.mp h with rfl | h
  · exact ⟨rfl, rfl⟩
  · rw [List.mem_singleton.mp h]
    exact ⟨rfl, rfl⟩

theorem formWrites_enabled {form : AgentSettingsUiState} (h : w ∈ formWrites form) :
    w.enabled = switch form w.channel := by
  obtain ⟨ch, -, hw⟩ := List.mem_flatMap.mp h
  obtain ⟨hch, henabled⟩ := setWrites_enabled hw
  rw [henabled, hch]

/-- The writes of one channel are what `enable` and `disable` do. -/
theorem run_setWrites (ch : Channel) (enabled : Bool) (settings : Settings) :
    writeAll (setWrites ch enabled) settings = settings.setChannel ch enabled := rfl

/-! The view model -/

theorem saveBegun_cases (s : State) (salt : List UInt8) :
    (∃ message, (save P salt s.form s.settings).1 = false ∧
      s.saveBegun P salt = { s with form := { s.form with statusMessage := message, statusIsError := true } }) ∨
    ∃ settings, save P salt s.form s.settings = store s.form settings ∧
      settings.channelEnabled = s.settings.channelEnabled ∧ settings.channelState = s.settings.channelState ∧
      s.saveBegun P salt =
        { s with
          settings := { settings with
            agentName := if isBlank s.form.agentName then "Aigentik" else s.form.agentName
            ownerName := s.form.ownerName
            adminNumber := s.form.adminNumber
            isPaused := s.form.isPaused }
          main := .saving (formWrites s.form) } := by
  rw [State.saveBegun]
  fun_cases save P salt s.form s.settings with
  | case1 | case2 | case4 | case5 => exact .inl ⟨_, rfl, rfl⟩
  | case3 | case6 => exact .inr ⟨_, rfl, rfl, rfl, rfl⟩

/-! The calls without anything in between -/

theorem save_alone (hidle : s.main = .idle) (salt : List UInt8)
    (h : (save P salt s.form s.settings).1 = true) :
    Run P s (.save salt :: List.replicate 7 .proceed)
      { s with form := (save P salt s.form s.settings).2.1, settings := (save P salt s.form s.settings).2.2 } := by
  rcases saveBegun_cases (P := P) s salt with ⟨message, hrefused, -⟩ | ⟨settings, hsave, -, -, heq⟩
  · rw [h] at hrefused
    cases hrefused
  · apply StepRun.of_foldlM
    have hfirst : step P s (.save salt) = some (s.saveBegun P salt) := by rw [step, hidle]
    rw [List.foldlM_cons, hfirst, heq, hsave, hidle]
    rfl

theorem switch_load (settings : Settings) : switch (load settings) = settings.channelEnabled := by
  funext ch
  cases ch <;> rfl

theorem load_alone (hidle : s.main = .idle) :
    Run P s (.load :: List.replicate 4 .proceed)
      { s with form := load s.settings, loaded := s.settings.channelEnabled, touched := fun _ ↦ false } := by
  apply StepRun.of_foldlM
  have hfirst : step P s .load = some { s with main := .loading Channel.entries (loadedForm s.settings) } := by
    rw [step, hidle]
  rw [List.foldlM_cons, hfirst, ← switch_load, hidle]
  rfl

/-- The channels of the settings are those of the channel manager. -/
def Agree (settings : Settings) (switches : ChannelToggles.Switches) : Prop :=
  settings.channelState = switches.channelState ∧ settings.channelEnabled = switches.stored

theorem Agree.set {switches : ChannelToggles.Switches} (h : Agree settings switches) (ch : Channel) (enabled : Bool) :
    Agree (settings.setChannel ch enabled) (switches.set ch enabled) := by
  constructor
  · exact congrArg (Function.update · ch enabled) h.1
  · rw [ChannelToggles.stored_set, ← h.2]
    rfl

theorem Agree.setAll {switches : ChannelToggles.Switches} (h : Agree settings switches) (enabled : Bool)
    (chs : List Channel) :
    Agree (writeAll (chs.flatMap (setWrites · enabled)) settings) (switches.setAll enabled chs) := by
  induction chs generalizing settings switches with
  | nil => exact h
  | cons ch chs ih =>
    rw [List.flatMap_cons, writeAll, List.foldl_append, ← writeAll, ← writeAll, run_setWrites]
    exact ih (h.set ch enabled)

/-- The writes of a command are what the engine does for it to the channels. -/
theorem toggleWrites_exec {switches : ChannelToggles.Switches} {input : Str} {ch : Channel} {enable : Bool}
    (h : Agree settings switches) (hparsed : parseToggleCommand P (P.lowercase input) = some (ch, enable))
    (cfg : MessageEngine.EngineConfig) (message : Message)
    (others : (op : EngineOp) → engineSig.Resp op) :
    Agree (writeAll (toggleWrites P input) settings)
      ((MessageEngine.runCommand P cfg message input).exec (ChannelToggles.actSem others) switches).2 := by
  rw [ChannelToggles.runCommand_exec hparsed, ChannelToggles.toggle_exec, toggleWrites]
  simp only [hparsed]
  split
  · exact h.setAll enable Channel.entries
  · exact h.set ch enable

theorem switch_savedForm (form : AgentSettingsUiState) : switch (savedForm form) = switch form := by
  funext ch
  cases ch <;> rfl

theorem switch_withSwitch (form : AgentSettingsUiState) (enabled : Bool) (ch ch' : Channel) :
    switch (withSwitch form enabled ch) ch' = if ch' = ch then enabled else switch form ch' := by
  cases ch <;> cases ch' <;> rfl

theorem updated_untouched (block : AgentSettingsUiState → AgentSettingsUiState) {ch : Channel}
    (h : (s.updated block).touched ch = false) :
    s.touched ch = false ∧ switch (block s.form) ch = switch s.form ch := by
  obtain ⟨hbefore, hsame⟩ := Bool.or_eq_false_iff.mp h
  exact ⟨hbefore, by simpa using hsame⟩

/-! What every step keeps -/

theorem created_consistent (settings : Settings) (commands : List (List Write)) :
    Consistent (created settings commands) :=
  ⟨fun _ _ ↦ rfl, fun _ hw ↦ absurd hw List.not_mem_nil⟩

theorem Consistent.updated (h : Consistent s) (block : AgentSettingsUiState → AgentSettingsUiState) (ch : Channel)
    (huntouched : (s.updated block).touched ch = false) : switch (block s.form) ch = s.loaded ch := by
  obtain ⟨hbefore, hsame⟩ := updated_untouched block huntouched
  rw [hsame, h.untouched ch hbefore]

theorem Consistent.saveBegun (h : Consistent s) (hidle : s.main = .idle) (salt : List UInt8) :
    Consistent (s.saveBegun P salt) := by
  rcases saveBegun_cases (P := P) s salt with ⟨message, -, heq⟩ | ⟨settings, -, -, -, heq⟩
  · rw [heq]
    refine ⟨fun ch huntouched ↦ ?_, fun w hw ↦ ?_⟩
    · rw [← h.untouched ch huntouched]
      cases ch <;> rfl
    · rw [hidle] at hw
      exact absurd hw List.not_mem_nil
  · rw [heq]
    exact ⟨h.untouched, fun w hw ↦ formWrites_enabled hw⟩

theorem Consistent.proceed (h : Consistent s) (hstep : proceed s = some s') : Consistent s' := by
  have hpending := h.pending
  unfold RemoteToggles.proceed at hstep
  split at hstep
  · cases hstep
  · cases hstep
    exact ⟨h.untouched, fun _ hw ↦ absurd hw List.not_mem_nil⟩
  · cases hstep
    exact ⟨fun _ _ ↦ rfl, fun _ hw ↦ absurd hw List.not_mem_nil⟩
  · rename_i w left hmain
    cases hstep
    rw [hmain] at hpending
    exact ⟨h.untouched, fun w' hw' ↦ hpending w' (List.mem_cons_of_mem w hw')⟩
  · cases hstep
    refine ⟨fun ch huntouched ↦ ?_, fun _ hw ↦ absurd hw List.not_mem_nil⟩
    rw [switch_savedForm]
    exact h.untouched ch huntouched
  · rename_i w left hmain
    cases hstep
    rw [hmain] at hpending
    exact ⟨h.untouched, fun w' hw' ↦ hpending w' (List.mem_cons_of_mem w hw')⟩
  · cases hstep
    exact ⟨h.untouched, fun _ hw ↦ absurd hw List.not_mem_nil⟩

/-- What a step can be: one of the main thread in its call, the begin of a call, or one of a remote command. -/
theorem step_cases {e : Event} (hstep : step P s e = some s') :
    (e = .proceed ∧ proceed s = some s') ∨
    (s.main = .idle ∧
      ((e = .load ∧ s' = { s with main := .loading Channel.entries (loadedForm s.settings) }) ∨
      (∃ block, e = .update block ∧ s' = s.updated block) ∨
      (∃ ch enabled, e = .switch ch enabled ∧
        s' = { s.updated (withSwitch · enabled ch) with main := .switching (setWrites ch enabled) }) ∨
      ∃ salt, e = .save salt ∧ s' = s.saveBegun P salt)) ∨
    (∃ input, e = .command input ∧ s' = { s with commands := s.commands ++ [toggleWrites P input] }) ∨
    ∃ i w left, e = .commandWrite i ∧ s.commands[i]? = some (w :: left) ∧
      s' = { s with settings := w.run s.settings, commands := s.commands.set i left } := by
  cases e with
  | proceed => exact .inl ⟨rfl, hstep⟩
  | command input => exact .inr (.inr (.inl ⟨input, rfl, (Option.some.inj hstep).symm⟩))
  | commandWrite i =>
    simp only [step] at hstep
    split at hstep
    · rename_i w left hcommand
      exact .inr (.inr (.inr ⟨i, w, left, rfl, hcommand, (Option.some.inj hstep).symm⟩))
    · cases hstep
  | load =>
    simp only [step] at hstep
    split at hstep
    · rename_i hidle
      exact .inr (.inl ⟨hidle, .inl ⟨rfl, (Option.some.inj hstep).symm⟩⟩)
    · cases hstep
  | update block =>
    simp only [step] at hstep
    split at hstep
    · rename_i hidle
      exact .inr (.inl ⟨hidle, .inr (.inl ⟨block, rfl, (Option.some.inj hstep).symm⟩)⟩)
    · cases hstep
  | switch ch enabled =>
    simp only [step] at hstep
    split at hstep
    · rename_i hidle
      exact .inr (.inl ⟨hidle, .inr (.inr (.inl ⟨ch, enabled, rfl, (Option.some.inj hstep).symm⟩))⟩)
    · cases hstep
  | save salt =>
    simp only [step] at hstep
    split at hstep
    · rename_i hidle
      exact .inr (.inl ⟨hidle, .inr (.inr (.inr ⟨salt, rfl, (Option.some.inj hstep).symm⟩))⟩)
    · cases hstep

theorem Consistent.step {e : Event} (h : Consistent s) (hstep : step P s e = some s') : Consistent s' := by
  rcases step_cases hstep with ⟨-, hproceed⟩ | ⟨hidle, hcall⟩ | ⟨input, -, rfl⟩ | ⟨i, w, left, -, -, rfl⟩
  · exact h.proceed hproceed
  · rcases hcall with ⟨-, rfl⟩ | ⟨block, -, rfl⟩ | ⟨ch, enabled, -, rfl⟩ | ⟨salt, -, rfl⟩
    · exact ⟨h.untouched, fun _ hw ↦ absurd hw List.not_mem_nil⟩
    · refine ⟨h.updated block, fun w hw ↦ ?_⟩
      have hnone : w ∈ s.main.pending := hw
      rw [hidle] at hnone
      exact absurd hnone List.not_mem_nil
    · refine ⟨h.updated (withSwitch · enabled ch), fun w hw ↦ ?_⟩
      obtain ⟨rfl, rfl⟩ := setWrites_enabled hw
      exact ((switch_withSwitch s.form w.enabled w.channel w.channel).trans (if_pos rfl)).symm
    · exact h.saveBegun hidle salt
  · exact ⟨h.untouched, h.pending⟩
  · exact ⟨h.untouched, h.pending⟩

theorem Consistent.run (h : Consistent s₀) (hrun : Run P s₀ es s) : Consistent s :=
  hrun.invariant (fun _ _ _ _ hs hstep ↦ hs.step hstep) h

/-! What `save` writes -/

theorem proceed_saving (hmain : s.main = .saving (w :: left)) :
    step P s .proceed = some { s with settings := w.run s.settings, main := .saving left } := by
  rw [step, proceed, hmain]

theorem write_changes_iff (hmain : s.main = .saving (w :: left)) :
    (∀ s', step P s .proceed = some s' →
      ∀ copy ch, get s'.settings copy ch ≠ get s.settings copy ch → s.touched ch = true) ↔
    (get s.settings w.copy w.channel ≠ w.enabled → s.touched w.channel = true) := by
  rw [proceed_saving hmain]
  constructor
  · intro h hne
    refine h _ rfl w.copy w.channel ?_
    rw [get_run, if_pos ⟨rfl, rfl⟩]
    exact hne.symm
  · intro h s' hs' copy ch hne
    cases hs'
    rw [get_run] at hne
    split at hne
    · rename_i hwritten
      obtain ⟨rfl, rfl⟩ := hwritten
      exact h hne.symm
    · exact absurd rfl hne

theorem Consistent.onlyTouched_iff (h : Consistent s) (hmain : s.main = .saving (w :: left)) :
    (∀ s', RemoteToggles.step P s .proceed = some s' →
      ∀ copy ch, get s'.settings copy ch ≠ get s.settings copy ch → s.touched ch = true) ↔
    (s.touched w.channel = false → get s.settings w.copy w.channel = s.loaded w.channel) := by
  have hpending := h.pending
  rw [hmain] at hpending
  rw [write_changes_iff hmain, hpending w List.mem_cons_self]
  constructor
  · intro honly huntouched
    rw [← h.untouched w.channel huntouched]
    by_contra hne
    rw [honly hne] at huntouched
    cases huntouched
  · intro hloaded hne
    by_contra htouched
    have huntouched := Bool.eq_false_iff.mpr htouched
    rw [h.untouched w.channel huntouched] at hne
    exact hne (hloaded huntouched)

/-! Without remote commands -/

/-- The channels that `load` has read are as it has read them, and otherwise the untouched ones are as they were
loaded. -/
def Settled (s : State) : Main → Prop
  | .loading left form => ∀ ch, ch ∉ left → switch form ch = s.settings.channelEnabled ch
  | _ => ∀ copy ch, s.touched ch = false → get s.settings copy ch = s.loaded ch

/-- No command is under way, and the copies agree once the main thread has written what is pending. -/
structure Quiet (s : State) : Prop where
  commands : s.commands = []
  copies : (writeAll s.main.pending s.settings).channelState = (writeAll s.main.pending s.settings).channelEnabled
  settled : Settled s s.main

theorem copies_formWrites (form : AgentSettingsUiState) (settings : Settings) :
    (writeAll (formWrites form) settings).channelState = (writeAll (formWrites form) settings).channelEnabled := by
  funext ch
  cases ch <;> rfl

theorem copies_setWrites (h : settings.channelState = settings.channelEnabled) (ch : Channel) (enabled : Bool) :
    (writeAll (setWrites ch enabled) settings).channelState =
      (writeAll (setWrites ch enabled) settings).channelEnabled :=
  congrArg (fun state : Channel → Bool ↦ Function.update state ch enabled) h

theorem created_quiet (h : settings.channelState = settings.channelEnabled) : Quiet (created settings []) :=
  ⟨rfl, h, fun ch hch ↦ absurd (ChannelToggles.mem_entries ch) hch⟩

theorem get_of_copies (h : settings.channelState = settings.channelEnabled) (copy : Copy) (ch : Channel) :
    get settings copy ch = settings.channelEnabled ch := by
  cases copy with
  | live => exact congrFun h ch
  | stored => rfl

/-- A pending write gives an untouched channel the state that it has. -/
theorem Consistent.settled_write (hc : Consistent s) (hw : w ∈ s.main.pending)
    (h : ∀ copy ch, s.touched ch = false → get s.settings copy ch = s.loaded ch) (copy : Copy) (ch : Channel)
    (huntouched : s.touched ch = false) : get (w.run s.settings) copy ch = s.loaded ch := by
  rw [get_run]
  split
  · rename_i hwritten
    obtain ⟨-, rfl⟩ := hwritten
    rw [hc.pending w hw]
    exact hc.untouched w.channel huntouched
  · exact h copy ch huntouched

theorem Quiet.proceed (h : Quiet s) (hc : Consistent s) (hstep : proceed s = some s') : Quiet s' := by
  have hcopies := h.copies
  have hsettled := h.settled
  unfold RemoteToggles.proceed at hstep
  split at hstep
  · cases hstep
  · rename_i ch left form hmain
    cases hstep
    rw [hmain] at hcopies hsettled
    refine ⟨h.commands, hcopies, fun ch' hch' ↦ ?_⟩
    rw [switch_withSwitch]
    split
    · rename_i heq
      rw [heq]
    · rename_i hne
      exact hsettled ch' fun hmem ↦ (List.mem_cons.mp hmem).elim hne hch'
  · rename_i form hmain
    cases hstep
    rw [hmain] at hcopies hsettled
    exact ⟨h.commands, hcopies, fun copy ch _ ↦
      (get_of_copies hcopies copy ch).trans (hsettled ch List.not_mem_nil).symm⟩
  · rename_i w left hmain
    cases hstep
    have hw : w ∈ s.main.pending := hmain ▸ List.mem_cons_self
    rw [hmain] at hcopies hsettled
    exact ⟨h.commands, hcopies, hc.settled_write hw hsettled⟩
  · rename_i hmain
    cases hstep
    rw [hmain] at hcopies hsettled
    refine ⟨h.commands, hcopies, fun copy ch huntouched ↦ ?_⟩
    rw [← hsettled copy ch huntouched]
    cases copy <;> rfl
  · rename_i w left hmain
    cases hstep
    have hw : w ∈ s.main.pending := hmain ▸ List.mem_cons_self
    rw [hmain] at hcopies hsettled
    exact ⟨h.commands, hcopies, hc.settled_write hw hsettled⟩
  · rename_i hmain
    cases hstep
    rw [hmain] at hcopies hsettled
    exact ⟨h.commands, hcopies, hsettled⟩

theorem Quiet.saveBegun (h : Quiet s) (hidle : s.main = .idle) (salt : List UInt8) : Quiet (s.saveBegun P salt) := by
  have hsettled := h.settled
  rw [hidle] at hsettled
  rcases saveBegun_cases (P := P) s salt with ⟨message, -, heq⟩ | ⟨settings, -, hstored, hlive, heq⟩
  · rw [heq]
    refine ⟨h.commands, h.copies, ?_⟩
    dsimp only
    rw [hidle]
    exact hsettled
  · rw [heq]
    refine ⟨h.commands, copies_formWrites s.form _, fun copy ch huntouched ↦ ?_⟩
    rw [← hsettled copy ch huntouched]
    cases copy with
    | live => exact congrFun hlive ch
    | stored => exact congrFun hstored ch

theorem Quiet.step {e : Event} (h : Quiet s) (hc : Consistent s) (he : ∀ input, e ≠ .command input)
    (hstep : RemoteToggles.step P s e = some s') : Quiet s' := by
  rcases step_cases hstep with ⟨-, hproceed⟩ | ⟨hidle, hcall⟩ | ⟨input, heq, -⟩ | ⟨i, w, left, -, hcommand, -⟩
  · exact h.proceed hc hproceed
  · have hcopies := h.copies
    have hsettled := h.settled
    rw [hidle] at hcopies hsettled
    rcases hcall with ⟨-, rfl⟩ | ⟨block, -, rfl⟩ | ⟨ch, enabled, -, rfl⟩ | ⟨salt, -, rfl⟩
    · exact ⟨h.commands, hcopies, fun ch hch ↦ absurd (ChannelToggles.mem_entries ch) hch⟩
    · refine ⟨h.commands, h.copies, ?_⟩
      rw [show (s.updated block).main = .idle from hidle]
      exact fun copy ch huntouched ↦ hsettled copy ch (updated_untouched block huntouched).1
    · exact ⟨h.commands, copies_setWrites hcopies ch enabled,
        fun copy ch' huntouched ↦ hsettled copy ch' (updated_untouched (withSwitch · enabled ch) huntouched).1⟩
    · exact h.saveBegun hidle salt
  · exact absurd heq (he input)
  · rw [h.commands] at hcommand
    cases hcommand

/-- Where no remote command runs, `save` changes no channel behind the user. -/
theorem savesOnlyTouched_of_no_command (h : settings.channelState = settings.channelEnabled)
    (hes : ∀ e ∈ es, ∀ input, e ≠ .command input) : SavesOnlyTouched P (created settings []) es := by
  intro earlier s w left hpre hrun hmain
  have hboth : Consistent s ∧ Quiet s := by
    refine hrun.invariant (I := fun s ↦ Consistent s ∧ Quiet s) (fun e he s s' hs hstep ↦ ?_)
      ⟨created_consistent settings [], created_quiet h⟩
    exact ⟨hs.1.step hstep, hs.2.step hs.1 (hes e (hpre.subset (List.mem_append_left _ he))) hstep⟩
  have hsettled := hboth.2.settled
  rw [hmain] at hsettled
  exact (hboth.1.onlyTouched_iff hmain).mpr (hsettled w.copy w.channel)

/-- `save` writes the loaded state of a channel over a state that a remote command has given it since. -/
theorem savesOnlyTouched_iff (settings : Settings) (commands : List (List Write)) (es : List Event) :
    SavesOnlyTouched P (created settings commands) es ↔ WrittenAsLoaded P (created settings commands) es := by
  have hconsistent := created_consistent settings commands
  refine ⟨fun h earlier s w left hpre hrun hmain ↦ ?_, fun h earlier s w left hpre hrun hmain ↦ ?_⟩
  · exact ((hconsistent.run hrun).onlyTouched_iff hmain).mp (h earlier s w left hpre hrun hmain)
  · exact ((hconsistent.run hrun).onlyTouched_iff hmain).mpr (h earlier s w left hpre hrun hmain)

def configured : Settings where
  agentName := "Aigentik"
  ownerName := "Ann"
  adminNumber := "+16502530000"
  adminPasswordHash := []
  isPaused := false
  isConfigured := true
  channelEnabled _ := true
  channelState _ := true

/-- The screen opens, a remote command stops SMS, and the owner saves the form. -/
def stoppedBehind : List Event :=
  List.replicate 4 .proceed ++ [.command "stop sms", .commandWrite 0, .commandWrite 0, .save []]

theorem stop_sms_undone :
    ¬SavesOnlyTouched asciiPlatform (created configured []) (stoppedBehind ++ [.proceed]) := by
  intro h
  have hrun : ∃ s, stoppedBehind.foldlM (step asciiPlatform) (created configured []) = some s ∧
      s.main = .saving (formWrites s.form) ∧ s.touched .sms = false ∧ get s.settings .live .sms = false ∧
      switch s.form .sms = true := ⟨_, rfl, rfl, rfl, rfl, rfl⟩
  obtain ⟨s, hfold, hmain, huntouched, hstopped, hshown⟩ := hrun
  have honly := h stoppedBehind s _ _ List.prefix_rfl (StepRun.of_foldlM hfold) hmain
  have hne : get s.settings .live .sms ≠ switch s.form .sms := by
    rw [hstopped, hshown]
    exact Bool.false_ne_true
  have htouched : s.touched .sms = true := (write_changes_iff hmain).mp honly hne
  rw [huntouched] at htouched
  cases htouched

end Aigentik.RemoteToggles
