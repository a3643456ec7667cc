import Aigentik.Auth.AdminAuthManager
import Aigentik.Core.ChannelManager

namespace Aigentik.AgentSettingsViewModel

open Strings AdminAuthManager ChannelManager

structure AgentSettingsUiState where
  agentName : Str := []
  ownerName : Str := []
  adminNumber : Str := []
  adminPassword : Str := []
  adminPasswordConfirm : Str := []
  smsEnabled : Bool := true
  gvoiceEnabled : Bool := true
  emailEnabled : Bool := true
  isPaused : Bool := false
  statusMessage : Str := []
  statusIsError : Bool := false

/-- The settings that are stored, and the channel states of `ChannelManager`. -/
structure Settings where
  agentName : Str
  ownerName : Str
  adminNumber : Str
  adminPasswordHash : Str
  isPaused : Bool
  isConfigured : Bool
  channelEnabled : Channel → Bool
  channelState : Channel → Bool

/-- `enable` and `disable`. -/
def Settings.setChannel (settings : Settings) (channel : Channel) (enabled : Bool) : Settings :=
  { settings with
    channelState := Function.update settings.channelState channel enabled
    channelEnabled := Function.update settings.channelEnabled channel enabled }

def refuse (message : Str) (s : AgentSettingsUiState) (settings : Settings) :
    Bool × AgentSettingsUiState × Settings :=
  (false, { s with statusMessage := message, statusIsError := true }, settings)

def store (s : AgentSettingsUiState) (settings : Settings) : Bool × AgentSettingsUiState × Settings :=
  let settings := { settings with
    agentName := if isBlank s.agentName then "Aigentik" else s.agentName
    ownerName := s.ownerName
    adminNumber := s.adminNumber
    isPaused := s.isPaused }
  let settings := ((settings.setChannel .sms s.smsEnabled).setChannel .gvoice s.gvoiceEnabled).setChannel
    .email s.emailEnabled
  (true,
    { s with
      adminPassword := []
      adminPasswordConfirm := []
      statusMessage := "Settings saved"
      statusIsError := false },
    { settings with isConfigured := true })

/-- `salt` is the one that is drawn for the password. -/
def save (P : Platform) (salt : List UInt8) (s : AgentSettingsUiState) (settings : Settings) :
    Bool × AgentSettingsUiState × Settings :=
  if isBlank s.ownerName then refuse "Your name is required" s settings
  else if isBlank s.adminNumber then refuse "Phone number is required" s settings
  else if s.adminPassword = [] ∧ s.adminPasswordConfirm = [] then store s settings
  else if s.adminPassword ≠ s.adminPasswordConfirm then refuse "Passwords do not match" s settings
  else if utf16Length s.adminPassword < 4 then refuse "Password must be at least 4 characters" s settings
  else store s { settings with adminPasswordHash := hashPassword P s.adminPassword salt }

variable {P : Platform} {salt : List UInt8} {s : AgentSettingsUiState} {settings : Settings}

/-- A form that is refused changes no setting, and its entries stay. -/
theorem save_refused (h : (save P salt s settings).1 = false) : ∃ message,
    save P salt s settings = refuse message s settings := by
  revert h
  fun_cases save P salt s settings with
  | case1 | case2 | case4 | case5 => exact fun _ ↦ ⟨_, rfl⟩
  | case3 | case6 =>
    intro h
    cases h

theorem save_accepted (h : (save P salt s settings).1 = true) :
    isBlank s.ownerName = false ∧ (save P salt s settings).2.2.ownerName = s.ownerName ∧
      (s.adminPassword ≠ [] →
        (save P salt s settings).2.2.adminPasswordHash = hashPassword P s.adminPassword salt) := by
  revert h
  fun_cases save P salt s settings with
  | case1 | case2 | case4 | case5 =>
    intro h
    cases h
  | case3 hname _ hnone => exact fun _ ↦ ⟨by simpa using hname, rfl, fun hne ↦ (hne hnone.1).elim⟩
  | case6 hname => exact fun _ ↦ ⟨by simpa using hname, rfl, fun _ ↦ rfl⟩

end Aigentik.AgentSettingsViewModel
