import Aigentik.Core.EngineOps
import Aigentik.Core.PhoneNormalizer
import Mathlib.Algebra.GroupWithZero.Nat

namespace Aigentik.MessageEngine

open Strings Effects AgentLLMFacade ActionPolicyEngine AdminAuthManager

/-- What `configure` sets; the number is already in the form `toE164` gives it. -/
structure EngineConfig where
  adminNumber : Str
  ownerName : Str
  agentName : Str

def notify (text : Str) : Act Unit := act (.notify text)

/-- A call whose exception the handler sees. -/
def attempt {α : Type} (call : Act (Except Throwable α)) : Act α := do
  Prog.ofExcept (← call)

def replyToSender (message : Message) (reply : Reply) : Act Unit :=
  match message.channel with
  | .notification => do
    let _ ← attempt (act (.sendReply message.id reply))
    return
  | .sms => return
  | .email | .gvoice => attempt (act (.routeReply message.sender reply))
  | .chat => notify reply.text

def looksLikeCommand (lower : Str) : Bool :=
  contains lower "email" || contains lower "inbox" || startsWith lower "text " ||
    contains lower "send " || contains lower "sms" || contains lower "contact" ||
    contains lower "number" || contains lower "phone" || startsWith lower "find " ||
    contains lower "look up" || contains lower "sync"

def statusLines : List ChannelManager.Channel → Act (List Str)
  | [] => return []
  | ch :: rest => do
    let icon ← act (.channelIsEnabled ch)
    let active ← act (.channelIsEnabled ch)
    return ChannelManager.statusLine ch icon active :: (← statusLines rest)

def statusSummary : Act Str := do
  return joinToString "\n" (← statusLines ChannelManager.Channel.entries)

def setEnabled (enable : Bool) (ch : ChannelManager.Channel) : Act Unit :=
  if enable then act (.channelEnable ch) else act (.channelDisable ch)

def setAllEnabled (enable : Bool) : List ChannelManager.Channel → Act Unit
  | [] => return
  | ch :: rest => do
    setEnabled enable ch
    setAllEnabled enable rest

def verb (enable : Bool) : Str := if enable then "enabled".toList else "paused"

def toggle (lower : Str) (channel : ChannelManager.Channel) (enable : Bool) : Act Unit := do
  if contains lower "all" || contains lower "everything" then
    setAllEnabled enable ChannelManager.Channel.entries
    notify ("All channels " ++ verb enable ++ ":\n" ++ (← statusSummary))
  else
    setEnabled enable channel
    notify (channel.name ++ " " ++ verb enable ++ ".\n" ++ (← statusSummary))

/-! The actions of an interpreted command -/

variable (P : Platform) (cfg : EngineConfig)

/-- The genuine conversation: the answer of the chat model, to the owner and to
the channel the message came in on. -/
def converse (message : Message) (input : Str) : Act Unit := do
  let outcome ← act (.complete (chatPrompt cfg.agentName cfg.ownerName input))
  let reply := chatReply outcome
  notify reply.text
  if message.channel ≠ .chat then replyToSender message reply

def numbered : ℕ → List ContactEngine.Contact → List Str
  | _, [] => []
  | i, c :: rest =>
    (Nat.toDigits 10 i ++ ". " ++ (c.name <|> c.phones.head?).getD c.id) :: numbered (i + 1) rest

def findByAnyOf (target : Str) : Act (Option ContactEngine.Contact) := do
  match ← attempt (act (.findContact target)) with
  | some contact => return some contact
  | none => attempt (act (.findByRelationship target))

def findContactCommand (target : Str) : Act Unit := do
  match ← attempt (act (.findAllByName target)) with
  | [] =>
    match ← findByAnyOf target with
    | some exact => notify ("Found:\n" ++ ContactEngine.formatContact exact)
    | none => notify ("No contact found for \"" ++ target ++ "\".")
  | [contact] => notify ("Found:\n" ++ ContactEngine.formatContact contact)
  | contacts =>
    notify ("Found " ++ Nat.toDigits 10 contacts.length ++ " matching \"" ++ target ++ "\":\n" ++
      joinToString "\n" (numbered 1 contacts))

def orElseText (text fallback : Str) : Str := if text = [] then fallback else text

def contactPhoneCommand (target : Str) : Act Unit := do
  let known ← findByAnyOf target
  let contact ← match known with
    | some contact => pure (some contact)
    | none => pure (← attempt (act (.findAllByName target))).head?
  match contact with
  | some contact =>
    notify (contact.name.getD target ++ ":\nPhone: " ++
      orElseText (joinToString ", " contact.phones) "no phone on file" ++ "\nEmail: " ++
      orElseText (joinToString ", " contact.emails) "no email on file")
  | none =>
    notify ("No contact found for \"" ++ target ++ "\". Try 'find " ++ target ++ "'.")

def neverReplyCommand (target : Str) : Act Unit := do
  match ← findByAnyOf target with
  | some contact =>
    attempt (act (.setInstructions target (some "never reply".toList) (some .never)))
    notify ("Will never reply to " ++ contact.name.getD target ++ ".")
  | none => notify ("Contact \"" ++ target ++ "\" not found.")

def alwaysReplyCommand (target : Str) : Act Unit := do
  attempt (act (.setInstructions target none (some .always)))
  notify ("Will always auto-reply to " ++ target ++ ".")

def instructionsCommand (target instructions : Str) : Act Unit := do
  match ← findByAnyOf target with
  | some contact =>
    attempt (act (.setInstructions target (some instructions) none))
    notify ("Instructions set for " ++ contact.name.getD target ++ ":\n\"" ++ instructions ++ "\"")
  | none =>
    notify ("Contact \"" ++ target ++ "\" not found. Try 'find " ++ target ++ "' first.")

/-- Whether there is an app context with a signed-in account. -/
def signedIn : Act Bool := do
  if ← act .hasAppContext then act .isSignedIn else return false

def statusCommand : Act Unit := do
  let ai ← act .stateLabel
  let contacts ← act .contactCount
  let channels ← statusSummary
  let emailStatus := if ← signedIn then "signed in".toList else "not signed in"
  notify (cfg.agentName ++ " Status:\nAI: " ++ ai ++ "\nContacts: " ++ Nat.toDigits 10 contacts ++
    "\nEmail: " ++ emailStatus ++ "\nChannels:\n" ++ channels)

def sendEmailCommand (recipient body : Str) : Act Unit := do
  let sent ← attempt (act (.sendEmailDirect recipient (cfg.agentName ++ " message") body))
  notify (if sent then "Email sent to " ++ recipient ++ "."
    else "Failed to send email to " ++ recipient ++ ". Check Gmail sign-in.")

/-- The senders with the most unread mail first; equal counts keep their order. -/
def checkEmailCommand : Act Unit := do
  if ← signedIn then
    match ← attempt (act .countUnreadBySender) with
    | [] => notify "No unread emails."
    | summary =>
      let top := (summary.mergeSort fun a b ↦ b.2 ≤ a.2).take 8
      let total := (summary.map Prod.snd).sum
      notify (Nat.toDigits 10 total ++ " unread email(s) by sender:\n" ++
        joinToString "\n" (top.map fun e ↦ e.1 ++ ": " ++ Nat.toDigits 10 e.2))
  else notify "Gmail not signed in — sign in via Settings to use email features."

def syncContactsCommand : Act Unit := do
  if ← act .hasAppContext then
    let added ← attempt (act .syncAndroidContacts)
    let count ← act .contactCount
    notify ("Contacts synced: " ++ Nat.toDigits 10 count ++ " total (" ++ Nat.toDigits 10 added ++
      " new).")
  else
    notify ("Contacts: " ++ Nat.toDigits 10 (← act .contactCount) ++ " loaded.")

def noNewMessages : Act Unit := notify
  "Sending new messages is not in my capabilities — I can only reply to messages I receive."

def fallback (message : Message) (input : Str) : Act Unit :=
  let lower := P.lowercase input
  if startsWith lower "text " || startsWith lower "send " then noNewMessages
  else if contains lower "email" then
    notify "Email active. Say 'check email' to see unread, or 'send email to [address]'."
  else converse cfg message input

def dispatch (message : Message) (input : Str) (result : CommandResult) : Act Unit :=
  let action := result.action
  if action = "find_contact".toList then
    match result.target with
    | some target => findContactCommand target
    | none => notify "Who are you looking for?"
  else if action ∈ ["get_contact_phone".toList, "contact_phone".toList, "phone_number".toList] then
    match result.target with
    | some target => contactPhoneCommand target
    | none => notify "Who are you looking for?"
  else if action = "never_reply_to".toList then
    match result.target with
    | some target => neverReplyCommand target
    | none => return
  else if action = "always_reply_to".toList then
    match result.target with
    | some target => alwaysReplyCommand target
    | none => return
  else if action = "set_contact_instructions".toList then
    match result.target, result.content with
    | some target, some instructions => instructionsCommand target instructions
    | none, _ => notify "Who should I set instructions for?"
    | some target, none => notify ("What instructions should I follow for " ++ target ++ "?")
  else if action = "status".toList then statusCommand cfg
  else if action = "send_sms".toList then noNewMessages
  else if action = "send_email".toList then
    match result.target, result.content with
    | some recipient, some body => sendEmailCommand cfg recipient body
    | none, _ => notify "Who should I email?"
    | some _, none => notify "What should I say?"
  else if action ∈ ["check_email".toList, "read_email".toList, "list_email".toList] then
    checkEmailCommand
  else if action = "sync_contacts".toList then syncContactsCommand
  else fallback P cfg message input

/-- The policy gate, and the action behind it. -/
def gate (message : Message) (input : Str) (result : CommandResult) : Act Unit := do
  let pd := evaluateAdmin P (ActionSchemaValidator.validate result)
  act (.policyLog pd)
  if pd.allowed then dispatch P cfg message input result
  else notify ("Action blocked by policy: " ++ pd.reason)

def interpret (message : Message) (input lower : Str) : Act Unit := do
  let quickResult := parseSimpleCommand P input
  if quickResult.action = "unknown" then
    if looksLikeCommand lower then
      let outcome ← act (.complete (interpretPrompt input))
      gate P cfg message input (interpretReply P input outcome)
    else converse cfg message input
  else gate P cfg message input quickResult

def errorText (e : Throwable) : Str :=
  match e.message with
  | some text => text.take 80
  | none => e.simpleName

/-- A command behind the destructive guard. -/
def runCommand (message : Message) (input : Str) : Act Unit :=
  let lower := P.lowercase input
  match ChannelManager.parseToggleCommand P lower with
  | some (channel, enable) => toggle lower channel enable
  | none => do
    if lower = "channels" || contains lower "channel status" then
      notify ("Channel Status:\n" ++ (← statusSummary))
    else
      (interpret P cfg message input lower).tryCatch fun e ↦ notify ("Error: " ++ errorText e)

/-! The handlers -/

def isConfirm (rawInput : Str) : Bool := startsWith (P.lowercase rawInput) "confirm:"

/-- The command a confirmation names. -/
def confirmed (rawInput : Str) : Str := trim (rawInput.drop 8)

/-- A notice that does not come from the model, to the owner and the sender. -/
def announce (message : Message) (text : Str) : Act Unit := do
  notify text
  if message.channel ≠ .chat then replyToSender message (.fixed text)

def noPending : Str :=
  "No pending destructive command matched. Re-enter the original command to re-arm."

def warning (input : Str) : Str :=
  "Destructive command detected: \"" ++ input.take 80 ++ "\"\n" ++
    "Reply with 'confirm: " ++ input ++ "' to proceed, or send any other command to cancel."

/-- A released command is handled by the same function, one frame deeper. -/
def handleAdminCommand : ℕ → Message → Bool → Engine Unit
  | 0, _, _ => .throw ⟨"StackOverflowError", none⟩
  | depth + 1, message, skipDestructiveCheck => do
    let rawInput := trim message.body
    let channelKey := message.sender
    if isConfirm P rawInput then
      match ← liftAuth (consumePendingDestructive P channelKey (confirmed rawInput)) with
      | some pending => handleAdminCommand depth { message with body := pending } true
      | none => liftAct (announce message noPending)
    else if !skipDestructiveCheck && isDestructiveCommand P rawInput then
      liftAuth (setPendingDestructive channelKey rawInput)
      liftAct (announce message (warning rawInput))
    else
      sync (.passGuard channelKey rawInput)
      liftAct (runCommand P cfg message rawInput)

/-- The reply of the policy-approved draft, by the channel of the message. -/
def sendDraft (message : Message) (contact : ContactEngine.Contact) (draft : Reply) : Act Unit :=
  match message.channel with
  | .notification => do
    let sent ← attempt (act (.sendReply message.id draft))
    if !sent then
      notify ("Could not send reply to " ++ contact.name.getD message.sender ++
        " — notification was dismissed")
  | .email | .gvoice => attempt (act (.routeReply message.sender draft))
  | .sms | .chat => return

def channelLabel : Message.Channel → Str
  | .email | .gvoice => "email"
  | .notification | .sms | .chat => "sms"

def autoReply (message : Message) (contact : ContactEngine.Contact) : Act Unit := do
  let senderName := message.senderName <|> contact.name
  let outcome ← act (.complete (smsPrompt cfg.agentName cfg.ownerName senderName message.sender
    message.body contact.relationship contact.instructions))
  let draft := smsReply cfg.agentName cfg.ownerName senderName outcome
  let pd := evaluatePublicReply P message.sender (channelLabel message.channel) draft.text
  let sender := contact.name.getD message.sender
  act (.policyLog pd)
  if pd.allowed then
    sendDraft message contact draft
    notify ("Auto-replied to " ++ sender ++ ":\nThey: \"" ++ message.body.take 60 ++
      "\"\nSent: \"" ++ draft.text.take 80 ++ "\"")
  else
    notify ("Auto-reply to " ++ sender ++ " suppressed by policy (" ++ pd.reason ++
      ").\nDraft: \"" ++ draft.text.take 80 ++ "\"")

def notifyMention (message : Message) (sender : Str) : Act Unit := do
  if contains (P.lowercase message.body) (P.lowercase cfg.ownerName) then
    notify ("URGENT: " ++ sender ++ " mentioned your name!\n\"" ++ message.body.take 100 ++ "\"")

def answerPublic (message : Message) : Act Unit := do
  let contact ← attempt (act (.findOrCreateByPhone message.sender))
  if contact.replyBehavior ≠ .never then
    let sender := contact.name.getD message.sender
    notifyMention P cfg message sender
    if contact.replyBehavior = .always ∨ contact.replyBehavior = .auto then
      autoReply P cfg message contact
    else
      notify ("New message from " ++ sender ++ ":\n\"" ++ message.body.take 100 ++
        "\"\n\nSay \"always reply to " ++ sender ++ "\" to auto-reply")

def handlePublicMessage (message : Message) : Act Unit :=
  (answerPublic P cfg message).tryCatch fun _ ↦
    notify ("Error processing message from " ++ message.sender)

/-! Coroutines -/

def bracket (handler : Handler) (message : Message) (body : Engine Unit) : Engine Unit := do
  sync (.begin handler message)
  body.tryFinally (sync (.finish handler))

def withLock (body : Engine Unit) : Engine Unit := do
  sync .lock
  body.tryFinally (sync .unlock)

def withWakeLock (body : Engine Unit) : Engine Unit := do
  sync .acquireWakeLock
  body.tryFinally (sync .releaseWakeLock)

variable (stackDepth : ℕ)

def handle (message : Message) (isAdmin : Bool) : Engine Unit :=
  if isAdmin then bracket .admin message (handleAdminCommand P cfg stackDepth message false)
  else bracket .publicMessage message (liftAct (handlePublicMessage P cfg message))

/-- The coroutine of a login does not take the lock. -/
def coroutine : Task → Engine Unit
  | .login message => handle P cfg stackDepth message true
  | .queued message isAdmin => withWakeLock (withLock (handle P cfg stackDepth message isAdmin))

def isAdminNumber (sender : Str) : Bool :=
  !isBlank cfg.adminNumber && PhoneNormalizer.lastTen sender == PhoneNormalizer.lastTen cfg.adminNumber

def ackText : Str := "Admin authenticated. Session active for 30 minutes."

def failText : Str := "Authentication failed. Check username and password."

def respond (message : Message) (text : Str) : Act Unit := do
  notify text
  replyToSender message (.fixed text)

def logIn (message : Message) (creds : AdminCredentials) : Engine Unit := do
  if ← liftAuth (authenticate P creds message.sender) then
    if isBlank creds.command then liftAct (respond message ackText)
    else sync (.launch (.login { message with body := creds.command }))
  else liftAct (respond message failText)

def enqueue (message : Message) : Engine Unit := do
  let isAdmin ←
    if ← liftAuth (hasActiveSession message.sender) then pure true
    else pure (isAdminNumber cfg message.sender)
  sync (.launch (.queued message isAdmin))

def onMessageReceived (message : Message) : Engine Unit := do
  if ← sync .isPaused then return
  else if message.channel = .chat then sync (.launch (.queued message true))
  else match parseAdminMessage P message.body with
    | some creds => logIn P message creds
    | none => enqueue cfg message

/-! What the commands call -/

section Commands

variable {C : ActOp → Prop} {target : Str}

theorem act_calls {op : ActOp} (h : C op) : (act op).Calls C := ⟨h, fun _ ↦ trivial⟩

theorem attempt_calls {α : Type} {call : Act (Except Throwable α)} (h : call.Calls C) : (attempt call).Calls C :=
  h.bind fun r ↦ by cases r <;> trivial

theorem statusLines_calls (hchannel : ∀ ch, C (.channelIsEnabled ch)) (chs : List ChannelManager.Channel) :
    (statusLines chs).Calls C := by
  induction chs with
  | nil => trivial
  | cons ch rest ih => exact ⟨hchannel ch, fun _ ↦ ⟨hchannel ch, fun _ ↦ ih.bind fun _ ↦ trivial⟩⟩

theorem statusSummary_calls (hchannel : ∀ ch, C (.channelIsEnabled ch)) : statusSummary.Calls C :=
  (statusLines_calls hchannel _).bind fun _ ↦ trivial

theorem signedIn_calls (hcontext : C .hasAppContext) (hsigned : C .isSignedIn) : signedIn.Calls C := by
  refine ⟨hcontext, fun present ↦ ?_⟩
  cases present with
  | true => exact act_calls hsigned
  | false => trivial

theorem findByAnyOf_calls (hfind : C (.findContact target)) (hrelation : C (.findByRelationship target)) :
    (findByAnyOf target).Calls C := by
  refine (attempt_calls (act_calls hfind)).bind fun contact ↦ ?_
  cases contact with
  | some contact => trivial
  | none => exact attempt_calls (act_calls hrelation)

variable (hnotify : ∀ text, C (.notify text))
include hnotify

theorem findContactCommand_calls (hall : C (.findAllByName target)) (hfind : C (.findContact target))
    (hrelation : C (.findByRelationship target)) : (findContactCommand target).Calls C := by
  refine (attempt_calls (act_calls hall)).bind fun contacts ↦ ?_
  rcases contacts with _ | ⟨contact, _ | ⟨contact', rest⟩⟩
  · refine (findByAnyOf_calls hfind hrelation).bind fun found ↦ ?_
    cases found <;> exact act_calls (hnotify _)
  · exact act_calls (hnotify _)
  · exact act_calls (hnotify _)

theorem contactPhoneCommand_calls (hall : C (.findAllByName target)) (hfind : C (.findContact target))
    (hrelation : C (.findByRelationship target)) : (contactPhoneCommand target).Calls C := by
  refine (findByAnyOf_calls hfind hrelation).bind fun known ↦ ?_
  cases known with
  | some contact => exact act_calls (hnotify _)
  | none =>
    refine (attempt_calls (act_calls hall)).bind fun contacts ↦ ?_
    cases contacts <;> exact act_calls (hnotify _)

theorem neverReplyCommand_calls (hfind : C (.findContact target)) (hrelation : C (.findByRelationship target))
    (hset : C (.setInstructions target (some "never reply".toList) (some .never))) :
    (neverReplyCommand target).Calls C := by
  refine (findByAnyOf_calls hfind hrelation).bind fun contact ↦ ?_
  cases contact with
  | some contact => exact (attempt_calls (act_calls hset)).bind fun _ ↦ act_calls (hnotify _)
  | none => exact act_calls (hnotify _)

theorem alwaysReplyCommand_calls (hset : C (.setInstructions target none (some .always))) :
    (alwaysReplyCommand target).Calls C :=
  (attempt_calls (act_calls hset)).bind fun _ ↦ act_calls (hnotify _)

theorem instructionsCommand_calls {instructions : Str} (hfind : C (.findContact target))
    (hrelation : C (.findByRelationship target)) (hset : C (.setInstructions target (some instructions) none)) :
    (instructionsCommand target instructions).Calls C := by
  refine (findByAnyOf_calls hfind hrelation).bind fun contact ↦ ?_
  cases contact with
  | some contact => exact (attempt_calls (act_calls hset)).bind fun _ ↦ act_calls (hnotify _)
  | none => exact act_calls (hnotify _)

theorem statusCommand_calls (hlabel : C .stateLabel) (hcount : C .contactCount)
    (hchannel : ∀ ch, C (.channelIsEnabled ch)) (hcontext : C .hasAppContext) (hsigned : C .isSignedIn) :
    (statusCommand cfg).Calls C := by
  refine ⟨hlabel, fun _ ↦ ⟨hcount, fun _ ↦ (statusSummary_calls hchannel).bind fun _ ↦ ?_⟩⟩
  exact (signedIn_calls hcontext hsigned).bind fun _ ↦ act_calls (hnotify _)

theorem sendEmailCommand_calls {recipient body : Str}
    (hsend : C (.sendEmailDirect recipient (cfg.agentName ++ " message") body)) :
    (sendEmailCommand cfg recipient body).Calls C :=
  (attempt_calls (act_calls hsend)).bind fun _ ↦ act_calls (hnotify _)

theorem checkEmailCommand_calls (hcontext : C .hasAppContext) (hsigned : C .isSignedIn)
    (hcount : C .countUnreadBySender) : checkEmailCommand.Calls C := by
  refine (signedIn_calls hcontext hsigned).bind fun signed ↦ ?_
  cases signed with
  | true =>
    refine (attempt_calls (act_calls hcount)).bind fun summary ↦ ?_
    cases summary <;> exact act_calls (hnotify _)
  | false => exact act_calls (hnotify _)

theorem syncContactsCommand_calls (hcontext : C .hasAppContext) (hsync : C .syncAndroidContacts)
    (hcount : C .contactCount) : syncContactsCommand.Calls C := by
  refine ⟨hcontext, fun present ↦ ?_⟩
  cases present with
  | true =>
    refine (attempt_calls (act_calls hsync)).bind fun _ ↦ ?_
    exact ⟨hcount, fun _ ↦ act_calls (hnotify _)⟩
  | false => exact ⟨hcount, fun _ ↦ act_calls (hnotify _)⟩

end Commands

/-! Replies -/

/-- What goes out as a reply goes to the message that is handled, on its own channel. -/
def ReplyCall (message : Message) : ActOp → Prop
  | .sendReply messageId _ => messageId = message.id ∧ message.channel = .notification
  | .routeReply senderIdentifier _ =>
    senderIdentifier = message.sender ∧ (message.channel = .email ∨ message.channel = .gvoice)
  | _ => True

section Replies

variable {message : Message}

theorem notify_calls (text : Str) : (notify text).Calls (ReplyCall message) := act_calls trivial

theorem replyToSender_calls (reply : Reply) :
    (replyToSender message reply).Calls (ReplyCall message) := by
  unfold replyToSender
  split
  · rename_i hchannel
    have send : (act (.sendReply message.id reply)).Calls (ReplyCall message) := act_calls ⟨rfl, hchannel⟩
    exact (attempt_calls send).bind fun _ ↦ trivial
  · trivial
  · rename_i hchannel
    have route : (act (.routeReply message.sender reply)).Calls (ReplyCall message) :=
      act_calls ⟨rfl, .inl hchannel⟩
    exact attempt_calls route
  · rename_i hchannel
    have route : (act (.routeReply message.sender reply)).Calls (ReplyCall message) :=
      act_calls ⟨rfl, .inr hchannel⟩
    exact attempt_calls route
  · exact notify_calls _

theorem setEnabled_calls (enable : Bool) (ch : ChannelManager.Channel) :
    (setEnabled enable ch).Calls (ReplyCall message) := by
  cases enable <;> exact act_calls trivial

theorem setAllEnabled_calls (enable : Bool) (chs : List ChannelManager.Channel) :
    (setAllEnabled enable chs).Calls (ReplyCall message) := by
  induction chs with
  | nil => trivial
  | cons ch rest ih => exact (setEnabled_calls enable ch).bind fun _ ↦ ih

theorem summary_calls : statusSummary.Calls (ReplyCall message) := statusSummary_calls fun _ ↦ trivial

theorem toggle_calls (lower : Str) (channel : ChannelManager.Channel) (enable : Bool) :
    (toggle lower channel enable).Calls (ReplyCall message) := by
  unfold toggle
  split
  · exact (setAllEnabled_calls enable _).bind fun _ ↦ summary_calls.bind fun _ ↦ notify_calls _
  · exact (setEnabled_calls enable channel).bind fun _ ↦ summary_calls.bind fun _ ↦ notify_calls _

theorem converse_calls (input : Str) : (converse cfg message input).Calls (ReplyCall message) := by
  refine ⟨trivial, fun outcome ↦ ⟨trivial, fun _ ↦ ?_⟩⟩
  dsimp only [Prog.bind]
  split
  · exact replyToSender_calls _
  · trivial

theorem fallback_calls (input : Str) : (fallback P cfg message input).Calls (ReplyCall message) := by
  dsimp only [fallback]
  split
  · exact notify_calls _
  · split
    · exact notify_calls _
    · exact converse_calls cfg input

theorem dispatch_calls (input : Str) (result : CommandResult) :
    (dispatch P cfg message input result).Calls (ReplyCall message) := by
  unfold dispatch
  have answer : ∀ text, ReplyCall message (.notify text) := fun _ ↦ trivial
  refine .ite (fun _ ↦ ?_) fun _ ↦ ?_
  · cases result.target with
    | some target => exact findContactCommand_calls answer trivial trivial trivial
    | none => exact notify_calls _
  refine .ite (fun _ ↦ ?_) fun _ ↦ ?_
  · cases result.target with
    | some target => exact contactPhoneCommand_calls answer trivial trivial trivial
    | none => exact notify_calls _
  refine .ite (fun _ ↦ ?_) fun _ ↦ ?_
  · cases result.target with
    | some target => exact neverReplyCommand_calls answer trivial trivial trivial
    | none => trivial
  refine .ite (fun _ ↦ ?_) fun _ ↦ ?_
  · cases result.target with
    | some target => exact alwaysReplyCommand_calls answer trivial
    | none => trivial
  refine .ite (fun _ ↦ ?_) fun _ ↦ ?_
  · split
    · exact instructionsCommand_calls answer trivial trivial trivial
    · exact notify_calls _
    · exact notify_calls _
  refine .ite (fun _ ↦ ?_) fun _ ↦ .ite (fun _ ↦ notify_calls _) fun _ ↦ ?_
  · exact statusCommand_calls cfg answer trivial trivial (fun _ ↦ trivial) trivial trivial
  refine .ite (fun _ ↦ ?_) fun _ ↦ ?_
  · split
    · exact sendEmailCommand_calls cfg answer trivial
    · exact notify_calls _
    · exact notify_calls _
  refine .ite (fun _ ↦ ?_) fun _ ↦ .ite (fun _ ↦ ?_) fun _ ↦ fallback_calls P cfg input
  · exact checkEmailCommand_calls answer trivial trivial trivial
  · exact syncContactsCommand_calls answer trivial trivial trivial

theorem gate_calls (input : Str) (result : CommandResult) :
    (gate P cfg message input result).Calls (ReplyCall message) := by
  refine ⟨trivial, fun _ ↦ ?_⟩
  dsimp only [Prog.bind]
  split
  · exact dispatch_calls P cfg input result
  · exact notify_calls _

theorem interpret_calls (input lower : Str) :
    (interpret P cfg message input lower).Calls (ReplyCall message) := by
  unfold interpret
  dsimp only
  split
  · split
    · exact ⟨trivial, fun _ ↦ gate_calls P cfg input _⟩
    · exact converse_calls cfg input
  · exact gate_calls P cfg input _

theorem runCommand_calls (input : Str) :
    (runCommand P cfg message input).Calls (ReplyCall message) := by
  unfold runCommand
  dsimp only
  split
  · exact toggle_calls ..
  · split
    · exact summary_calls.bind fun _ ↦ notify_calls _
    · exact (interpret_calls P cfg input _).tryCatch fun _ ↦ notify_calls _

theorem announce_calls (text : Str) : (announce message text).Calls (ReplyCall message) := by
  refine ⟨trivial, fun _ ↦ ?_⟩
  dsimp only [Prog.bind]
  split
  · exact replyToSender_calls _
  · trivial

end Replies

/-- The calls of a handler's body: none of them starts or ends a handler, takes
the lock or launches a coroutine. -/
def HandlerCall : EngineOp → Prop
  | .auth _ | .act _ | .sync (.passGuard ..) => True
  | .sync _ => False

/-- As `HandlerCall`, with the replies those to one message. -/
def AdminCall (message : Message) : EngineOp → Prop
  | .act op => ReplyCall message op
  | op => HandlerCall op

theorem handleAdminCommand_replies (message : Message) (skip : Bool) :
    (handleAdminCommand P cfg stackDepth message skip).Calls (AdminCall message) := by
  induction stackDepth generalizing message skip with
  | zero => trivial
  | succ depth ih =>
    have auth {α : Type} (p : Auth α) : (liftAuth p).Calls (AdminCall message) :=
      Prog.calls_lift (fun _ ↦ trivial) p
    have act {α : Type} {p : Act α} (hp : p.Calls (ReplyCall message)) :
        (liftAct p).Calls (AdminCall message) := hp.lift fun _ ↦ id
    rw [handleAdminCommand]
    split
    · refine (auth _).bind fun pending ↦ ?_
      cases pending with
      | some pending => exact (ih { message with body := pending } true).mono fun op ↦ id
      | none => exact act (announce_calls _)
    · split
      · exact (auth _).bind fun _ ↦ act (announce_calls _)
      · exact ⟨trivial, fun _ ↦ act (runCommand_calls P cfg _)⟩

theorem handleAdminCommand_calls (message : Message) (skip : Bool) :
    (handleAdminCommand P cfg stackDepth message skip).Calls HandlerCall := by
  refine (handleAdminCommand_replies P cfg stackDepth message skip).mono fun op hop ↦ ?_
  cases op with
  | act op => trivial
  | _ => exact hop

/-- The task is to handle the message, or the command of a login in it. -/
def Concerns (message : Message) : Task → Prop
  | .login m => m = { message with body := m.body }
  | .queued m _ => m = message

def EntryCall (message : Message) : EngineOp → Prop
  | .auth op => SessionCall op
  | .act _ | .sync .isPaused => True
  | .sync (.launch task) => Concerns message task
  | .sync _ => False

theorem onMessageReceived_calls (message : Message) :
    (onMessageReceived P cfg message).Calls (EntryCall message) := by
  have act {α : Type} (p : Act α) : (liftAct p).Calls (EntryCall message) :=
    Prog.calls_lift (fun _ ↦ trivial) p
  have launch {task : Task} (h : Concerns message task) :
      (sync (.launch task)).Calls (EntryCall message) := ⟨h, fun _ ↦ trivial⟩
  refine ⟨trivial, fun paused ↦ ?_⟩
  simp only [Prog.bind]
  split
  · trivial
  · split
    · exact launch rfl
    · split
      · refine ((authenticate_calls ..).lift fun _ ↦ id).bind fun ok ↦ ?_
        split
        · split
          · exact act _
          · exact launch rfl
        · exact act _
      · refine ((hasActiveSession_calls _).lift fun _ ↦ id).bind fun active ↦ ?_
        cases active <;> exact launch rfl

/-- The calls of a public handler: it sends nothing but replies to its message. -/
def PublicCall (message : Message) : ActOp → Prop
  | .sendEmailDirect .. => False
  | op => ReplyCall message op

theorem sendDraft_calls (message : Message) (contact : ContactEngine.Contact) (draft : Reply) :
    (sendDraft message contact draft).Calls (PublicCall message) := by
  unfold sendDraft
  split
  · rename_i hchannel
    have send : (act (.sendReply message.id draft)).Calls (PublicCall message) :=
      ⟨⟨rfl, hchannel⟩, fun _ ↦ trivial⟩
    refine (attempt_calls send).bind fun sent ↦ ?_
    cases sent
    · exact ⟨trivial, fun _ ↦ trivial⟩
    · trivial
  · rename_i hchannel
    have route : (act (.routeReply message.sender draft)).Calls (PublicCall message) :=
      ⟨⟨rfl, .inl hchannel⟩, fun _ ↦ trivial⟩
    exact attempt_calls route
  · rename_i hchannel
    have route : (act (.routeReply message.sender draft)).Calls (PublicCall message) :=
      ⟨⟨rfl, .inr hchannel⟩, fun _ ↦ trivial⟩
    exact attempt_calls route
  · trivial
  · trivial

theorem autoReply_calls (message : Message) (contact : ContactEngine.Contact) :
    (autoReply P cfg message contact).Calls (PublicCall message) := by
  refine ⟨trivial, fun outcome ↦ ⟨trivial, fun _ ↦ ?_⟩⟩
  dsimp only [Prog.bind]
  split
  · exact (sendDraft_calls message contact _).bind fun _ ↦ ⟨trivial, fun _ ↦ trivial⟩
  · exact ⟨trivial, fun _ ↦ trivial⟩

theorem handlePublicMessage_calls (message : Message) :
    (handlePublicMessage P cfg message).Calls (PublicCall message) := by
  have hnotify (text : Str) : (notify text).Calls (PublicCall message) := ⟨trivial, fun _ ↦ trivial⟩
  have find : (act (.findOrCreateByPhone message.sender)).Calls (PublicCall message) :=
    ⟨trivial, fun _ ↦ trivial⟩
  have mention (sender : Str) : (notifyMention P cfg message sender).Calls (PublicCall message) := by
    unfold notifyMention
    split
    · exact hnotify _
    · trivial
  refine Prog.Calls.tryCatch ((attempt_calls find).bind fun contact ↦ ?_) fun _ ↦ hnotify _
  split
  · refine (mention _).bind fun _ ↦ ?_
    split
    · exact autoReply_calls P cfg message contact
    · exact hnotify _
  · trivial

end Aigentik.MessageEngine
