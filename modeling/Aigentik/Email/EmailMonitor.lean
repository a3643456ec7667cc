import Aigentik.Email.GmailHistoryClient

namespace Aigentik.EmailMonitor

open Strings Effects GmailApiClient GmailHistoryClient EmailRouter

def buildGVoiceMessage (gvm : GoogleVoiceMessage) (currentTimeMillis : ℤ) : Message where
  id := gvm.originalEmail.gmailId
  channel := .email
  sender := gvm.senderPhone
  senderName := some gvm.senderName
  body := gvm.body
  subject := gvm.originalEmail.subject
  timestamp := currentTimeMillis
  threadId := gvm.originalEmail.threadId

theorem buildGVoiceMessage_id {email : ParsedEmail} {gvm : GoogleVoiceMessage}
    (h : parseGoogleVoiceEmail email = some gvm) (now : ℤ) : (buildGVoiceMessage gvm now).id = email.gmailId := by
  rw [← originalEmail_eq h, buildGVoiceMessage]

def buildEmailMessage (email : ParsedEmail) (currentTimeMillis : ℤ) : Message where
  id := email.gmailId
  channel := .email
  sender := email.fromEmail
  senderName := if isBlank email.fromName then none else some email.fromName
  body := email.body
  subject := email.subject
  timestamp := currentTimeMillis
  threadId := email.threadId

variable (P : Platform)

def processGVoiceText (gvm : GoogleVoiceMessage) : Mail Unit := do
  let message := buildGVoiceMessage gvm (← mail .currentTimeMillis)
  (storeGVoiceContext gvm.senderPhone gvm).lift routerHom
  mailAttempt (mail (.hand message))

def processRegularEmail (email : ParsedEmail) : Mail Unit := do
  let message := buildEmailMessage email (← mail .currentTimeMillis)
  (storeEmailContext P email.fromEmail email).lift routerHom
  mailAttempt (mail (.hand message))

def processEmail (email : ParsedEmail) : Mail Unit :=
  if isGoogleVoiceText email.subject then do
    if ← mail (.channelIsEnabled .gvoice) then
      match parseGoogleVoiceEmail email with
      | some gvm => processGVoiceText gvm
      | none => return
    else return
  else do
    if ← mail (.channelIsEnabled .email) then processRegularEmail P email
    else return

def getFullEmail (messageId : Str) : Mail (Option ParsedEmail) := do
  return (← mailAttempt (mail (.getMessage messageId))).map fun raw ↦ raw.parsed P messageId

def processAndMark (email : ParsedEmail) : Mail Unit := do
  processEmail P email
  let _ ← mailAttempt (mail (.markAsRead email.gmailId))
  return

/-- One round of the loop of `processFromHistory`. -/
def processNew (ownEmail msgId : Str) : Mail Unit :=
  Prog.tryCatch (do
    match ← getFullEmail P msgId with
    | none => return
    | some email =>
      if !email.isUnread then return
      else if P.equalsIgnoreCase email.fromEmail ownEmail then return
      else processAndMark P email) fun _ ↦ return

def processEach (ownEmail : Str) : List Str → Mail Unit
  | [] => return
  | msgId :: rest => do
    processNew P ownEmail msgId
    processEach ownEmail rest

def processNewEmails (msgIds : List Str) : Mail Unit :=
  if msgIds = [] then return
  else do
    let ownEmail := (← mail .getSignedInEmail).getD []
    processEach P ownEmail msgIds

def processFromHistory (startHistoryId : Str) : Mail Unit := do
  let (msgIds, updatedHistoryId) ← getNewInboxMessageIds startHistoryId
  if updatedHistoryId = none ∧ msgIds = [] then
    let _ ← primeHistoryId
    return
  else
    processNewEmails P msgIds
    saveHistoryId (updatedHistoryId.getD startHistoryId)

/-- One round of the loop of `processUnread`. -/
def processListed (ownEmail : Str) (email : ParsedEmail) : Mail Unit :=
  Prog.tryCatch (if P.equalsIgnoreCase email.fromEmail ownEmail then return
    else processAndMark P email) fun _ ↦ return

def processEachListed (ownEmail : Str) : List ParsedEmail → Mail Unit
  | [] => return
  | email :: rest => do
    processListed P ownEmail email
    processEachListed ownEmail rest

def processUnread : Mail Unit := do
  match ← mailAttempt (mail (.listUnread 3)) with
  | [] => return
  | emails =>
    let ownEmail := (← mail .getSignedInEmail).getD []
    processEachListed P ownEmail emails

/-! What the processing of an e-mail calls -/

variable {P} in
theorem calls_processEmail {C : MailOp → Prop} {email : ParsedEmail}
    (hread : ∀ channel, C (.channelIsEnabled channel)) (hnow : C .currentTimeMillis)
    (hrouter : ∀ op, C (routerHom.op op))
    (hgv : ∀ gvm now, isGoogleVoiceText email.subject = true → parseGoogleVoiceEmail email = some gvm →
      C (.hand (buildGVoiceMessage gvm now)))
    (hmail : ∀ now, isGoogleVoiceText email.subject = false → C (.hand (buildEmailMessage email now))) :
    (processEmail P email).Calls C := by
  have store {α : Type} (p : Prog EmailRouter.sig Throwable α) : (p.lift routerHom).Calls C := Prog.calls_lift hrouter p
  have hand {message : Message} (h : C (.hand message)) : (mailAttempt (mail (.hand message))).Calls C :=
    ⟨h, fun outcome ↦ by cases outcome <;> trivial⟩
  unfold processEmail
  split
  · rename_i hsubject
    refine ⟨hread _, fun enabled ↦ ?_⟩
    cases enabled with
    | false => trivial
    | true =>
      cases hparse : parseGoogleVoiceEmail email with
      | none => trivial
      | some gvm => exact ⟨hnow, fun now ↦ (store _).bind fun _ ↦ hand (hgv gvm now hsubject hparse)⟩
  · rename_i hsubject
    rw [Bool.not_eq_true] at hsubject
    refine ⟨hread _, fun enabled ↦ ?_⟩
    cases enabled with
    | false => trivial
    | true => exact ⟨hnow, fun now ↦ (store _).bind fun _ ↦ hand (hmail now hsubject)⟩

/-! The exceptions of a round end in it -/

theorem processEach_total (ownEmail : Str) (msgIds : List Str) : (processEach P ownEmail msgIds).Total := by
  induction msgIds with
  | nil => trivial
  | cons msgId rest ih => exact Prog.Total.bind (Prog.total_tryCatch fun _ ↦ trivial) fun _ ↦ ih

theorem processNewEmails_total (msgIds : List Str) : (processNewEmails P msgIds).Total := by
  unfold processNewEmails
  split
  · trivial
  · exact fun _ ↦ processEach_total P _ msgIds

theorem processEachListed_total (ownEmail : Str) (emails : List ParsedEmail) :
    (processEachListed P ownEmail emails).Total := by
  induction emails with
  | nil => trivial
  | cons email rest ih => exact Prog.Total.bind (Prog.total_tryCatch fun _ ↦ trivial) fun _ ↦ ih

end Aigentik.EmailMonitor
