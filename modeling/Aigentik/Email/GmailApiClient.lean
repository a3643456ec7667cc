import Aigentik.Platform

namespace Aigentik.GmailApiClient

open Strings

structure ParsedEmail where
  messageId : Str
  gmailId : Str := []
  threadId : Str := []
  fromEmail : Str
  fromName : Str
  subject : Str
  body : Str
  isUnread : Bool := true
  deriving DecidableEq

structure GoogleVoiceMessage where
  senderName : Str
  senderPhone : Str
  body : Str
  originalEmail : ParsedEmail
  deriving DecidableEq

/-- The fields of a `messages.get` response that are read, with the text that
`extractBody` finds in its payload. -/
structure RawEmail where
  headers : List (Option Str × Option Str)
  threadId : Option Str
  labelIds : Option (List Str)
  body : Str
  deriving DecidableEq

def hasLabel (labels : Option (List Str)) (label : Str) : Bool :=
  labels.any fun ls ↦ ls.any (· == label)

def parseEmail (sender : Str) : Str :=
  match (Re.cat [.char '<', .group 1 (.plus false .dot), .char '>']).find sender with
  | some m => m.group 1
  | none => trim sender

def isQuote (c : Char) : Bool := c == '"'

def parseName (sender : Str) : Str :=
  match (Re.cat [.group 1 (.plus false .dot), .char '<']).matchAt [] sender with
  | some m => ((trim (m.group 1)).dropWhile isQuote).rdropWhile isQuote
  | none => []

def RawEmail.header (P : Platform) (raw : RawEmail) (name : Str) : Str :=
  ((raw.headers.find? fun h ↦ h.1.any (P.equalsIgnoreCase · name)).bind Prod.snd).getD []

/-- The e-mail that `getFullEmail` makes of a response. -/
def RawEmail.parsed (P : Platform) (raw : RawEmail) (messageId : Str) : ParsedEmail where
  messageId :=
    let header := raw.header P "Message-ID"
    if isBlank header then messageId else header
  gmailId := messageId
  threadId := raw.threadId.getD []
  fromEmail := parseEmail (raw.header P "From")
  fromName := parseName (raw.header P "From")
  subject := raw.header P "Subject"
  body := raw.body
  isUnread := hasLabel raw.labelIds "UNREAD"

/-! Replies -/

/-- The arguments of `sendEmail`. -/
structure Outgoing where
  recipient : Str
  subject : Str
  body : Str
  threadId : Option Str := none
  inReplyTo : Option Str := none
  deriving DecidableEq

def replyToEmail (original : ParsedEmail) (replyBody : Str) : Outgoing where
  recipient := original.fromEmail
  subject := if startsWith original.subject "Re:" then original.subject else "Re: " ++ original.subject
  body := replyBody
  threadId := some original.threadId
  inReplyTo := some original.messageId

def replyToGoogleVoiceText (original : ParsedEmail) (replyText : Str) : Outgoing :=
  replyToEmail original replyText

/-! Google Voice texts -/

def subjectPrefix : Str := "New text message from"

def groupPrefix : Str := "New group text message"

def footerMarker : Str := "To respond to this text message"

def isGoogleVoiceText (subject : Str) : Bool :=
  startsWith subject subjectPrefix || startsWith subject groupPrefix

/-- `New text message from (.+?)\s*\((\d{3})\)\s*(\d{3})-(\d{4})` -/
def individualRegex : Re :=
  .cat [.text "New text message from ", .group 1 (.plus false .dot), .star true .space, .char '(',
    .group 2 (.times 3 .digit), .char ')', .star true .space, .group 3 (.times 3 .digit), .char '-',
    .group 4 (.times 4 .digit)]

/-- `New group text message from (.+)` -/
def groupRegex : Re := .cat [.text "New group text message from ", .group 1 (.plus true .dot)]

/-- `<[^>]*>` -/
def tagRegex : Re := .cat [.char '<', .star true (.one (· != '>')), .char '>']

/-- The phone number that the subject of an individual text names. -/
def subjectPhone (subject : Str) : Option Str :=
  (individualRegex.find subject).map fun m ↦ "+1" ++ m.group 2 ++ m.group 3 ++ m.group 4

def textBody (body : Str) : Str :=
  let body := match indexOf body footerMarker with
    | some footerIdx => body.take footerIdx
    | none => body
  trim (tagRegex.replaceAll [] body)

def parseGoogleVoiceEmail (email : ParsedEmail) : Option GoogleVoiceMessage :=
  match individualRegex.find email.subject with
  | some m => some ⟨trim (m.group 1), "+1" ++ m.group 2 ++ m.group 3 ++ m.group 4,
      textBody email.body, email⟩
  | none =>
    if startsWith email.subject groupPrefix then
      let senderName := ((groupRegex.find email.subject).map fun m ↦ trim (m.group 1)).getD "Group"
      some ⟨senderName, email.fromEmail, textBody email.body, email⟩
    else none

/-- The sender of a parsed text is the number in its subject, or else the
address the mail came from. -/
theorem senderPhone_eq {email : ParsedEmail} {gvm : GoogleVoiceMessage}
    (h : parseGoogleVoiceEmail email = some gvm) :
    gvm.senderPhone = (subjectPhone email.subject).getD email.fromEmail := by
  unfold parseGoogleVoiceEmail at h
  split at h
  · rename_i m hm
    cases h
    simp [subjectPhone, hm]
  · rename_i hm
    split at h
    · cases h
      simp [subjectPhone, hm]
    · cases h

theorem parseGoogleVoiceEmail_isSome {email : ParsedEmail} {phone : Str}
    (h : subjectPhone email.subject = some phone) : (parseGoogleVoiceEmail email).isSome := by
  obtain ⟨m, hm, -⟩ := Option.map_eq_some_iff.mp h
  simp [parseGoogleVoiceEmail, hm]

theorem originalEmail_eq {email : ParsedEmail} {gvm : GoogleVoiceMessage}
    (h : parseGoogleVoiceEmail email = some gvm) : gvm.originalEmail = email := by
  unfold parseGoogleVoiceEmail at h
  split at h
  · cases h
    rfl
  · split at h
    · cases h
      rfl
    · cases h

example : subjectPhone "New text message from Bob Smith (650) 253-0000" = some "+16502530000".toList := by
  decide +kernel

end Aigentik.GmailApiClient
