import Aigentik.Core.ChannelManager
import Aigentik.Core.Message
import Aigentik.Email.EmailRouter

namespace Aigentik

open Strings Effects GmailApiClient

/-- A message in a `history.list` response. -/
structure HistoryMessage where
  id : Option Str
  labelIds : Option (List Str)
  deriving DecidableEq

/-- The messages that a history record adds, each with its `message` field. -/
structure HistoryEntry where
  messagesAdded : Option (List (Option HistoryMessage))
  deriving DecidableEq

structure HistoryPage where
  historyId : Option Str
  history : Option (List HistoryEntry)
  deriving DecidableEq

/-- A response that parses, one with a failure code, or an exception on the way. -/
inductive HttpAnswer (β : Type)
  | ok (body : β)
  | code (code : ℕ)
  | failed
  deriving DecidableEq

/-- The calls of the mail monitor and of the coroutines that send replies. The cursor
is kept in the preferences, with a cached copy. -/
inductive MailOp
  | router (op : EmailRouter.Op)
  | hand (message : Message)
  | channelIsEnabled (channel : ChannelManager.Channel)
  | currentTimeMillis
  | getSignedInEmail
  | getFreshToken
  | getMessage (messageId : Str)
  | listUnread (maxResults : ℕ)
  | markAsRead (gmailId : Str)
  | sendEmail (email : Outgoing)
  | historyList (token startHistoryId : Str)
  | profile (token : Str)
  | prefsGet
  | prefsPut (historyId : Str)
  | cachedGet
  | cachedPut (historyId : Option Str)
  deriving DecidableEq

abbrev mailSig : Sig where
  Op := MailOp
  Resp
    | .router op => EmailRouter.sig.Resp op
    | .hand _ => Except Throwable Unit
    | .channelIsEnabled _ | .sendEmail _ => Bool
    | .currentTimeMillis => ℤ
    | .getSignedInEmail | .prefsGet | .cachedGet => Option Str
    | .getFreshToken => Except Throwable (Option Str)
    | .getMessage _ => Except Throwable (Option RawEmail)
    | .listUnread _ => Except Throwable (List ParsedEmail)
    | .markAsRead _ => Except Throwable Bool
    | .historyList .. => HttpAnswer HistoryPage
    | .profile _ => HttpAnswer (Option Str)
    | .prefsPut _ | .cachedPut _ => Unit

abbrev routerHom : EmailRouter.sig.Hom mailSig where
  op := .router
  resp _ := .refl _

abbrev Mail (α : Type) := Prog mailSig Throwable α

abbrev mail (op : MailOp) : Mail (mailSig.Resp op) := .call op .ret

/-- A call whose exception the caller sees. -/
def mailAttempt {α : Type} (call : Mail (Except Throwable α)) : Mail α := do
  Prog.ofExcept (← call)

/-- The answers of a world with all channels on, but no account, mail or context. -/
def quietMail : (op : MailOp) → mailSig.Resp op
  | .router .hasContext => true
  | .router (.gvoiceContext op) => quietMap op
  | .router (.emailContext op) => quietMap op
  | .router (.launchReply _) | .router (.dropReply _) => ()
  | .hand _ => (.ok () : Except Throwable Unit)
  | .channelIsEnabled _ | .sendEmail _ => true
  | .currentTimeMillis => (0 : ℤ)
  | .getSignedInEmail | .prefsGet | .cachedGet => (none : Option Str)
  | .getFreshToken => (.ok none : Except Throwable (Option Str))
  | .getMessage _ => (.ok none : Except Throwable (Option RawEmail))
  | .listUnread _ => (.ok [] : Except Throwable (List ParsedEmail))
  | .markAsRead _ => (.ok true : Except Throwable Bool)
  | .historyList .. => (HttpAnswer.failed : HttpAnswer HistoryPage)
  | .profile _ => (HttpAnswer.failed : HttpAnswer (Option Str))
  | .prefsPut _ | .cachedPut _ => ()

end Aigentik
