import Aigentik.Email.MailOps

namespace Aigentik.GmailHistoryClient

open Strings Effects GmailApiClient

inductive PrimeResult
  | alreadyStored | primedFromApi | noToken | apiError | networkError
  deriving DecidableEq

def loadHistoryId : Mail (Option Str) := do
  mail (.cachedPut (← mail .prefsGet))
  mail .cachedGet

def saveHistoryId (historyId : Str) : Mail Unit := do
  if (← mail .cachedGet) = some historyId then return
  else
    mail (.cachedPut (some historyId))
    mail (.prefsPut historyId)

def primeHistoryId : Mail PrimeResult := do
  let _ ← loadHistoryId
  match ← mail .cachedGet with
  | some _ => return .alreadyStored
  | none =>
    match ← mailAttempt (mail .getFreshToken) with
    | none => return .noToken
    | some token =>
      match ← mail (.profile token) with
      | .ok (some historyId) =>
        saveHistoryId historyId
        return .primedFromApi
      | .ok none | .code _ => return .apiError
      | .failed => return .networkError

/-- Only messages that are in the inbox and still unread. -/
def unreadInboxId (message : HistoryMessage) : Option Str :=
  if hasLabel message.labelIds "INBOX" && hasLabel message.labelIds "UNREAD" then message.id else none

def HistoryEntry.added (entry : HistoryEntry) : List HistoryMessage :=
  (entry.messagesAdded.getD []).filterMap id

/-- `distinct()` keeps the first of equal ids. -/
def newIds (page : HistoryPage) : List Str :=
  (((page.history.getD []).flatMap HistoryEntry.added).filterMap unreadInboxId).eraseDups

/-- The new messages, and the cursor to advance to. -/
def getNewInboxMessageIds (startHistoryId : Str) : Mail (List Str × Option Str) := do
  match ← mailAttempt (mail .getFreshToken) with
  | none => return ([], none)
  | some token =>
    match ← mail (.historyList token startHistoryId) with
    | .ok page => return (newIds page, page.historyId)
    | .code _ | .failed => return ([], none)

theorem saveHistoryId_total (historyId : Str) : (saveHistoryId historyId).Total := by
  intro cached
  dsimp only [Prog.bind]
  split
  · trivial
  · exact fun _ _ ↦ trivial

/-- The calls that read, write or fetch a cursor. -/
def CursorCall : MailOp → Prop
  | .prefsGet | .prefsPut _ | .cachedGet | .cachedPut _ | .getFreshToken | .profile _ => True
  | _ => False

theorem loadHistoryId_calls : loadHistoryId.Calls CursorCall :=
  ⟨trivial, fun _ ↦ ⟨trivial, fun _ ↦ ⟨trivial, fun _ ↦ trivial⟩⟩⟩

theorem saveHistoryId_calls (historyId : Str) : (saveHistoryId historyId).Calls CursorCall := by
  refine ⟨trivial, fun cached ↦ ?_⟩
  change (if cached = some historyId then Prog.ret () else _ : Mail Unit).Calls CursorCall
  split
  · trivial
  · exact ⟨trivial, fun _ ↦ ⟨trivial, fun _ ↦ trivial⟩⟩

theorem primeHistoryId_calls : primeHistoryId.Calls CursorCall := by
  refine loadHistoryId_calls.bind fun _ ↦ ⟨trivial, fun cached ↦ ?_⟩
  cases cached with
  | some _ => trivial
  | none =>
    refine ⟨trivial, fun token ↦ ?_⟩
    match token with
    | .error _ => trivial
    | .ok none => trivial
    | .ok (some token) =>
      refine ⟨trivial, fun profile ↦ ?_⟩
      match profile with
      | .ok (some historyId) => exact (saveHistoryId_calls historyId).bind fun _ ↦ trivial
      | .ok none => trivial
      | .code _ => trivial
      | .failed => trivial

end Aigentik.GmailHistoryClient
