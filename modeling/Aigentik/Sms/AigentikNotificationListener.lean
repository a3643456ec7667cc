import Aigentik.Core.ChannelManager
import Aigentik.Core.ContactEngine
import Aigentik.Core.Message
import Aigentik.Sms.NotificationReplyRouter

namespace Aigentik.AigentikNotificationListener

open Strings Effects PhoneNormalizer NotificationReplyRouter

structure StatusBarNotification where
  packageName : Str
  key : Str
  notification : Notification
  deriving DecidableEq

namespace StatusBarNotification

def title (sbn : StatusBarNotification) : Option Str := sbn.notification.extras.bind Extras.title

def text (sbn : StatusBarNotification) : Option Str :=
  sbn.notification.extras.bind fun extras ↦ extras.bigText <|> extras.text

end StatusBarNotification

/-- The calls of the listener. `resolved` changes nothing: it marks which sender
a notification with a text was found to come from. -/
inductive Op
  | router (op : NotificationReplyRouter.Op)
  | hand (message : Message)
  | channelIsEnabled (channel : ChannelManager.Channel)
  | findContact (identifier : Str)
  | currentTimeMillis
  | onGmailNotification
  | resolved (sbn : StatusBarNotification) (sender text : Str)
  deriving DecidableEq

abbrev sig : Sig where
  Op := Op
  Resp
    | .router op => NotificationReplyRouter.sig.Resp op
    | .hand _ => Except Throwable Unit
    | .channelIsEnabled _ => Bool
    | .findContact _ => Except Throwable (Option ContactEngine.Contact)
    | .currentTimeMillis => ℤ
    | .onGmailNotification | .resolved .. => Unit

abbrev routerHom : NotificationReplyRouter.sig.Hom sig where
  op := .router
  resp _ := .refl _

abbrev Listener (α : Type) := Prog sig Throwable α

abbrev listen (op : Op) : Listener (sig.Resp op) := .call op .ret

def attempt {α : Type} (call : Listener (Except Throwable α)) : Listener α := do
  Prog.ofExcept (← call)

def gmailPackage : Str := "com.google.android.gm"

def messagingPackages : List Str :=
  ["com.google.android.apps.messaging", "com.samsung.android.messaging",
    "com.verizon.messaging.vzmsgs", "com.att.messages", "com.tmobile.pr.mytmobile",
    "com.sprint.ms.smf.views"]

/-- `[\+\d][\d\s\-\(\)\.]{7,}` -/
def phoneRegex : Re :=
  let follow := .any [.digit, .space, .char '-', .char '(', .char ')', .char '.']
  .cat [.alt (.char '+') .digit, .times 7 follow, .star true follow]

variable (P : Platform)

/-- The first phone of the contact that the title names, or the title itself. -/
def resolveByName (title : Str) : Listener Str := do
  match (← attempt (listen (.findContact title))).bind fun contact ↦ contact.phones.head? with
  | some phone => return toE164 P phone
  | none => return title

def resolveSender (title : Str) : Listener Str :=
  if looksLikePhoneNumber title then return toE164 P title
  else match phoneRegex.find title with
    | some phoneMatch =>
      if looksLikePhoneNumber phoneMatch.value then return toE164 P phoneMatch.value
      else resolveByName P title
    | none => resolveByName P title

def handIfNew (sbn : StatusBarNotification) (sender text : Str) : Listener Unit := do
  let now ← listen .currentTimeMillis
  if ← listen (.router (.dedup (.isNew sender text now))) then
    let contact ← attempt (listen (.findContact sender))
    let timestamp ← listen .currentTimeMillis
    attempt (listen (.hand {
      id := MessageDeduplicator.fingerprint sender text
      channel := .notification
      sender
      senderName := contact.bind ContactEngine.Contact.name
      body := text
      packageName := sbn.packageName
      timestamp }))
  else return

/-- `MessageDeduplicator.wasSentRecently` -/
def wasSentRecently (text : Str) : Listener Bool := do
  match ← listen (.router (.dedup (.sentTime text))) with
  | none => return false
  | some sentTime => return (← listen .currentTimeMillis) - sentTime < MessageDeduplicator.sentTtlMs

/-- A notification with a title and a text is registered even if it is a duplicate. -/
def receive (sbn : StatusBarNotification) (title text : Str) : Listener Unit := do
  if ← wasSentRecently text then return
  else
    let sender ← resolveSender P title
    listen (.resolved sbn sender text)
    (register (MessageDeduplicator.fingerprint sender text)
      ⟨sbn.notification, sbn.packageName, sbn.key⟩).lift routerHom
    handIfNew sbn sender text

def onNotificationPosted (sbn : StatusBarNotification) : Listener Unit :=
  if sbn.packageName = gmailPackage then
    if sbn.notification.isGroupSummary then return else listen .onGmailNotification
  else if sbn.packageName ∉ messagingPackages || sbn.notification.isGroupSummary then return
  else do
    if ← listen (.channelIsEnabled .sms) then
      match sbn.notification.extras with
      | none => return
      | some extras =>
        match extras.title, extras.bigText <|> extras.text with
        | some title, some text => receive P sbn title text
        | _, _ => return
    else return

def onNotificationRemoved (sbn : StatusBarNotification) : Listener Unit :=
  (NotificationReplyRouter.onNotificationRemoved sbn.key).lift routerHom

theorem attempt_calls {C : Op → Prop} {α : Type} {call : Listener (Except Throwable α)}
    (h : call.Calls C) : (attempt call).Calls C :=
  h.bind fun r ↦ by cases r <;> trivial

theorem listen_calls {C : Op → Prop} {op : Op} (h : C op) : (listen op).Calls C :=
  ⟨h, fun _ ↦ trivial⟩

theorem wasSentRecently_calls {C : Op → Prop} {text : Str} (hsent : C (.router (.dedup (.sentTime text))))
    (hclock : C .currentTimeMillis) : (wasSentRecently text).Calls C := by
  refine ⟨hsent, fun sentTime ↦ ?_⟩
  cases sentTime with
  | none => trivial
  | some sentTime => exact ⟨hclock, fun _ ↦ trivial⟩

theorem resolveSender_calls {C : Op → Prop} (hC : ∀ identifier, C (.findContact identifier))
    (title : Str) : (resolveSender P title).Calls C := by
  have byName : (resolveByName P title).Calls C := by
    refine (attempt_calls (listen_calls (hC title))).bind fun contact ↦ ?_
    split <;> trivial
  unfold resolveSender
  split
  · trivial
  · split
    · split
      · trivial
      · exact byName
    · exact byName

/-- The message that is handed over is that of a notification's sender and text. -/
def HandsText (sender text : Str) : Op → Prop
  | .hand message => message.channel = .notification ∧ message.sender = sender ∧
    message.id = MessageDeduplicator.fingerprint sender text
  | .router op => ∃ o, op = .dedup o
  | .resolved .. => False
  | _ => True

theorem handIfNew_calls (sbn : StatusBarNotification) (sender text : Str) :
    (handIfNew sbn sender text).Calls (HandsText sender text) := by
  refine ⟨trivial, fun now ↦ ⟨⟨_, rfl⟩, fun new ↦ ?_⟩⟩
  cases new with
  | false => trivial
  | true =>
    refine (attempt_calls (@listen_calls _ (.findContact sender) trivial)).bind fun contact ↦
      ⟨trivial, fun timestamp ↦ ?_⟩
    exact attempt_calls (listen_calls ⟨rfl, rfl, rfl⟩)

/-- The messages that are handed over come from notifications. -/
def HandsNotification : Op → Prop
  | .hand message => message.channel = .notification
  | _ => True

theorem HandsText.notification {sender text : Str} {op : Op} (h : HandsText sender text op) :
    HandsNotification op := by
  cases op with
  | hand message => exact h.1
  | _ => trivial

theorem receive_calls (sbn : StatusBarNotification) (title text : Str) :
    (receive P sbn title text).Calls HandsNotification := by
  refine (wasSentRecently_calls trivial trivial).bind fun sent ↦ ?_
  cases sent with
  | true => trivial
  | false =>
    refine (resolveSender_calls P (fun _ ↦ trivial) title).bind fun sender ↦ ⟨trivial, fun _ ↦ ?_⟩
    exact (Prog.calls_lift (fun _ ↦ trivial) _).bind fun _ ↦
      (handIfNew_calls sbn sender text).mono fun _ ↦ HandsText.notification

/-- A notification is ignored, is one of the mail, or is read if the channel is on. -/
theorem onNotificationPosted_cases (sbn : StatusBarNotification) :
    onNotificationPosted P sbn = .ret () ∨ onNotificationPosted P sbn = listen .onGmailNotification ∨
      sbn.packageName ∈ messagingPackages ∧ sbn.notification.isGroupSummary = false ∧ ∃ next, (next = .ret () ∨
          ∃ title text, sbn.title = some title ∧ sbn.text = some text ∧ next = receive P sbn title text) ∧
        onNotificationPosted P sbn =
          .call (.channelIsEnabled .sms) fun enabled ↦ if (enabled : Bool) then next else .ret () := by
  unfold onNotificationPosted
  split
  · split
    · exact .inl rfl
    · exact .inr (.inl rfl)
  · split
    · exact .inl rfl
    · rename_i hread
      simp only [Bool.or_eq_true, decide_eq_true_eq, not_or, not_not, Bool.not_eq_true] at hread
      refine .inr (.inr ⟨hread.1, hread.2, _, ?_, rfl⟩)
      split
      · exact .inl rfl
      · rename_i extras hextras
        split
        · rename_i title text htitle htext
          exact .inr ⟨title, text, by rw [StatusBarNotification.title, hextras, Option.bind_some, htitle],
            by rw [StatusBarNotification.text, hextras, Option.bind_some, htext], rfl⟩
        · exact .inl rfl

theorem onNotificationPosted_calls (sbn : StatusBarNotification) :
    (onNotificationPosted P sbn).Calls HandsNotification := by
  rcases onNotificationPosted_cases P sbn with h | h | ⟨-, -, next, hnext, h⟩
  · rw [h]
    trivial
  · rw [h]
    exact ⟨trivial, fun _ ↦ trivial⟩
  · rw [h]
    refine ⟨trivial, fun enabled ↦ .ite (fun _ ↦ ?_) fun _ ↦ trivial⟩
    rcases hnext with rfl | ⟨title, text, -, -, rfl⟩
    · trivial
    · exact receive_calls P sbn title text

end Aigentik.AigentikNotificationListener
