import Aigentik.Core.MessageDeduplicator

namespace Aigentik.NotificationReplyRouter

open Strings Effects

structure RemoteInput where
  resultKey : Str
  deriving DecidableEq

structure Action where
  remoteInputs : Option (List RemoteInput)
  deriving DecidableEq

structure Extras where
  title : Option Str
  bigText : Option Str
  text : Option Str
  deriving DecidableEq

structure Notification where
  isGroupSummary : Bool
  extras : Option Extras
  actions : Option (List Action)
  deriving DecidableEq

structure ReplyEntry where
  notification : Notification
  packageName : Str
  sbnKey : Str
  deriving DecidableEq

/-- The calls of the router: on its two maps, on the deduplicator, and the firing
of an entry's reply action (`false` for its exception). -/
inductive Op
  | ids (op : MapOp Str Str)
  | entries (op : MapOp Str ReplyEntry)
  | dedup (op : MessageDeduplicator.Op)
  | currentTimeMillis
  | hasContext
  | fire (entry : ReplyEntry) (resultKey replyText : Str)
  deriving DecidableEq

abbrev sig : Sig where
  Op := Op
  Resp
    | .ids op => (mapSig Str Str).Resp op
    | .entries op => (mapSig Str ReplyEntry).Resp op
    | .dedup op => MessageDeduplicator.sig.Resp op
    | .currentTimeMillis => ℤ
    | .hasContext | .fire .. => Bool

abbrev call {ε : Type} (op : Op) : Prog sig ε (sig.Resp op) := .call op .ret

def replyKeys (packageName : Str) : List Str :=
  if packageName = "com.samsung.android.messaging".toList then
    ["KEY_DIRECT_REPLY", "reply", "replyText", "android.intent.extra.text"]
  else if packageName = "com.google.android.apps.messaging".toList then
    ["reply_text", "reply", "android.intent.extra.text"]
  else ["reply", "reply_text", "replyText", "android.intent.extra.text"]

def findReplyAction (notification : Notification) : Option Action :=
  (notification.actions.getD []).find? fun action ↦ action.remoteInputs.any (· ≠ [])

def findRemoteInput (action : Action) (packageName : Str) : Option RemoteInput :=
  action.remoteInputs.bind fun inputs ↦
    ((replyKeys packageName).findSome? fun key ↦ inputs.find? (·.resultKey == key)) <|> inputs.head?

/-- The result key to reply under, if the entry takes a reply at all. -/
def resultKey (entry : ReplyEntry) : Option Str :=
  (findReplyAction entry.notification).bind fun action ↦
    (findRemoteInput action entry.packageName).map RemoteInput.resultKey

/-- `keys.first()` throws on an empty map. -/
def register (messageId : Str) (entry : ReplyEntry) : Prog sig Throwable Unit := do
  call (.ids (.put messageId entry.sbnKey))
  call (.entries (.put entry.sbnKey entry))
  if (← call (.entries .size)) > 100 then
    match ← call (.entries .firstKey) with
    | some oldest =>
      call (.entries (.remove oldest))
      call (.ids (.removeValue oldest))
    | none => .throw ⟨"NoSuchElementException", none⟩
  else return

variable {ε : Type}

def onNotificationRemoved (sbnKey : Str) : Prog sig ε Unit := do
  call (.entries (.remove sbnKey))
  call (.ids (.removeValue sbnKey))

def fireReply (messageId sbnKey key replyText : Str) (entry : ReplyEntry) : Prog sig ε Bool := do
  if ← call .hasContext then
    if ← call (.fire entry key replyText) then
      call (.dedup (.markSent replyText (← call .currentTimeMillis)))
      call (.entries (.remove sbnKey))
      call (.ids (.remove messageId))
      return true
    else return false
  else return false

def sendReply (messageId replyText : Str) : Prog sig ε Bool := do
  match ← call (.ids (.get messageId)) with
  | none => return false
  | some sbnKey =>
    match ← call (.entries (.get sbnKey)) with
    | none => return false
    | some entry =>
      match resultKey entry with
      | none => return false
      | some key => fireReply messageId sbnKey key replyText entry

/-- The calls of `sendReply`: it puts nothing into the maps. -/
def SendCall : Op → Prop
  | .ids (.put ..) | .entries (.put ..) => False
  | _ => True

theorem fireReply_calls (messageId sbnKey key replyText : Str) (entry : ReplyEntry) :
    (fireReply messageId sbnKey key replyText entry : Prog sig ε Bool).Calls SendCall := by
  refine ⟨trivial, fun context ↦ ?_⟩
  cases context with
  | false => trivial
  | true =>
    refine ⟨trivial, fun fired ↦ ?_⟩
    cases fired with
    | false => trivial
    | true => exact ⟨trivial, fun _ ↦ ⟨trivial, fun _ ↦ ⟨trivial, fun _ ↦ ⟨trivial, fun _ ↦ trivial⟩⟩⟩⟩

theorem sendReply_calls (messageId replyText : Str) :
    (sendReply messageId replyText : Prog sig ε Bool).Calls SendCall := by
  refine ⟨trivial, fun sbnKey ↦ ?_⟩
  cases sbnKey with
  | none => trivial
  | some sbnKey =>
    refine ⟨trivial, fun entry ↦ ?_⟩
    cases entry with
    | none => trivial
    | some entry =>
      dsimp only [Prog.bind]
      split
      · trivial
      · exact fireReply_calls ..

/-- What a posting puts into the maps is its own. -/
def RegisterCall (messageId : Str) (entry : ReplyEntry) : Op → Prop
  | .ids (.put k sbnKey) => k = messageId ∧ sbnKey = entry.sbnKey
  | .entries (.put k e) => k = entry.sbnKey ∧ e = entry
  | .ids (.get _) | .entries (.get _) | .fire .. => False
  | _ => True

theorem register_calls_of {C : Op → Prop} {messageId : Str} {entry : ReplyEntry}
    (hid : C (.ids (.put messageId entry.sbnKey))) (hentry : C (.entries (.put entry.sbnKey entry)))
    (hsize : C (.entries .size)) (hfirst : C (.entries .firstKey))
    (hoverflow : ∀ oldest, C (.entries (.remove oldest)) ∧ C (.ids (.removeValue oldest))) :
    (register messageId entry).Calls C := by
  refine ⟨hid, fun _ ↦ ⟨hentry, fun _ ↦ ⟨hsize, fun size ↦ ?_⟩⟩⟩
  dsimp only [Prog.bind]
  split
  · refine ⟨hfirst, fun oldest ↦ ?_⟩
    cases oldest with
    | none => trivial
    | some oldest => exact ⟨(hoverflow oldest).1, fun _ ↦ ⟨(hoverflow oldest).2, fun _ ↦ trivial⟩⟩
  · trivial

theorem register_calls (messageId : Str) (entry : ReplyEntry) :
    (register messageId entry).Calls (RegisterCall messageId entry) :=
  register_calls_of ⟨rfl, rfl⟩ ⟨rfl, rfl⟩ trivial trivial fun _ ↦ ⟨trivial, trivial⟩

/-- Where the maps may be called, an entry may be registered. -/
theorem register_lift {T : Sig} {C : T.Op → Prop} {f : sig.Hom T} (hids : ∀ op, C (f.op (.ids op)))
    (hentries : ∀ op, C (f.op (.entries op))) (messageId : Str) (entry : ReplyEntry) :
    ((register messageId entry).lift f).Calls C := by
  have hcalls : (register messageId entry).Calls fun op ↦ C (f.op op) :=
    register_calls_of (hids _) (hentries _) (hentries _) (hentries _) fun _ ↦ ⟨hentries _, hids _⟩
  exact hcalls.lift fun _ ↦ id

end Aigentik.NotificationReplyRouter
