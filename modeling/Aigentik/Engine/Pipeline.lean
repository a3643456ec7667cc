import Aigentik.Effects.Layers
import Aigentik.Email.EmailMonitor
import Aigentik.Engine.Coroutines
import Aigentik.Sms.AigentikNotificationListener

namespace Aigentik.Pipeline

open Strings Effects MessageEngine GmailApiClient AgentLLMFacade
open AigentikNotificationListener (StatusBarNotification)

/-- The calls of all threads: those of the engine, of the mail monitor and of the
notification listener. -/
inductive SystemOp
  | engine (op : EngineOp)
  | mail (op : MailOp)
  | listener (op : AigentikNotificationListener.Op)
  deriving DecidableEq

abbrev systemSig : Sig where
  Op := SystemOp
  Resp
    | .engine op => engineSig.Resp op
    | .mail op => mailSig.Resp op
    | .listener op => AigentikNotificationListener.sig.Resp op

abbrev mailRouterHom : EmailRouter.sig.Hom systemSig where
  op op := .mail (.router op)
  resp _ := .refl _

abbrev replyRouterHom : NotificationReplyRouter.sig.Hom systemSig where
  op op := .listener (.router op)
  resp _ := .refl _

variable (P : Platform) (cfg : EngineConfig) (stackDepth : ℕ)

def routeReply (sender text : Str) : Prog systemSig Throwable Unit :=
  (EmailRouter.routeReply P sender text).lift mailRouterHom

def sendReply (messageId text : Str) : Prog systemSig Throwable Bool :=
  (NotificationReplyRouter.sendReply messageId text).lift replyRouterHom

/-- The engine's replies go through the two routers. -/
def engineLayer : (op : EngineOp) → Prog systemSig Empty (engineSig.Resp op)
  | .act (.routeReply sender reply) => (routeReply P sender reply.text).catching
  | .act (.sendReply messageId reply) => (sendReply messageId reply.text).catching
  | op => .call (.engine op) .ret

def receive (message : Message) : Prog systemSig Throwable Unit :=
  (onMessageReceived P cfg message).subst (engineLayer P)

/-- The monitor and the listener hand their messages to `onMessageReceived`. -/
def mailLayer : (op : MailOp) → Prog systemSig Empty (mailSig.Resp op)
  | .hand message => (receive P cfg message).catching
  | op => .call (.mail op) .ret

def listenerLayer :
    (op : AigentikNotificationListener.Op) → Prog systemSig Empty (AigentikNotificationListener.sig.Resp op)
  | .hand message => (receive P cfg message).catching
  | op => .call (.listener op) .ret

inductive Input
  | email (email : ParsedEmail)
  | posted (sbn : StatusBarNotification)
  | removed (sbn : StatusBarNotification)

def entry : Input → Prog systemSig Throwable Unit
  | .email email => (EmailMonitor.processEmail P email).subst (mailLayer P cfg)
  | .posted sbn => (AigentikNotificationListener.onNotificationPosted P sbn).subst (listenerLayer P cfg)
  | .removed sbn => (AigentikNotificationListener.onNotificationRemoved sbn).subst (listenerLayer P cfg)

/-- A launched task, or the coroutine that sends an e-mail reply. -/
def spawned : SystemOp → Option (Prog systemSig Throwable Unit)
  | .engine (.sync (.launch task)) => some ((coroutine P cfg stackDepth task).subst (engineLayer P))
  | .mail (.router (.launchReply reply)) => some (.call (.mail (.sendEmail reply)) fun _ ↦ .ret ())
  | _ => none

/-- What is stored for the replies to an e-mail. -/
inductive Context
  | gvoice (gvm : GoogleVoiceMessage)
  | email (email : ParsedEmail)
  deriving DecidableEq

/-- A notification that has been posted, with its text and the sender it was resolved to. -/
structure Posting where
  sbn : StatusBarNotification
  sender : Str
  text : Str
  deriving DecidableEq

/-- The handler that a thread is in. -/
abbrev Handling := Option (Handler × Message)

/-- A reply by e-mail that has been launched, or dropped, in a handler. The
contexts are those that were stored when the thread looked for one. -/
structure MailReply where
  handling : Handling
  contexts : List Context
  sent : Option Outgoing
  deriving DecidableEq

/-- The state of the engine, of the four router maps and of the deduplicator. The
rest records what has happened: the contexts stored, and when each thread last
looked for one, the replies by e-mail, the notifications resolved and the reply
actions fired. -/
structure Shared where
  engine : Coroutines.Shared
  gvoiceContext : SharedMap Str GoogleVoiceMessage
  emailContext : SharedMap Str ParsedEmail
  replyIds : SharedMap Str Str
  replyEntries : SharedMap Str NotificationReplyRouter.ReplyEntry
  dedup : MessageDeduplicator.State
  contexts : List Context
  looked : ℕ → List Context
  replies : List MailReply
  postings : List Posting
  fired : List (Handling × NotificationReplyRouter.ReplyEntry)

def Shared.init : Shared := ⟨.init, .empty, .empty, .empty, .empty, .init, [], fun _ ↦ [], [], [], []⟩

def Shared.handling (s : Shared) (thread : ℕ) : Handling := s.engine.running.lookup thread

/-- The values that a call stores. -/
def stored {κ ν : Type} : MapOp κ ν → List ν
  | .put _ value => [value]
  | _ => []

def isGet {κ ν : Type} : MapOp κ ν → Bool
  | .get _ => true
  | _ => false

/-- Records a call on a context map. -/
def Shared.note (s : Shared) (thread : ℕ) (get : Bool) (new : List Context) : Shared :=
  { s with
    contexts := s.contexts ++ new
    looked := if get then Function.update s.looked thread s.contexts else s.looked }

def Shared.reply (s : Shared) (thread : ℕ) (sent : Option Outgoing) : Shared :=
  { s with replies := s.replies ++ [⟨s.handling thread, s.looked thread, sent⟩] }

def mailRouterAct (thread : ℕ) : (op : EmailRouter.Op) → EmailRouter.sig.Resp op → Shared →
    Option (EmailRouter.sig.Resp op × Shared)
  | .hasContext, _, s => some (true, s)
  | .gvoiceContext op, offer, s => (s.gvoiceContext.act op offer).map fun (r, m) ↦
    (r, { s with gvoiceContext := m }.note thread (isGet op) ((stored op).map .gvoice))
  | .emailContext op, offer, s => (s.emailContext.act op offer).map fun (r, m) ↦
    (r, { s with emailContext := m }.note thread (isGet op) ((stored op).map .email))
  | .launchReply reply, _, s => some ((), s.reply thread (some reply))
  | .dropReply _, _, s => some ((), s.reply thread none)

def replyRouterAct (thread : ℕ) :
    (op : NotificationReplyRouter.Op) → NotificationReplyRouter.sig.Resp op → Shared →
      Option (NotificationReplyRouter.sig.Resp op × Shared)
  | .ids op, offer, s => (s.replyIds.act op offer).map fun (r, m) ↦ (r, { s with replyIds := m })
  | .entries op, offer, s =>
    (s.replyEntries.act op offer).map fun (r, m) ↦ (r, { s with replyEntries := m })
  | .dedup op, _, s =>
    let (r, dedup) := MessageDeduplicator.act op s.dedup
    some (r, { s with dedup })
  | .fire entry _ _, fired, s =>
    some (fired, if fired then { s with fired := s.fired ++ [(s.handling thread, entry)] } else s)
  | .currentTimeMillis, offer, s => some (offer, s)
  | .hasContext, offer, s => some (offer, s)

def act (thread : ℕ) : (op : SystemOp) → systemSig.Resp op → Shared →
    Option (systemSig.Resp op × Shared)
  | .engine op, offer, s => (Coroutines.act P thread op offer s.engine).map fun (r, engine) ↦
    (r, { s with engine })
  | .mail (.router op), offer, s => mailRouterAct thread op offer s
  | .listener (.router op), offer, s => replyRouterAct thread op offer s
  | .listener (.resolved sbn sender text), _, s =>
    some ((), { s with postings := s.postings ++ [⟨sbn, sender, text⟩] })
  | .mail _, offer, s => some (offer, s)
  | .listener _, offer, s => some (offer, s)

/-- The engine and the e-mail side are as they were. -/
structure SameMail (s s' : Shared) : Prop where
  engine : s'.engine = s.engine
  gvoiceContext : s'.gvoiceContext = s.gvoiceContext
  emailContext : s'.emailContext = s.emailContext
  contexts : s'.contexts = s.contexts
  looked : s'.looked = s.looked
  replies : s'.replies = s.replies

theorem replyRouterAct_mail {thread : ℕ} {op : NotificationReplyRouter.Op}
    {offer r : NotificationReplyRouter.sig.Resp op} {s s' : Shared}
    (h : replyRouterAct thread op offer s = some (r, s')) : SameMail s s' := by
  cases op with
  | ids op =>
    obtain ⟨_, -, heq⟩ := Option.map_eq_some_iff.mp h
    cases heq
    exact ⟨rfl, rfl, rfl, rfl, rfl, rfl⟩
  | entries op =>
    obtain ⟨_, -, heq⟩ := Option.map_eq_some_iff.mp h
    cases heq
    exact ⟨rfl, rfl, rfl, rfl, rfl, rfl⟩
  | fire entry key text =>
    cases h
    cases offer <;> exact ⟨rfl, rfl, rfl, rfl, rfl, rfl⟩
  | _ =>
    cases h
    exact ⟨rfl, rfl, rfl, rfl, rfl, rfl⟩

/-- Any number of e-mails processed and notifications posted and removed, with
the coroutines they launch. -/
def machine : Machine systemSig Throwable Shared Input where
  act := act P
  entry := entry P cfg
  spawned := spawned P cfg stackDepth

abbrev Configuration := Config systemSig Throwable Shared

/-! Runs along given labels -/

/-- The answers of a world in which nothing is known and everything works. -/
def quietListener : (op : AigentikNotificationListener.Op) → AigentikNotificationListener.sig.Resp op
  | .router (.ids op) => quietMap op
  | .router (.entries op) => quietMap op
  | .router (.dedup (.isNew ..)) => true
  | .router (.dedup (.sentTime ..)) => (none : Option ℤ)
  | .router (.dedup (.markSent ..)) => ()
  | .router .currentTimeMillis | .currentTimeMillis => (0 : ℤ)
  | .router .hasContext | .router (.fire ..) | .channelIsEnabled _ => true
  | .hand _ => (.ok () : Except Throwable Unit)
  | .findContact _ => (.ok none : Except Throwable (Option ContactEngine.Contact))
  | .onGmailNotification | .resolved .. => ()

/-- As `quiet`, but with a model that answers. -/
def quietSystem : (op : SystemOp) → systemSig.Resp op
  | .engine (.act (.complete _)) => ModelOutcome.text "Thanks"
  | .engine op => quiet op
  | .mail op => quietMail op
  | .listener op => quietListener op

abbrev sample : Machine systemSig Throwable Shared Input :=
  machine asciiPlatform ⟨"+16502530000", "Owner", "Aigentik"⟩ 3

abbrev steps (thread times : ℕ) : List (Label systemSig Input) :=
  List.replicate times (.step thread quietSystem)

end Aigentik.Pipeline
