import Aigentik.Agent.ActionPolicyEngine
import Aigentik.Auth.AdminAuthManager
import Aigentik.Core.ChannelManager
import Aigentik.Core.ContactEngine
import Aigentik.Core.Message

namespace Aigentik

open Strings Effects AgentLLMFacade ActionPolicyEngine

/-- What a launched coroutine has been given to do. -/
inductive Task
  | login (message : Message)
  | queued (message : Message) (isAdmin : Bool)
  deriving DecidableEq

inductive Handler
  | admin | publicMessage
  deriving DecidableEq

/-- The calls by which a handler reads and changes the world. The model may be
asked with `complete`; every policy decision is logged with `policyLog`. -/
inductive ActOp
  | notify (text : Str)
  | sendReply (messageId : Str) (reply : Reply)
  | routeReply (senderIdentifier : Str) (reply : Reply)
  | sendEmailDirect (recipient subject body : Str)
  | complete (prompt : Prompt)
  | policyLog (pd : PolicyDecision)
  | channelIsEnabled (channel : ChannelManager.Channel)
  | channelEnable (channel : ChannelManager.Channel)
  | channelDisable (channel : ChannelManager.Channel)
  | findContact (identifier : Str)
  | findByRelationship (relationship : Str)
  | findAllByName (name : Str)
  | findOrCreateByPhone (phone : Str)
  | setInstructions (identifier : Str) (instructions : Option Str)
      (behavior : Option ContactEngine.ReplyBehavior)
  | contactCount
  | syncAndroidContacts
  | stateLabel
  | hasAppContext
  | isSignedIn
  | countUnreadBySender
  deriving DecidableEq

/-- The calls by which coroutines are started and kept apart. `begin`, `finish`
and `passGuard` change nothing: they mark the entry and the return of a handler,
and the point behind the destructive guard. -/
inductive SyncOp
  | isPaused
  | acquireWakeLock
  | releaseWakeLock
  | lock
  | unlock
  | launch (task : Task)
  | begin (handler : Handler) (message : Message)
  | finish (handler : Handler)
  | passGuard (channelKey input : Str)
  deriving DecidableEq

inductive EngineOp
  | auth (op : AdminAuthManager.Op)
  | act (op : ActOp)
  | sync (op : SyncOp)
  deriving DecidableEq

abbrev actSig : Sig where
  Op := ActOp
  Resp
    | .notify _ | .policyLog _ | .channelEnable _ | .channelDisable _ => Unit
    | .sendReply .. | .sendEmailDirect .. => Except Throwable Bool
    | .routeReply .. | .setInstructions .. => Except Throwable Unit
    | .complete _ => ModelOutcome
    | .channelIsEnabled _ | .hasAppContext | .isSignedIn => Bool
    | .findContact _ | .findByRelationship _ => Except Throwable (Option ContactEngine.Contact)
    | .findAllByName _ => Except Throwable (List ContactEngine.Contact)
    | .findOrCreateByPhone _ => Except Throwable ContactEngine.Contact
    | .contactCount => ℕ
    | .syncAndroidContacts => Except Throwable ℕ
    | .stateLabel => Str
    | .countUnreadBySender => Except Throwable (List (Str × ℕ))

abbrev syncSig : Sig where
  Op := SyncOp
  Resp
    | .isPaused => Bool
    | _ => Unit

abbrev engineSig : Sig where
  Op := EngineOp
  Resp
    | .auth op => AdminAuthManager.sig.Resp op
    | .act op => actSig.Resp op
    | .sync op => syncSig.Resp op

abbrev authHom : AdminAuthManager.sig.Hom engineSig where
  op := .auth
  resp _ := .refl _

abbrev actHom : actSig.Hom engineSig where
  op := .act
  resp _ := .refl _

abbrev Act (α : Type) := Prog actSig Throwable α

abbrev Engine (α : Type) := Prog engineSig Throwable α

abbrev act (op : ActOp) : Act (actSig.Resp op) := .call op .ret

abbrev sync (op : SyncOp) : Engine (syncSig.Resp op) := .call (.sync op) .ret

abbrev liftAuth {α : Type} (p : AdminAuthManager.Auth α) : Engine α := p.lift authHom

abbrev liftAct {α : Type} (p : Act α) : Engine α := p.lift actHom

/-- The answers of a world with an owner and a password, but no session, no
pending command, no contact and no model. -/
def quiet : (op : EngineOp) → engineSig.Resp op
  | .auth .ownerName => "Owner".toList
  | .auth .adminPasswordHash =>
    "000102030405060708090a0b0c0d0e0f:e94d845bf93a4b2ff996280e4d729e71828d5632e2339ff2e5ccf00094f5c7a1".toList
  | .auth .currentTimeMillis => (0 : ℤ)
  | .auth (.sessionGet _) => (none : Option ℤ)
  | .auth (.pendingGet _) => (none : Option Str)
  | .auth (.sessionPut ..) | .auth (.sessionRemove _) | .auth .sessionsClear
  | .auth (.pendingPut ..) | .auth (.pendingRemove _) | .auth .pendingClear => ()
  | .act (.notify _) | .act (.policyLog _) | .act (.channelEnable _) | .act (.channelDisable _) => ()
  | .act (.sendReply ..) | .act (.sendEmailDirect ..) => (.ok true : Except Throwable Bool)
  | .act (.routeReply ..) | .act (.setInstructions ..) => (.ok () : Except Throwable Unit)
  | .act (.complete _) => ModelOutcome.unavailable
  | .act (.channelIsEnabled _) => true
  | .act .hasAppContext | .act .isSignedIn => false
  | .act (.findContact _) | .act (.findByRelationship _) =>
    (.ok none : Except Throwable (Option ContactEngine.Contact))
  | .act (.findAllByName _) => (.ok [] : Except Throwable (List ContactEngine.Contact))
  | .act (.findOrCreateByPhone phone) => (.ok ⟨"contact_0", none, [phone], [], [], none, "unknown",
      none, none, .auto, 0, "sms"⟩ : Except Throwable ContactEngine.Contact)
  | .act .contactCount => (0 : ℕ)
  | .act .syncAndroidContacts => (.ok 0 : Except Throwable ℕ)
  | .act .stateLabel => ([] : Str)
  | .act .countUnreadBySender => (.ok [] : Except Throwable (List (Str × ℕ)))
  | .sync .isPaused => false
  | .sync .acquireWakeLock | .sync .releaseWakeLock | .sync .lock | .sync .unlock
  | .sync (.launch _) | .sync (.begin ..) | .sync (.finish _) | .sync (.passGuard ..) => ()

end Aigentik
