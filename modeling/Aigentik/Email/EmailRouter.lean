import Aigentik.Core.PhoneNormalizer
import Aigentik.Effects.SharedMap
import Aigentik.Email.GmailApiClient

namespace Aigentik.EmailRouter

open Strings Effects GmailApiClient PhoneNormalizer

/-- The calls of the router: on the two context maps, the start of the coroutine
that sends a reply, and the log line of a reply that is dropped. -/
inductive Op
  | hasContext
  | gvoiceContext (op : MapOp Str GoogleVoiceMessage)
  | emailContext (op : MapOp Str ParsedEmail)
  | launchReply (reply : Outgoing)
  | dropReply (senderIdentifier : Str)
  deriving DecidableEq

abbrev sig : Sig where
  Op := Op
  Resp
    | .hasContext => Bool
    | .gvoiceContext op => (mapSig Str GoogleVoiceMessage).Resp op
    | .emailContext op => (mapSig Str ParsedEmail).Resp op
    | .launchReply _ | .dropReply _ => Unit

abbrev gvoiceHom : (mapSig Str GoogleVoiceMessage).Hom sig where
  op := .gvoiceContext
  resp _ := .refl _

abbrev emailHom : (mapSig Str ParsedEmail).Hom sig where
  op := .emailContext
  resp _ := .refl _

variable {ε κ ν : Type}

/-- A map that has grown beyond 200 entries loses its first key. -/
def evict (size : ℕ) : Prog (mapSig κ ν) ε Unit :=
  if size > 200 then .call .firstKey fun
    | some first => .call (.remove first) .ret
    | none => .ret ()
  else .ret ()

def storeCapped (key : κ) (value : ν) : Prog (mapSig κ ν) ε Unit :=
  .call (.put key value) fun _ ↦ .call .size evict

theorem evict_of_le {size : ℕ} (h : size ≤ 200) : (evict size : Prog (mapSig κ ν) ε Unit) = .ret () :=
  if_neg (Nat.not_lt.mpr h)

theorem storeCapped_total (key : κ) (value : ν) :
    (storeCapped key value : Prog (mapSig κ ν) ε Unit).Total := by
  intro _ size
  by_cases h : size > 200
  · rw [evict, if_pos h]
    intro first
    cases first with
    | some first => exact fun _ ↦ trivial
    | none => trivial
  · rw [evict, if_neg h]
    trivial

def gvoiceKey (senderPhone : Str) : Str := lastTen senderPhone

def emailKey (P : Platform) (fromEmail : Str) : Str := P.lowercase (trim fromEmail)

variable (P : Platform)

def storeGVoiceContext (senderPhone : Str) (gvm : GoogleVoiceMessage) : Prog sig ε Unit :=
  (storeCapped (gvoiceKey senderPhone) gvm).lift gvoiceHom

def storeEmailContext (fromEmail : Str) (email : ParsedEmail) : Prog sig ε Unit :=
  (storeCapped (emailKey P fromEmail) email).lift emailHom

def lookUpGVoice (gvKey : Str) : Prog sig ε (Option GoogleVoiceMessage) :=
  if gvKey = [] then .ret none else .call (.gvoiceContext (.get gvKey)) .ret

def replyByEmail (senderIdentifier replyText : Str) : Prog sig ε Unit :=
  .call (.emailContext (.get (emailKey P senderIdentifier))) fun
    | some email => .call (.launchReply (replyToEmail email replyText)) .ret
    | none => .call (.dropReply senderIdentifier) .ret

def routeReply (senderIdentifier replyText : Str) : Prog sig ε Unit :=
  .call .hasContext fun
    | false => .ret ()
    | true => do
      match ← lookUpGVoice (gvoiceKey senderIdentifier) with
      | some gvm => .call (.launchReply (replyToGoogleVoiceText gvm.originalEmail replyText)) .ret
      | none => replyByEmail P senderIdentifier replyText

def RouteCall : Op → Prop
  | .hasContext | .gvoiceContext (.get _) | .emailContext (.get _)
  | .launchReply _ | .dropReply _ => True
  | .gvoiceContext _ | .emailContext _ => False

theorem routeReply_calls (senderIdentifier replyText : Str) :
    (routeReply P senderIdentifier replyText : Prog sig ε Unit).Calls RouteCall := by
  have hlook : (lookUpGVoice (gvoiceKey senderIdentifier) : Prog sig ε _).Calls RouteCall := by
    unfold lookUpGVoice
    split
    · trivial
    · exact ⟨trivial, fun _ ↦ trivial⟩
  refine ⟨trivial, fun context ↦ ?_⟩
  cases context with
  | false => trivial
  | true =>
    refine hlook.bind fun gvm ↦ ?_
    cases gvm with
    | some gvm => exact ⟨trivial, fun _ ↦ trivial⟩
    | none =>
      refine ⟨trivial, fun email ↦ ?_⟩
      cases email <;> exact ⟨trivial, fun _ ↦ trivial⟩

end Aigentik.EmailRouter
