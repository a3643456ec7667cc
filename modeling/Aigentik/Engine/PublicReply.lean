import Aigentik.Ai.OnDemandLoading
import Aigentik.Core.MessageEngine
import Aigentik.Effects.History

namespace Aigentik.PublicReply

open Strings Effects AgentLLMFacade ActionPolicyEngine MessageEngine

/-- The calls by which a text leaves the phone. -/
def isOutbound : ActOp → Bool
  | .sendReply .. | .routeReply .. | .sendEmailDirect .. => true
  | _ => false

variable (P : Platform) (cfg : EngineConfig) (message : Message)

def fallbackDraft (senderName : Option Str) : Str :=
  fallbackSmsReply cfg.agentName cfg.ownerName senderName ++ signature cfg.agentName cfg.ownerName

def promptFor (contact : ContactEngine.Contact) : Prompt :=
  smsPrompt cfg.agentName cfg.ownerName (message.senderName <|> contact.name) message.sender message.body
    contact.relationship contact.instructions

/-- What has to have happened before a reply: nothing has been sent, the contact is to be
answered, the model has written the text, and the policy allows it. -/
structure Warranted (h : List (Event actSig)) (reply : Reply) : Prop where
  first : ∀ e ∈ h, isOutbound e.1 = false
  written : ∃ contact raw,
    (⟨.findOrCreateByPhone message.sender, .ok contact⟩ : Event actSig) ∈ h ∧
    (contact.replyBehavior = .always ∨ contact.replyBehavior = .auto) ∧
    (⟨.complete (promptFor cfg message contact), .text raw⟩ : Event actSig) ∈ h ∧
    trim raw ≠ [] ∧ reply = .generated (trim raw ++ signature cfg.agentName cfg.ownerName)
  allowed : (evaluatePublicReply P message.sender (channelLabel message.channel) reply.text).allowed
  not_fallback : ∀ senderName, reply.text ≠ fallbackDraft cfg senderName

/-- A reply is warranted, and no mail is composed. -/
def Justified (h : List (Event actSig)) : ActOp → Prop
  | .sendReply _ reply | .routeReply _ reply => Warranted P cfg message h reply
  | .sendEmailDirect .. => False
  | _ => True

variable {P cfg message}

/-! The policy and the fallback -/

theorem autoReply_allowed {toPhone channel draft : Str} {confidence : ℚ} :
    (evaluate P (.autoReply toPhone channel draft) .publicCaller confidence).allowed ↔
      AUTO_APPROVE_CONFIDENCE_THRESHOLD ≤ confidence := by
  by_cases h : AUTO_APPROVE_CONFIDENCE_THRESHOLD ≤ confidence <;>
    simp [PolicyDecision.allowed, evaluate, matrix, RiskScorer.score, h]

theorem evaluatePublicReply_allowed {toPhone channel draft : Str} :
    (evaluatePublicReply P toPhone channel draft).allowed ↔
      ¬P.containsIgnoreCase draft "will get back to you soon" := by
  rw [evaluatePublicReply, autoReply_allowed]
  by_cases hphrase : P.containsIgnoreCase draft "will get back to you soon" = true
  · rw [if_pos hphrase]
    exact iff_of_false (by decide +kernel) (not_not.mpr hphrase)
  · rw [if_neg hphrase]
    exact iff_of_true (by decide +kernel) hphrase

/-- The phrase of the fallback survives every folding of letters. -/
theorem fallbackDraft_phrase (senderName : Option Str) :
    P.containsIgnoreCase (fallbackDraft cfg senderName) "will get back to you soon" := by
  have hphrase : "will get back to you soon".toList <:+: fallbackDraft cfg senderName := by
    have hinfix : "will get back to you soon".toList <:+: " will get back to you soon.".toList :=
      ⟨" ".toList, ".".toList, rfl⟩
    refine hinfix.trans ?_
    exact ((List.suffix_append _ _).isInfix).trans (List.prefix_append _ _).isInfix
  exact contains_of_infix (hphrase.map P.fold)

/-- A draft that is allowed is the model's. -/
theorem smsReply_allowed {senderName : Option Str} {outcome : ModelOutcome} {toPhone channel : Str}
    (h : (evaluatePublicReply P toPhone channel
      (smsReply cfg.agentName cfg.ownerName senderName outcome).text).allowed) :
    ∃ raw, outcome = .text raw ∧ trim raw ≠ [] ∧ smsReply cfg.agentName cfg.ownerName senderName outcome =
      .generated (trim raw ++ signature cfg.agentName cfg.ownerName) := by
  have hfixed (hdraft : smsReply cfg.agentName cfg.ownerName senderName outcome =
      .fixed (fallbackDraft cfg senderName)) : False := by
    rw [hdraft] at h
    exact evaluatePublicReply_allowed.mp h (fallbackDraft_phrase senderName)
  cases outcome with
  | unavailable => exact (hfixed rfl).elim
  | threw => exact (hfixed rfl).elim
  | text raw =>
    by_cases hblank : trim raw = []
    · exact (hfixed (if_pos hblank)).elim
    · exact ⟨raw, rfl, hblank, if_neg hblank⟩

theorem not_fallback_of_allowed {toPhone channel draft : Str}
    (h : (evaluatePublicReply P toPhone channel draft).allowed) (senderName : Option Str) :
    draft ≠ fallbackDraft cfg senderName := by
  intro heq
  subst heq
  exact evaluatePublicReply_allowed.mp h (fallbackDraft_phrase senderName)

/-! The draft -/

abbrev anyFacade : Discipline OnDemandLoading.facadeSig Unit := ⟨fun _ _ ↦ True, fun _ _ _ ↦ True, fun l _ _ ↦ l⟩

theorem anyFacade_wp {α : Type} (p : OnDemandLoading.Facade α) : p.wp anyFacade (fun _ _ ↦ True) () :=
  (Prog.calls_of_forall (fun _ ↦ trivial) p).wp_allowed (C := fun _ ↦ True) fun _ _ _ ↦ trivial

/-- Whatever the loading and the model do, the facade answers as it does to one of the
outcomes that a handler may be given. -/
theorem generateSmsReply_outcome (senderName : Option Str) (senderPhone body : Str)
    (relationship instructions : Option Str) :
    (OnDemandLoading.generateSmsReply cfg.agentName cfg.ownerName senderName senderPhone body relationship
      instructions).wp anyFacade (Prog.exits
        (fun reply _ ↦ ∃ outcome, reply = smsReply cfg.agentName cfg.ownerName senderName outcome)
        fun _ _ ↦ True) () := by
  refine ⟨trivial, fun _ _ ↦ ?_⟩
  change Prog.wp anyFacade _ (OnDemandLoading.ensureLoaded >>= _) ()
  refine (Prog.wp_bind _ _).mpr (Prog.wp_mono (anyFacade_wp _) fun o _ _ ↦ ?_)
  cases o with
  | error e => trivial
  | ok loaded =>
    cases loaded with
    | false => exact ⟨.unavailable, rfl⟩
    | true =>
      refine (Prog.wp_bind _ _).mpr (Prog.wp_mono (anyFacade_wp _) fun o _ _ ↦ ?_)
      cases o with
      | error e => trivial
      | ok outcome =>
        refine (Prog.wp_bind _ _).mpr (Prog.wp_mono (anyFacade_wp _) fun o _ _ ↦ ?_)
        cases o with
        | error e => trivial
        | ok _ => exact ⟨outcome, rfl⟩

/-! The handler -/

variable {Q : Except Throwable Unit → List (Event actSig) → Prop} {h : List (Event actSig)}

variable (P cfg message) in
abbrev disc : Discipline actSig (List (Event actSig)) := .history (Justified P cfg message) fun _ _ _ ↦ True

variable (message) in
/-- Nothing has been sent, and the contact of the sender is known. -/
structure Asked (contact : ContactEngine.Contact) (h : List (Event actSig)) : Prop where
  first : ∀ e ∈ h, isOutbound e.1 = false
  contact : (⟨.findOrCreateByPhone message.sender, .ok contact⟩ : Event actSig) ∈ h

theorem first_call {op : ActOp} {r : actSig.Resp op} (hfirst : ∀ e ∈ h, isOutbound e.1 = false)
    (hop : isOutbound op = false) : ∀ e ∈ h ++ [⟨op, r⟩], isOutbound e.1 = false := by
  intro e he
  rcases List.mem_append.mp he with he | he
  · exact hfirst e he
  · rw [List.mem_singleton.mp he]
    exact hop

theorem notify_wp (text : Str) : (notify text).wp (disc P cfg message) (fun _ _ ↦ True) h :=
  ⟨trivial, fun _ _ ↦ trivial⟩

theorem sendDraft_wp {contact : ContactEngine.Contact} {reply : Reply} (hw : Warranted P cfg message h reply) :
    (sendDraft message contact reply).wp (disc P cfg message) (fun _ _ ↦ True) h := by
  unfold sendDraft
  split
  · refine (Prog.wp_bind _ _).mpr ⟨hw, fun sent _ ↦ ?_⟩
    cases sent with
    | error e => trivial
    | ok sent =>
      cases sent with
      | true => trivial
      | false => exact notify_wp _
  · refine ⟨hw, fun routed _ ↦ ?_⟩
    cases routed <;> trivial
  · refine ⟨hw, fun routed _ ↦ ?_⟩
    cases routed <;> trivial
  · trivial
  · trivial

theorem autoReply_wp {contact : ContactEngine.Contact} (hasked : Asked message contact h)
    (hbehavior : contact.replyBehavior = .always ∨ contact.replyBehavior = .auto) :
    (autoReply P cfg message contact).wp (disc P cfg message) (fun _ _ ↦ True) h := by
  refine ⟨trivial, fun outcome _ ↦ ⟨trivial, fun _ _ ↦ ?_⟩⟩
  change Prog.wp _ _ (if PolicyDecision.allowed _ = true then _ else _ : Act Unit) _
  split
  · rename_i hallowed
    obtain ⟨raw, rfl, hblank, hreply⟩ := smsReply_allowed hallowed
    have hw : Warranted P cfg message (h ++ [⟨.complete (promptFor cfg message contact), .text raw⟩] ++
        [⟨.policyLog (evaluatePublicReply P message.sender (channelLabel message.channel)
          (smsReply cfg.agentName cfg.ownerName (message.senderName <|> contact.name) (.text raw)).text), ()⟩])
        (smsReply cfg.agentName cfg.ownerName (message.senderName <|> contact.name) (.text raw)) := by
      refine ⟨first_call (first_call hasked.first rfl) rfl, ⟨contact, raw, ?_, hbehavior, ?_, hblank, hreply⟩,
        hallowed, not_fallback_of_allowed hallowed⟩
      · exact List.mem_append_left _ (List.mem_append_left _ hasked.contact)
      · exact List.mem_append_left _ (List.mem_append_right _ (List.mem_singleton.mpr rfl))
    refine (Prog.wp_bind _ _).mpr (Prog.wp_mono (sendDraft_wp hw) fun o _ _ ↦ ?_)
    cases o with
    | ok _ => exact notify_wp _
    | error e => trivial
  · exact notify_wp _

theorem Asked.notify {contact : ContactEngine.Contact} {text : Str} (hasked : Asked message contact h) :
    Asked message contact (h ++ [⟨.notify text, ()⟩]) :=
  ⟨first_call hasked.first rfl, List.mem_append_left _ hasked.contact⟩

theorem notifyMention_wp {contact : ContactEngine.Contact} (sender : Str)
    (hasked : Asked message contact h) : (notifyMention P cfg message sender).wp (disc P cfg message)
      (Prog.exits (fun _ ↦ Asked message contact) fun _ _ ↦ False) h := by
  unfold notifyMention
  split
  · exact ⟨trivial, fun _ _ ↦ hasked.notify⟩
  · exact hasked

theorem answerPublic_wp : (answerPublic P cfg message).wp (disc P cfg message) (fun _ _ ↦ True) [] := by
  refine ⟨trivial, fun found _ ↦ ?_⟩
  cases found with
  | error e => trivial
  | ok contact =>
    have hasked : Asked message contact [⟨.findOrCreateByPhone message.sender, .ok contact⟩] :=
      ⟨by simp [isOutbound], List.mem_singleton.mpr rfl⟩
    change Prog.wp _ _ (if contact.replyBehavior ≠ .never then _ else _ : Act Unit) _
    split
    · refine (Prog.wp_bind _ _).mpr (Prog.wp_mono (notifyMention_wp _ hasked) fun o log hlog ↦ ?_)
      cases o with
      | error e => trivial
      | ok _ =>
        change Prog.wp _ _ (if contact.replyBehavior = .always ∨ contact.replyBehavior = .auto then _ else _ :
          Act Unit) _
        split
        · rename_i hbehavior
          exact autoReply_wp hlog hbehavior
        · exact notify_wp _
    · trivial

theorem handlePublicMessage_wp :
    (handlePublicMessage P cfg message).wp (disc P cfg message) (fun _ _ ↦ True) [] := by
  refine (Prog.wp_tryCatch _ _).mpr (Prog.wp_mono answerPublic_wp fun o _ _ ↦ ?_)
  cases o with
  | ok _ => trivial
  | error e => exact notify_wp _

theorem Justified.first {op : ActOp} (hj : Justified P cfg message h op) (hop : isOutbound op = true) :
    ∀ e ∈ h, isOutbound e.1 = false := by
  cases op <;> first | exact hj.elim | exact Warranted.first hj | cases hop

variable (P cfg message)

/-- One reply at most, which the model has written for a contact that is to be answered, and
which the policy allows. -/
theorem public_reply (A : Answers actSig) :
    (((handlePublicMessage P cfg message).called A []).filter isOutbound).length ≤ 1 ∧
      Along (fun h e ↦ Justified P cfg message h e.1) [] ((handlePublicMessage P cfg message).events A []) := by
  have hmay : Along (fun h e ↦ (disc P cfg message).may h e.1 e.2) []
      ((handlePublicMessage P cfg message).events A []) := fun _ _ _ _ ↦ trivial
  have halong := (Prog.along_of_wp handlePublicMessage_wp hmay).1
  exact ⟨Along.at_most_once (halong.mono fun h e hj hop ↦ hj.first hop), halong⟩

end Aigentik.PublicReply
