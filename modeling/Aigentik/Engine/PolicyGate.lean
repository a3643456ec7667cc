import Aigentik.Engine.World

namespace Aigentik.PolicyGate

open Strings Effects AgentLLMFacade ActionPolicyEngine AdminAuthManager MessageEngine World

/-- A send of text the model has written, or a change of a channel or of a
contact's reply policy. -/
def Effect : EngineOp → Prop
  | .act (.sendReply _ (.generated _)) | .act (.routeReply _ (.generated _))
  | .act (.sendEmailDirect ..) | .act (.channelEnable _) | .act (.channelDisable _)
  | .act (.setInstructions ..) => True
  | _ => False

def behaviorName : Option ContactEngine.ReplyBehavior → Option Str
  | some .auto => some "auto".toList
  | some .never => some "never".toList
  | some .always => some "always".toList
  | some .review => some "review".toList
  | none => none

/-- The action describes the effect: the same text to the same place, or the same
policy for the same contact. No action describes a change of a channel. -/
def Describes (message : Message) : ActionSchema → EngineOp → Prop
  | .autoReply toPhone _ draft, .act (.sendReply messageId reply) =>
    toPhone = message.sender ∧ messageId = message.id ∧ draft = reply.text
  | .autoReply toPhone _ draft, .act (.routeReply sender reply) =>
    toPhone = sender ∧ draft = reply.text
  | .sendEmail recipient _ body, .act (.sendEmailDirect to' _ text) =>
    recipient = trim to' ∧ body = trim text
  | .setContactInstructions target text behavior, .act (.setInstructions id text' behavior') =>
    target = trim id ∧ behavior = behaviorName behavior' ∧
      (behavior' = none → text = text'.map trim)
  | _, _ => False

/-- An evaluation before the call allowed an action that describes it. -/
def Approved (message : Message) (log : Log) (op : EngineOp) : Prop :=
  ∃ pd, ⟨.act (.policyLog pd), ()⟩ ∈ log ∧ pd.allowed ∧ Describes message pd.action op

def Gated (message : Message) (log : Log) : Prop :=
  Along (fun before e ↦ Effect e.1 → Approved message before e.1) [] log

/-! The way around the gate -/

variable (P : Platform) (cfg : EngineConfig) (model : Prompt → ModelOutcome) (pending : Pending)

/-- The command that gets past the destructive guard: the message's own, or the
pending one it confirms. -/
def released (message : Message) : Option Str :=
  let input := trim message.body
  if isConfirm P input then
    match pending message.sender with
    | some command =>
      if P.equalsIgnoreCase (trim (confirmed input)) (trim command) ∧ ¬isConfirm P (trim command)
      then some (trim command) else none
    | none => none
  else if isDestructiveCommand P input then none
  else some input

def answersBack : Message.Channel → Prop
  | .notification | .email | .gvoice => True
  | .sms | .chat => False

def writes : ModelOutcome → Prop
  | .text raw => trim raw ≠ []
  | .unavailable | .threw => False

/-- The action is allowed by the gate, but no branch of the dispatch is for it. -/
def undispatched (result : CommandResult) : Prop :=
  result.action = "check_status".toList ∨
    (result.action = "contact_lookup".toList ∧ ActionSchemaValidator.required result.target ≠ none)

/-- The command ends in a conversation. -/
def converses (input : Str) : Prop :=
  let lower := P.lowercase input
  let fallsThrough (result : CommandResult) : Prop := undispatched result ∧
    ¬startsWith lower "text " ∧ ¬startsWith lower "send " ∧ ¬contains lower "email"
  let quickResult := parseSimpleCommand P input
  if quickResult.action ≠ "unknown".toList then fallsThrough quickResult
  else if looksLikeCommand lower then
    fallsThrough (interpretReply P input (model (interpretPrompt input)))
  else True

/-- The command is a channel toggle, or the model's part in a conversation is
sent back. -/
def ungated (message : Message) (input : Str) : Prop :=
  let lower := P.lowercase input
  match ChannelManager.parseToggleCommand P lower with
  | some _ => True
  | none => ¬(lower = "channels".toList ∨ contains lower "channel status") ∧
    converses P model input ∧ answersBack message.channel ∧
      writes (model (chatPrompt cfg.agentName cfg.ownerName input))

def Bypass (message : Message) (isAdmin : Bool) : Prop :=
  isAdmin ∧ ∃ input, released P pending message = some input ∧ ungated P cfg model message input

/-! Commands without effects, and those with one -/

/-- The call has no effect that the action does not describe. -/
def Within (message : Message) (action : ActionSchema) (op : ActOp) : Prop :=
  Effect (.act op) → Describes message action (.act op)

abbrev Harmless (op : ActOp) : Prop := ¬Effect (.act op)

theorem notify_calls (text : Str) : (notify text).Calls Harmless := act_calls id

theorem harmless_within {α : Type} {p : Act α} (h : p.Calls Harmless) (message : Message)
    (action : ActionSchema) : p.Calls (Within message action) :=
  h.mono fun _ hop he ↦ absurd he hop

section Commands

variable {message : Message}

theorem within_of_harmless {action : ActionSchema} {op : ActOp} (h : Harmless op) :
    Within message action op := fun he ↦ absurd he h

theorem within_neverReply (target : Str) : (neverReplyCommand target).Calls
    (Within message (.setContactInstructions (trim target) none (some "never".toList))) := by
  apply neverReplyCommand_calls fun _ ↦ within_of_harmless id
  · exact within_of_harmless id
  · exact within_of_harmless id
  · exact fun _ ↦ ⟨rfl, rfl, nofun⟩

theorem within_alwaysReply (target : Str) : (alwaysReplyCommand target).Calls
    (Within message (.setContactInstructions (trim target) none (some "always".toList))) := by
  apply alwaysReplyCommand_calls fun _ ↦ within_of_harmless id
  exact fun _ ↦ ⟨rfl, rfl, nofun⟩

theorem within_instructions (target instructions : Str) : (instructionsCommand target instructions).Calls
    (Within message (.setContactInstructions (trim target) (some (trim instructions)) none)) := by
  apply instructionsCommand_calls fun _ ↦ within_of_harmless id
  · exact within_of_harmless id
  · exact within_of_harmless id
  · exact fun _ ↦ ⟨rfl, rfl, fun _ ↦ rfl⟩

theorem within_sendEmail (recipient subject body : Str) : (sendEmailCommand cfg recipient body).Calls
    (Within message (.sendEmail (trim recipient) subject (trim body))) := by
  apply sendEmailCommand_calls cfg fun _ ↦ within_of_harmless id
  exact fun _ ↦ ⟨rfl, rfl⟩

end Commands

/-! The dispatch of an allowed action -/

/-- An action the gate lets through without a branch of its own is one of two. -/
theorem undispatched_of_allowed {result : CommandResult}
    (hok : ∀ raw, ActionSchemaValidator.validate result ≠ .unknown raw)
    (h₁ : result.action ≠ "find_contact".toList)
    (h₂ : result.action ∉ ["get_contact_phone".toList, "contact_phone".toList, "phone_number".toList])
    (h₃ : result.action ≠ "never_reply_to".toList) (h₄ : result.action ≠ "always_reply_to".toList)
    (h₅ : result.action ≠ "set_contact_instructions".toList) (h₆ : result.action ≠ "status".toList)
    (h₇ : result.action ≠ "send_sms".toList) (h₈ : result.action ≠ "send_email".toList)
    (h₉ : result.action ∉ ["check_email".toList, "read_email".toList, "list_email".toList])
    (h₀ : result.action ≠ "sync_contacts".toList) : undispatched result := by
  unfold ActionSchemaValidator.validate at hok
  simp only [h₂, h₃, h₄, h₅, h₇, h₈, h₉, h₀, if_false] at hok
  split at hok
  · rename_i h
    simp only [List.mem_cons, h₆, false_or, List.not_mem_nil, or_false] at h
    exact .inl h
  · split at hok
    · rename_i h
      simp only [List.mem_cons, h₁, false_or, List.not_mem_nil, or_false] at h
      refine .inr ⟨h, fun hnone ↦ ?_⟩
      rw [hnone] at hok
      exact hok _ rfl
    · exact absurd rfl (hok _)

open ActionSchemaValidator in
theorem dispatch_calls {message : Message} {input : Str} {result : CommandResult}
    (hok : ∀ raw, ActionSchemaValidator.validate result ≠ .unknown raw) (hd : ¬undispatched result) :
    (dispatch P cfg message input result).Calls
      (Within message (ActionSchemaValidator.validate result)) := by
  unfold dispatch
  refine .ite (fun _ ↦ ?_) fun h₁ ↦ ?_
  · cases result.target with
    | some target => exact harmless_within (findContactCommand_calls (fun _ ↦ id) id id id) ..
    | none => exact harmless_within (notify_calls _) ..
  refine .ite (fun _ ↦ ?_) fun h₂ ↦ ?_
  · cases result.target with
    | some target => exact harmless_within (contactPhoneCommand_calls (fun _ ↦ id) id id id) ..
    | none => exact harmless_within (notify_calls _) ..
  refine .ite (fun ha ↦ ?_) fun h₃ ↦ ?_
  · obtain ⟨target, ht, hquery⟩ := target_of_allowed hok (by simp [ha])
    rw [ht, validate_neverReply ha hquery]
    exact within_neverReply target
  refine .ite (fun ha ↦ ?_) fun h₄ ↦ ?_
  · obtain ⟨target, ht, hquery⟩ := target_of_allowed hok (by simp [ha])
    rw [ht, validate_alwaysReply ha hquery]
    exact within_alwaysReply target
  refine .ite (fun ha ↦ ?_) fun h₅ ↦ ?_
  · obtain ⟨target, ht, hquery⟩ := target_of_allowed hok (by simp [ha])
    rw [ht]
    cases hc : result.content with
    | none => exact harmless_within (notify_calls _) ..
    | some instructions =>
      rw [validate_instructions ha hquery, hc]
      exact within_instructions target instructions
  refine .ite (fun _ ↦ ?_) fun h₆ ↦ ?_
  · exact harmless_within (statusCommand_calls cfg (fun _ ↦ id) id id (fun _ ↦ id) id id) ..
  refine .ite (fun _ ↦ ?_) fun h₇ ↦ ?_
  · exact harmless_within (notify_calls _) ..
  refine .ite (fun ha ↦ ?_) fun h₈ ↦ ?_
  · obtain ⟨recipient, ht, hrecipient⟩ := target_of_allowed hok (by simp [ha])
    obtain ⟨body, hc, hbody⟩ := content_of_allowed hok ha
    rw [ht, hc, validate_sendEmail ha hrecipient hbody]
    exact within_sendEmail cfg recipient _ body
  refine .ite (fun _ ↦ ?_) fun h₉ ↦ ?_
  · exact harmless_within (checkEmailCommand_calls (fun _ ↦ id) id id id) ..
  refine .ite (fun _ ↦ ?_) fun h₀ ↦ ?_
  · exact harmless_within (syncContactsCommand_calls (fun _ ↦ id) id id id) ..
  exact absurd (undispatched_of_allowed hok h₁ h₂ h₃ h₄ h₅ h₆ h₇ h₈ h₉ h₀) hd

theorem dispatch_undispatched {message : Message} {input : Str} {result : CommandResult}
    (h : undispatched result) : dispatch P cfg message input result = fallback P cfg message input := by
  rcases h with h | ⟨h, -⟩ <;> simp [dispatch, h]

theorem undispatched_allowed {result : CommandResult} (h : undispatched result) :
    (evaluateAdmin P (ActionSchemaValidator.validate result)).allowed ∧
      ∀ message op, ¬Describes message (ActionSchemaValidator.validate result) op := by
  rcases h with h | ⟨h, ht⟩
  · simp [ActionSchemaValidator.validate, h, evaluateAdmin_allowed, Describes]
  · obtain ⟨target, ht⟩ := Option.ne_none_iff_exists'.mp ht
    simp [ActionSchemaValidator.validate, h, ht, evaluateAdmin_allowed, Describes]

/-! Handlings that stay within the gate -/

variable (rest : Answers engineSig) (message : Message)

abbrev gated : Discipline engineSig Log :=
  disc (answers model pending rest) fun log op ↦ Effect op → Approved message log op

variable {P cfg model pending rest message} {log : Log} {input : Str}

theorem harmless_wp {p : Act Unit} (hp : p.Calls Harmless) :
    (liftAct p).wp (gated model pending rest message) (fun _ _ ↦ True) log := by
  have hcalls : (liftAct p).Calls fun op ↦ ¬Effect op := hp.lift fun _ ↦ id
  exact hcalls.wp_allowed fun _ _ hop he ↦ absurd he hop

theorem recover_wp {p : Act Unit} {f : Throwable → Act Unit}
    (hp : (liftAct p).wp (gated model pending rest message) (fun _ _ ↦ True) log)
    (hf : ∀ e, (f e).Calls Harmless) :
    (liftAct (p.tryCatch f)).wp (gated model pending rest message) (fun _ _ ↦ True) log := by
  rw [liftAct, Prog.wp_lift, Prog.wp_tryCatch]
  refine Prog.wp_mono ((Prog.wp_lift ..).mp hp) fun o log' _ ↦ ?_
  cases o with
  | ok _ => trivial
  | error e => exact (Prog.wp_lift ..).mp (harmless_wp (hf e))

theorem first_wp {α : Type} {p : Act α} {f : α → Act Unit} (hp : p.Calls Harmless)
    (hf : ∀ a log, (liftAct (f a)).wp (gated model pending rest message) (fun _ _ ↦ True) log) :
    (liftAct (p >>= f)).wp (gated model pending rest message) (fun _ _ ↦ True) log := by
  rw [liftAct, Prog.wp_lift, Prog.wp_bind]
  have hfirst : p.wp ((gated model pending rest message).pull actHom) (fun _ _ ↦ True) log :=
    hp.wp_allowed fun _ _ hop he ↦ absurd he hop
  refine Prog.wp_mono hfirst fun o log' _ ↦ ?_
  cases o with
  | ok a => exact (Prog.wp_lift ..).mp (hf a log')
  | error e => trivial

def ApprovedAction (action : ActionSchema) (log : Log) : Prop :=
  ∃ pd, ⟨.act (.policyLog pd), ()⟩ ∈ log ∧ pd.allowed ∧ pd.action = action

theorem within_wp {p : Act Unit} {action : ActionSchema} (hp : p.Calls (Within message action))
    (hlog : ApprovedAction action log) :
    (liftAct p).wp (gated model pending rest message) (fun _ _ ↦ True) log := by
  have hcalls : (liftAct p).Calls fun op ↦ Effect op → Describes message action op :=
    hp.lift fun _ ↦ id
  have hwp := hcalls.wp (D := gated model pending rest message) (I := ApprovedAction action) ?_ hlog
  · exact Prog.wp_mono hwp fun _ _ _ ↦ trivial
  intro log op hlog hop
  obtain ⟨pd, hmem, hok, ha⟩ := hlog
  refine ⟨fun he ↦ ⟨pd, hmem, hok, ha ▸ hop he⟩, fun r _ ↦ ?_⟩
  exact ⟨pd, List.mem_append_left _ hmem, hok, ha⟩

theorem chatReply_fixed {outcome : ModelOutcome} (h : ¬writes outcome) :
    ∃ s, chatReply outcome = .fixed s := by
  cases outcome with
  | unavailable => exact ⟨_, rfl⟩
  | threw => exact ⟨_, rfl⟩
  | text raw =>
    rw [writes, not_not] at h
    exact ⟨_, by simp [chatReply, h]; rfl⟩

theorem replyToSender_calls {reply : Reply} (h : answersBack message.channel → ∃ s, reply = .fixed s) :
    (replyToSender message reply).Calls Harmless := by
  cases hc : message.channel <;> simp only [replyToSender, hc]
  · obtain ⟨s, rfl⟩ := h (by simp [hc, answersBack])
    exact (attempt_calls (act_calls id)).bind fun _ ↦ trivial
  · trivial
  · obtain ⟨s, rfl⟩ := h (by simp [hc, answersBack])
    exact attempt_calls (act_calls id)
  · exact notify_calls _
  · obtain ⟨s, rfl⟩ := h (by simp [hc, answersBack])
    exact attempt_calls (act_calls id)

theorem converse_wp (h : ¬(answersBack message.channel ∧
      writes (model (chatPrompt cfg.agentName cfg.ownerName input)))) :
    (liftAct (converse cfg message input)).wp (gated model pending rest message)
      (fun _ _ ↦ True) log := by
  refine ⟨nofun, fun outcome hout ↦ ?_⟩
  obtain rfl : outcome = model (chatPrompt cfg.agentName cfg.ownerName input) := hout
  refine harmless_wp ((notify_calls _).bind fun _ ↦ ?_)
  split
  · exact replyToSender_calls fun hback ↦ chatReply_fixed fun hw ↦ h ⟨hback, hw⟩
  · trivial

theorem fallback_wp (h : ¬startsWith (P.lowercase input) "text " →
      ¬startsWith (P.lowercase input) "send " → ¬contains (P.lowercase input) "email" →
      ¬(answersBack message.channel ∧
        writes (model (chatPrompt cfg.agentName cfg.ownerName input)))) :
    (liftAct (fallback P cfg message input)).wp (gated model pending rest message)
      (fun _ _ ↦ True) log := by
  simp only [fallback]
  split
  · exact harmless_wp (notify_calls _)
  · rename_i hstart
    rw [Bool.or_eq_true, not_or] at hstart
    split
    · exact harmless_wp (notify_calls _)
    · rename_i hemail
      exact converse_wp (h hstart.1 hstart.2 hemail)

theorem gate_wp {result : CommandResult} (h : undispatched result →
      ¬startsWith (P.lowercase input) "text " →
      ¬startsWith (P.lowercase input) "send " → ¬contains (P.lowercase input) "email" →
      ¬(answersBack message.channel ∧
        writes (model (chatPrompt cfg.agentName cfg.ownerName input)))) :
    (liftAct (gate P cfg message input result)).wp (gated model pending rest message)
      (fun _ _ ↦ True) log := by
  refine ⟨nofun, fun _ _ ↦ ?_⟩
  simp only [Prog.bind]
  split
  · rename_i hok
    by_cases hu : undispatched result
    · rw [dispatch_undispatched P cfg hu]
      exact fallback_wp (h hu)
    · rw [evaluateAdmin_allowed] at hok
      refine within_wp (dispatch_calls P cfg hok hu) ⟨_, List.mem_append_right _ (.head _), ?_, rfl⟩
      exact (evaluateAdmin_allowed ..).mpr hok
  · exact harmless_wp (notify_calls _)

theorem interpret_wp (h : ¬(converses P model input ∧ answersBack message.channel ∧
      writes (model (chatPrompt cfg.agentName cfg.ownerName input)))) :
    (liftAct (interpret P cfg message input (P.lowercase input))).wp
      (gated model pending rest message) (fun _ _ ↦ True) log := by
  simp only [interpret]
  split
  · rename_i hquick
    split
    · rename_i hcommand
      refine ⟨nofun, fun outcome hout ↦ ?_⟩
      obtain rfl : outcome = model (interpretPrompt input) := hout
      refine gate_wp fun hu h₁ h₂ h₃ hback ↦ h ⟨?_, hback⟩
      simp only [converses, hquick, hcommand, ne_eq, not_true, if_true, if_false]
      exact ⟨hu, h₁, h₂, h₃⟩
    · rename_i hcommand
      refine converse_wp fun hback ↦ h ⟨?_, hback⟩
      simp [converses, hquick, hcommand]
  · rename_i hquick
    refine gate_wp fun hu h₁ h₂ h₃ hback ↦ h ⟨?_, hback⟩
    simp only [converses, hquick, ne_eq, not_false_eq_true, if_true]
    exact ⟨hu, h₁, h₂, h₃⟩

theorem runCommand_wp (h : ¬ungated P cfg model message input) :
    (liftAct (runCommand P cfg message input)).wp (gated model pending rest message)
      (fun _ _ ↦ True) log := by
  simp only [runCommand]
  cases ht : ChannelManager.parseToggleCommand P (P.lowercase input) with
  | some toggle => simp [ungated, ht] at h
  | none =>
    simp only [ungated, ht] at h ⊢
    split
    · exact harmless_wp ((statusSummary_calls fun _ ↦ id).bind fun _ ↦ notify_calls _)
    · rename_i hstatus
      rw [Bool.or_eq_true, decide_eq_true_iff] at hstatus
      exact recover_wp (interpret_wp fun hc ↦ h ⟨hstatus, hc⟩) fun _ ↦ notify_calls _

theorem announce_calls (text : Str) : (announce message text).Calls Harmless := by
  refine (notify_calls _).bind fun _ ↦ ?_
  split
  · exact replyToSender_calls fun _ ↦ ⟨text, rfl⟩
  · trivial

theorem sendDraft_calls {contact : ContactEngine.Contact} {draft : Reply} :
    (sendDraft message contact draft).Calls
      (Within message (.autoReply message.sender (channelLabel message.channel) draft.text)) := by
  cases hc : message.channel <;> simp only [sendDraft, hc]
  · refine (attempt_calls (act_calls fun _ ↦ ⟨rfl, rfl, rfl⟩)).bind fun sent ↦ ?_
    split
    · exact harmless_within (notify_calls _) ..
    · trivial
  · trivial
  · exact attempt_calls (act_calls fun _ ↦ ⟨rfl, rfl⟩)
  · trivial
  · exact attempt_calls (act_calls fun _ ↦ ⟨rfl, rfl⟩)

theorem autoReply_wp {contact : ContactEngine.Contact} :
    (liftAct (autoReply P cfg message contact)).wp (gated model pending rest message)
      (fun _ _ ↦ True) log := by
  refine ⟨nofun, fun outcome _ ↦ ⟨nofun, fun _ _ ↦ ?_⟩⟩
  simp only [Prog.bind]
  split
  · rename_i hok
    refine within_wp (sendDraft_calls.bind fun _ ↦ harmless_within (notify_calls _) ..) ?_
    exact ⟨_, List.mem_append_right _ (.head _), hok, rfl⟩
  · exact harmless_wp (notify_calls _)

theorem publicMessage_wp : (liftAct (handlePublicMessage P cfg message)).wp
    (gated model pending rest message) (fun _ _ ↦ True) log := by
  refine recover_wp (first_wp (attempt_calls (act_calls id)) fun contact log ↦ ?_)
    fun _ ↦ notify_calls _
  split
  · refine first_wp ?_ fun _ log ↦ ?_
    · unfold notifyMention
      split
      · exact notify_calls _
      · trivial
    · split
      · exact autoReply_wp
      · exact harmless_wp (notify_calls _)
  · trivial

/-! From the handler to the command it runs -/

/-- No policy decision has been made yet. -/
def Undecided (log : Log) : Prop := ∀ pd, ⟨.act (.policyLog pd), ()⟩ ∉ log

theorem Undecided.append {op : EngineOp} {r : engineSig.Resp op} (h : Undecided log)
    (hop : ∀ pd, op ≠ .act (.policyLog pd)) : Undecided (log ++ [⟨op, r⟩]) := by
  intro pd hmem
  rcases List.mem_append.mp hmem with hmem | hmem
  · exact h pd hmem
  · exact hop pd (congrArg Sigma.fst (List.mem_singleton.mp hmem)).symm

variable {allow : Log → EngineOp → Prop} {Q : Except Throwable Unit → Log → Prop}

/-- The handler releases one command to `runCommand`, or makes an announcement. -/
theorem handleAdminCommand_wp (depth : ℕ) (hp : pendingAfter pending log = pending)
    (hlog : Undecided log) (hallow : ∀ log op, HandlerCall op → ¬Effect op → allow log op)
    (hnone : released P pending message = none → ∀ text log,
      (liftAct (announce message text)).wp (disc (answers model pending rest) allow) Q log)
    (hsome : ∀ input, released P pending message = some input → ∀ body log, Undecided log →
      (liftAct (runCommand P cfg { message with body := body } input)).wp
        (disc (answers model pending rest) allow) Q log) :
    (handleAdminCommand P cfg (depth + 2) message false).wp
      (disc (answers model pending rest) allow) Q log := by
  rw [handleAdminCommand]
  split
  · rename_i hconfirm
    rw [liftAuth, Prog.wp_bind, Prog.wp_lift]
    refine ⟨hallow _ _ trivial id, fun entry hget ↦ ?_⟩
    replace hget : entry = pending message.sender := by rw [← hp]; exact hget
    cases entry with
    | none => exact hnone (by simp [released, hconfirm, ← hget]) _ _
    | some command =>
      simp only [Prog.bind]
      split
      · rename_i heq
        refine ⟨hallow _ _ trivial id, fun _ _ ↦ ?_⟩
        change (handleAdminCommand P cfg (depth + 1) { message with body := command } true).wp _ Q _
        rw [handleAdminCommand]
        split
        · rename_i hagain
          rw [liftAuth, Prog.wp_bind, Prog.wp_lift]
          refine ⟨hallow _ _ trivial id, fun entry hget' ↦ ?_⟩
          obtain rfl : entry = none := by
            refine hget'.trans ?_
            simp [disc, Discipline.history, Discipline.pull, withPending, record]
          exact hnone (by simp [released, hconfirm, ← hget, hagain]) _ _
        · rename_i hagain
          simp only [Bool.not_true, Bool.false_and]
          refine ⟨hallow _ _ trivial id, fun _ _ ↦ ?_⟩
          refine hsome (trim command) (by simp [released, hconfirm, ← hget, hagain, heq]) command _ ?_
          exact ((hlog.append fun _ ↦ by simp).append fun _ ↦ by simp).append fun _ ↦ by simp
      · rename_i heq
        exact hnone (by simp [released, hconfirm, ← hget, heq]) _ _
  · rename_i hconfirm
    split
    · rename_i hguard
      refine ⟨hallow _ _ trivial id, fun _ _ ↦ hnone ?_ _ _⟩
      simpa [released, hconfirm] using hguard
    · rename_i hguard
      refine ⟨hallow _ _ trivial id, fun _ _ ↦ ?_⟩
      exact hsome _ (by simpa [released, hconfirm] using hguard) message.body _
        (hlog.append fun _ ↦ by simp)

theorem gated_of_not_bypass {isAdmin : Bool} (depth : ℕ)
    (h : ¬Bypass P cfg model pending message isAdmin) :
    (handle P cfg (depth + 2) message isAdmin).wp (gated model pending rest message)
      (fun _ _ ↦ True) [] := by
  have bracket {handler : Handler} {body : Engine Unit}
      (hbody : body.wp (gated model pending rest message) (fun _ _ ↦ True)
        [⟨.sync (.begin handler message), ()⟩]) :
      (bracket handler message body).wp (gated model pending rest message) (fun _ _ ↦ True) [] := by
    refine ⟨nofun, fun _ _ ↦ (Prog.wp_tryFinally _ _).mpr (Prog.wp_mono hbody ?_)⟩
    intro h' log _
    rcases h' with e | _
    · exact ⟨nofun, fun _ _ ↦ trivial⟩
    · exact ⟨nofun, fun _ _ ↦ trivial⟩
  cases isAdmin with
  | true =>
    refine bracket (handleAdminCommand_wp depth rfl (by simp [Undecided]) (fun _ _ _ hop he ↦ absurd he hop)
      (fun _ _ _ ↦ harmless_wp (announce_calls _)) fun input hin body log _ ↦ ?_)
    exact runCommand_wp fun hu ↦ h ⟨rfl, input, hin, hu⟩
  | false => exact bracket publicMessage_wp

/-! Handlings that go around the gate -/

def Leak (message : Message) (log : Log) : Prop :=
  ∃ pre e post, log = pre ++ e :: post ∧ Effect e.1 ∧ ¬Approved message pre e.1

theorem not_gated_of_leak (h : Leak message log) : ¬Gated message log := by
  intro hg
  obtain ⟨pre, e, post, heq, he, hna⟩ := h
  exact hna (by simpa using hg pre e post heq he)

abbrev bypassing (model : Prompt → ModelOutcome) (pending : Pending) (rest : Answers engineSig) :
    Discipline engineSig Log :=
  disc (answers model pending rest) fun _ _ ↦ True

/-- No decision so far describes any effect. -/
def Blind (message : Message) (log : Log) : Prop :=
  ∀ pd, ⟨.act (.policyLog pd), ()⟩ ∈ log → ∀ op, ¬Describes message pd.action op

theorem Blind.call {op : EngineOp} {r : engineSig.Resp op} (h : Blind message log)
    (hop : ∀ pd, op ≠ .act (.policyLog pd)) : Blind message (log ++ [⟨op, r⟩]) := by
  intro pd hmem
  rcases List.mem_append.mp hmem with hmem | hmem
  · exact h pd hmem
  · exact absurd (congrArg Sigma.fst (List.mem_singleton.mp hmem)).symm (hop pd)

theorem Blind.decide {pd : PolicyDecision} {r : Unit} (h : Blind message log)
    (hpd : ∀ op, ¬Describes message pd.action op) :
    Blind message (log ++ [⟨.act (.policyLog pd), r⟩]) := by
  intro pd' hmem
  rcases List.mem_append.mp hmem with hmem | hmem
  · exact h pd' hmem
  · cases List.mem_singleton.mp hmem
    exact hpd

theorem leak_wp (h : Leak message log) (p : Engine Unit) :
    p.wp (bypassing model pending rest) (fun _ ↦ Leak message) log := by
  refine Prog.wp_of_stable (fun log e hleak ↦ ?_) h p
  obtain ⟨pre, e', post, rfl, he, hna⟩ := hleak
  exact ⟨pre, e', post ++ [e], by simp, he, hna⟩

/-- An effect is the next call, and no decision describes it. -/
theorem effect_wp {op : EngineOp} {k : engineSig.Resp op → Engine Unit} (hb : Blind message log)
    (he : Effect op) : (Prog.call op k).wp (bypassing model pending rest) (fun _ ↦ Leak message) log := by
  refine ⟨trivial, fun r _ ↦ leak_wp ⟨log, ⟨op, r⟩, [], rfl, he, fun happ ↦ ?_⟩ _⟩
  obtain ⟨pd, hmem, -, hd⟩ := happ
  exact hb pd hmem op hd

theorem toggle_leaks {lower : Str} {channel : ChannelManager.Channel} {enable : Bool}
    (hb : Blind message log) : (liftAct (toggle lower channel enable)).wp
      (bypassing model pending rest) (fun _ ↦ Leak message) log := by
  unfold toggle
  split <;> cases enable <;> exact effect_wp hb trivial

theorem chatReply_generated {outcome : ModelOutcome} (h : writes outcome) :
    ∃ s, chatReply outcome = .generated s := by
  cases outcome with
  | unavailable => exact h.elim
  | threw => exact h.elim
  | text raw => exact ⟨trim raw, if_neg h⟩

theorem replyToSender_leaks {text : Str} (hb : Blind message log) (hback : answersBack message.channel) :
    (liftAct (replyToSender message (.generated text))).wp (bypassing model pending rest)
      (fun _ ↦ Leak message) log := by
  cases hc : message.channel <;> simp only [hc, answersBack] at hback <;>
    simp only [replyToSender, hc] <;> exact effect_wp hb trivial

theorem converse_leaks (hb : Blind message log) (hback : answersBack message.channel)
    (hw : writes (model (chatPrompt cfg.agentName cfg.ownerName input))) :
    (liftAct (converse cfg message input)).wp (bypassing model pending rest)
      (fun _ ↦ Leak message) log := by
  refine ⟨trivial, fun outcome hout ↦ ⟨trivial, fun _ _ ↦ ?_⟩⟩
  obtain rfl : outcome = model (chatPrompt cfg.agentName cfg.ownerName input) := hout
  change (liftAct (if message.channel ≠ .chat then
    replyToSender message (chatReply (model (chatPrompt cfg.agentName cfg.ownerName input)))
    else pure ())).wp _ _ _
  obtain ⟨s, hs⟩ := chatReply_generated hw
  have hchat : message.channel ≠ .chat := fun hc ↦ by simp [hc, answersBack] at hback
  rw [hs, if_pos hchat]
  exact replyToSender_leaks ((hb.call fun _ ↦ by simp).call fun _ ↦ by simp) hback

theorem fallback_leaks (hb : Blind message log) (hback : answersBack message.channel)
    (hw : writes (model (chatPrompt cfg.agentName cfg.ownerName input)))
    (h₁ : ¬startsWith (P.lowercase input) "text ") (h₂ : ¬startsWith (P.lowercase input) "send ")
    (h₃ : ¬contains (P.lowercase input) "email") :
    (liftAct (fallback P cfg message input)).wp (bypassing model pending rest)
      (fun _ ↦ Leak message) log := by
  simp only [fallback, h₁, h₂, h₃, Bool.or_false, Bool.false_eq_true, if_false]
  exact converse_leaks hb hback hw

theorem gate_leaks {result : CommandResult} (hb : Blind message log)
    (hback : answersBack message.channel)
    (hw : writes (model (chatPrompt cfg.agentName cfg.ownerName input)))
    (hu : undispatched result) (h₁ : ¬startsWith (P.lowercase input) "text ")
    (h₂ : ¬startsWith (P.lowercase input) "send ") (h₃ : ¬contains (P.lowercase input) "email") :
    (liftAct (gate P cfg message input result)).wp (bypassing model pending rest)
      (fun _ ↦ Leak message) log := by
  obtain ⟨hok, hd⟩ := undispatched_allowed P hu
  refine ⟨trivial, fun _ _ ↦ ?_⟩
  simp only [Prog.bind, hok, if_true]
  rw [dispatch_undispatched P cfg hu]
  exact fallback_leaks (hb.decide fun op ↦ hd message op) hback hw h₁ h₂ h₃

theorem interpret_leaks (hb : Blind message log) (hc : converses P model input)
    (hback : answersBack message.channel)
    (hw : writes (model (chatPrompt cfg.agentName cfg.ownerName input))) :
    (liftAct (interpret P cfg message input (P.lowercase input))).wp
      (bypassing model pending rest) (fun _ ↦ Leak message) log := by
  simp only [interpret]
  split
  · rename_i hquick
    split
    · rename_i hcommand
      simp only [converses, hquick, hcommand, ne_eq, not_true, if_true, if_false] at hc
      obtain ⟨hu, h₁, h₂, h₃⟩ := hc
      refine ⟨trivial, fun outcome hout ↦ ?_⟩
      obtain rfl : outcome = model (interpretPrompt input) := hout
      exact gate_leaks (hb.call fun _ ↦ by simp) hback hw hu h₁ h₂ h₃
    · exact converse_leaks hb hback hw
  · rename_i hquick
    simp only [converses, hquick, ne_eq, not_false_eq_true, if_true] at hc
    obtain ⟨hu, h₁, h₂, h₃⟩ := hc
    exact gate_leaks hb hback hw hu h₁ h₂ h₃

theorem runCommand_leaks (hb : Blind message log) (hu : ungated P cfg model message input) :
    (liftAct (runCommand P cfg message input)).wp (bypassing model pending rest)
      (fun _ ↦ Leak message) log := by
  simp only [runCommand]
  cases ht : ChannelManager.parseToggleCommand P (P.lowercase input) with
  | some toggle => exact toggle_leaks hb
  | none =>
    simp only [ungated, ht] at hu
    obtain ⟨hstatus, hc, hback, hw⟩ := hu
    have hstatus' : ¬(decide (P.lowercase input = "channels".toList) ||
        contains (P.lowercase input) "channel status") = true := by
      rwa [Bool.or_eq_true, decide_eq_true_iff]
    simp only [hstatus', Bool.false_eq_true, if_false]
    rw [liftAct, Prog.wp_lift, Prog.wp_tryCatch]
    refine Prog.wp_mono ((Prog.wp_lift ..).mp (interpret_leaks hb hc hback hw)) fun o log' hleak ↦ ?_
    cases o with
    | ok _ => exact hleak
    | error e => exact (Prog.wp_lift ..).mp (leak_wp hleak _)

theorem leak_of_bypass {isAdmin : Bool} (depth : ℕ) (h : Bypass P cfg model pending message isAdmin) :
    (handle P cfg (depth + 2) message isAdmin).wp (bypassing model pending rest)
      (fun _ ↦ Leak message) [] := by
  obtain ⟨rfl, input, hin, hu⟩ := h
  have hbody : (handleAdminCommand P cfg (depth + 2) message false).wp (bypassing model pending rest)
      (fun _ ↦ Leak message) [⟨.sync (.begin .admin message), ()⟩] := by
    refine handleAdminCommand_wp depth rfl (by simp [Undecided]) (fun _ _ _ _ ↦ trivial) ?_ ?_
    · intro hnone
      rw [hin] at hnone
      cases hnone
    · intro input' hin' body log hlog
      obtain rfl : input = input' := Option.some.inj (hin.symm.trans hin')
      exact runCommand_leaks (fun pd hmem ↦ absurd hmem (hlog pd)) hu
  refine ⟨trivial, fun _ _ ↦ (Prog.wp_tryFinally _ _).mpr (Prog.wp_mono hbody ?_)⟩
  intro o log hleak
  refine Prog.wp_mono (leak_wp hleak _) fun o' log' hleak' ↦ ?_
  cases o' <;> exact hleak'

variable (P cfg model pending rest message)

/-- A handling is gated exactly when it does not go around the gate. -/
theorem gated_iff (depth : ℕ) (isAdmin : Bool) :
    Gated message ((handle P cfg (depth + 2) message isAdmin).events (answers model pending rest) []) ↔
      ¬Bypass P cfg model pending message isAdmin := by
  constructor
  · intro hg hb
    exact not_gated_of_leak (Prog.along_of_wp (leak_of_bypass depth hb)
      (Prog.along_answers _ _ _)).2 hg
  · intro hb
    exact (Prog.along_of_wp (gated_of_not_bypass depth hb)
      (Prog.along_answers _ _ _)).1

def stopSms : Message := ⟨"m", .chat, "owner", none, "stop sms", [], [], 0, []⟩

/-- A channel toggle is never evaluated. -/
theorem toggle_not_gated : ¬Gated stopSms ((handle asciiPlatform ⟨[], "Owner", "Aigentik"⟩ 2 stopSms
    true).events (answers (fun _ ↦ .unavailable) (fun _ ↦ none) fun _ ↦ quiet) []) := by
  have htoggle : ChannelManager.parseToggleCommand asciiPlatform (asciiPlatform.lowercase "stop sms") =
      some (.sms, false) := by
    have hlower : asciiPlatform.lowercase "stop sms" = "stop sms".toList := by decide +kernel
    rw [hlower]
    decide +kernel
  have hbypass : Bypass asciiPlatform ⟨[], "Owner", "Aigentik"⟩ (fun _ ↦ .unavailable) (fun _ ↦ none)
      stopSms true := by
    refine ⟨rfl, "stop sms", by decide +kernel, ?_⟩
    simp only [ungated, htoggle]
  exact not_gated_of_leak (Prog.along_of_wp (leak_of_bypass 0 hbypass) (Prog.along_answers _ _ _)).2

end Aigentik.PolicyGate
