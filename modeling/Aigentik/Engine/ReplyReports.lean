import Aigentik.Effects.Execution
import Aigentik.Engine.PublicReply
import Aigentik.Engine.Pipeline

namespace Aigentik.ReplyReports

open Strings Effects AgentLLMFacade ActionPolicyEngine MessageEngine PublicReply Pipeline

/-- What the owner has been told, the texts that a transport has accepted, and whether a draft
has been asked for. -/
structure Log where
  told : List Str
  accepted : List Str
  drafted : Bool

/-- The world answers each call in its own way; the handler makes none of the reading calls twice. -/
abbrev World := (op : SystemOp) → systemSig.Resp op

def note (l : Log) : (op : SystemOp) → systemSig.Resp op → Log
  | .engine (.act (.notify text)), _ => { l with told := l.told ++ [text] }
  | .engine (.act (.complete _)), _ => { l with drafted := true }
  | .listener (.router (.fire _ _ text)), fired => if fired then { l with accepted := l.accepted ++ [text] } else l
  | .mail (.router (.launchReply reply)), _ => { l with accepted := l.accepted ++ [reply.body] }
  | _, _ => l

variable (P : Platform) (cfg : EngineConfig) (message : Message) (world : World)

def recording (op : SystemOp) (l : Log) : systemSig.Resp op × Log := (world op, note l op (world op))

/-- The engine's calls, its replies through the two routers. -/
def actLayer (op : ActOp) : Prog systemSig Empty (actSig.Resp op) := engineLayer P (.act op)

def handled : Log :=
  (((handlePublicMessage P cfg message).subst (actLayer P)).exec (recording world) ⟨[], [], false⟩).2

/-- The end of the report that the text was sent. -/
def quoting (text : Str) : Str := "\nSent: \"" ++ text.take 80 ++ "\""

def Replied (text notice : Str) : Prop := "Auto-replied to ".toList <+: notice ∧ quoting text <:+ notice

/-- The reports that a draft was not sent. -/
def NotSent (notice : Str) : Prop :=
  "Could not send reply to ".toList <+: notice ∨ "Auto-reply to ".toList <+: notice

structure Faithful (l : Log) : Prop where
  reported : ∀ notice ∈ l.told, "Auto-replied to ".toList <+: notice → ∃ text ∈ l.accepted, Replied text notice
  accepted : ∀ text ∈ l.accepted, ∃ notice ∈ l.told, Replied text notice
  not_sent : l.drafted = true → l.accepted = [] → ∃ notice ∈ l.told, NotSent notice

/-- The notification's entry is there, takes a reply, and the reply can be fired. -/
def fires (text : Str) : Bool :=
  match (world (.listener (.router (.ids (.get message.id)))) : Option Str) with
  | none => false
  | some sbnKey =>
    match (world (.listener (.router (.entries (.get sbnKey)))) : Option NotificationReplyRouter.ReplyEntry) with
    | none => false
    | some entry =>
      match NotificationReplyRouter.resultKey entry with
      | none => false
      | some key =>
        (world (.listener (.router .hasContext)) : Bool) && (world (.listener (.router (.fire entry key text))) : Bool)

/-- A context is stored for the sender, and the router can use it. -/
def routes : Bool :=
  let gvKey := EmailRouter.gvoiceKey message.sender
  (world (.mail (.router .hasContext)) : Bool) &&
    (gvKey != [] && (world (.mail (.router (.gvoiceContext (.get gvKey)))) :
        Option GmailApiClient.GoogleVoiceMessage).isSome ||
      (world (.mail (.router (.emailContext (.get (EmailRouter.emailKey P message.sender))))) :
        Option GmailApiClient.ParsedEmail).isSome)

/-- The transport of the message's channel accepts the text. -/
def accepts (text : Str) : Bool :=
  match message.channel with
  | .notification => fires message world text
  | .email | .gvoice => routes P message world
  | .sms | .chat => false

variable {P cfg message world} {l : Log}

/-! The transports -/

variable (P world) in
def actSem (op : ActOp) (l : Log) : actSig.Resp op × Log := (actLayer P op).answer (recording world) l

abbrev Router (α : Type) := Prog NotificationReplyRouter.sig Throwable α

variable (world) in
def routerSem (op : NotificationReplyRouter.Op) (l : Log) : NotificationReplyRouter.sig.Resp op × Log :=
  (world (.listener (.router op)), note l (.listener (.router op)) (world (.listener (.router op))))

theorem fireReply_exec (messageId sbnKey key text : Str) (entry : NotificationReplyRouter.ReplyEntry) :
    (NotificationReplyRouter.fireReply messageId sbnKey key text entry : Prog _ Throwable Bool).exec
      (routerSem world) l =
    let fired := (world (.listener (.router .hasContext)) : Bool) &&
      (world (.listener (.router (.fire entry key text))) : Bool)
    (.ok fired, if fired then { l with accepted := l.accepted ++ [text] } else l) := by
  change (if (world (.listener (.router .hasContext)) : Bool) then _ else _ : Router Bool).exec (routerSem world) l = _
  cases (world (.listener (.router .hasContext)) : Bool) with
  | false => rfl
  | true =>
    rw [if_pos rfl, Bool.true_and]
    change (if (world (.listener (.router (.fire entry key text))) : Bool) then _ else _ : Router Bool).exec
      (routerSem world) (if (world (.listener (.router (.fire entry key text))) : Bool) then _ else l) = _
    cases (world (.listener (.router (.fire entry key text))) : Bool) with
    | false => rfl
    | true => rfl

theorem sendReply_sem (reply : Reply) : actSem P world (.sendReply message.id reply) l =
    ((.ok (fires message world reply.text) : Except Throwable Bool),
      if fires message world reply.text then { l with accepted := l.accepted ++ [reply.text] } else l) := by
  change Prog.answer (recording world) (sendReply message.id reply.text).catching l = _
  rw [Prog.answer_catching, sendReply, Prog.exec_lift, fires]
  unfold NotificationReplyRouter.sendReply
  simp only [NotificationReplyRouter.call, Prog.call_bind, Prog.ret_bind, Prog.exec_call, recording, Equiv.refl_apply]
  obtain ⟨sbnKey, hids⟩ : ∃ sbnKey : Option Str, world (.listener (.router (.ids (.get message.id)))) = sbnKey :=
    ⟨_, rfl⟩
  simp only [hids]
  cases sbnKey with
  | none => rfl
  | some sbnKey =>
    obtain ⟨entry, hentry⟩ : ∃ entry : Option NotificationReplyRouter.ReplyEntry,
        world (.listener (.router (.entries (.get sbnKey)))) = entry := ⟨_, rfl⟩
    simp only [Prog.exec_call, hentry]
    cases entry with
    | none => rfl
    | some entry =>
      cases hkey : NotificationReplyRouter.resultKey entry with
      | none =>
        simp only [hkey]
        rfl
      | some key =>
        simp only [hkey]
        exact fireReply_exec ..

variable (world) in
def mailSem (op : EmailRouter.Op) (l : Log) : EmailRouter.sig.Resp op × Log :=
  (world (.mail (.router op)), note l (.mail (.router op)) (world (.mail (.router op))))

theorem lookUpGVoice_exec (gvKey : Str) :
    (EmailRouter.lookUpGVoice gvKey : Prog EmailRouter.sig Throwable _).exec (mailSem world) l =
      (.ok (if gvKey = [] then none else world (.mail (.router (.gvoiceContext (.get gvKey))))), l) := by
  unfold EmailRouter.lookUpGVoice
  split <;> rfl

theorem replyByEmail_exec (sender text : Str) :
    (EmailRouter.replyByEmail P sender text : Prog EmailRouter.sig Throwable _).exec (mailSem world) l =
      (.ok (), if (world (.mail (.router (.emailContext (.get (EmailRouter.emailKey P sender))))) :
        Option GmailApiClient.ParsedEmail).isSome then { l with accepted := l.accepted ++ [text] } else l) := by
  obtain ⟨email, hemail⟩ : ∃ email : Option GmailApiClient.ParsedEmail,
      world (.mail (.router (.emailContext (.get (EmailRouter.emailKey P sender))))) = email := ⟨_, rfl⟩
  simp only [EmailRouter.replyByEmail, Prog.exec_call, mailSem, hemail]
  cases email with
  | none => rfl
  | some email => rfl

theorem routeReply_sem (reply : Reply) : actSem P world (.routeReply message.sender reply) l =
    ((.ok () : Except Throwable Unit),
      if routes P message world then { l with accepted := l.accepted ++ [reply.text] } else l) := by
  change Prog.answer (recording world) (routeReply P message.sender reply.text).catching l = _
  rw [Prog.answer_catching, routeReply, Prog.exec_lift, routes]
  change (EmailRouter.routeReply P message.sender reply.text).exec (mailSem world) l = _
  unfold EmailRouter.routeReply
  obtain ⟨context, hcontext⟩ : ∃ context : Bool, world (.mail (.router .hasContext)) = context := ⟨_, rfl⟩
  have hlog : (mailSem world .hasContext l).2 = l := rfl
  have hread : (mailSem world .hasContext l).1 = context := hcontext
  rw [Prog.exec_call, hlog, hread, hcontext]
  cases context with
  | false => rfl
  | true =>
    dsimp only
    rw [Prog.exec_bind_ok (lookUpGVoice_exec _)]
    by_cases hkey : EmailRouter.gvoiceKey message.sender = []
    · rw [if_pos hkey, hkey]
      exact replyByEmail_exec ..
    · obtain ⟨gvm, hgvm⟩ : ∃ gvm : Option GmailApiClient.GoogleVoiceMessage,
        world (.mail (.router (.gvoiceContext (.get (EmailRouter.gvoiceKey message.sender))))) = gvm := ⟨_, rfl⟩
      have hne : (EmailRouter.gvoiceKey message.sender != []) = true := bne_iff_ne.mpr hkey
      rw [if_neg hkey, hne, hgvm]
      cases gvm with
      | none => exact replyByEmail_exec ..
      | some gvm => rfl

/-! The notices -/

variable {contact : ContactEngine.Contact}

variable (cfg message world) in
def draftFor (contact : ContactEngine.Contact) : Reply :=
  smsReply cfg.agentName cfg.ownerName (message.senderName <|> contact.name)
    (world (.engine (.act (.complete (promptFor cfg message contact)))))

variable (P cfg message world) in
def decisionFor (contact : ContactEngine.Contact) : PolicyDecision :=
  evaluatePublicReply P message.sender (channelLabel message.channel) (draftFor cfg message world contact).text

variable (message) in
def autoText (contact : ContactEngine.Contact) (text : Str) : Str :=
  "Auto-replied to " ++ contact.name.getD message.sender ++ ":\nThey: \"" ++ message.body.take 60 ++
    "\"\nSent: \"" ++ text.take 80 ++ "\""

variable (message) in
def failedText : Str := "Error processing message from " ++ message.sender

variable (message) in
def newMessageText (contact : ContactEngine.Contact) : Str :=
  "New message from " ++ contact.name.getD message.sender ++ ":\n\"" ++ message.body.take 100 ++
    "\"\n\nSay \"always reply to " ++ contact.name.getD message.sender ++ "\" to auto-reply"

variable (message) in
def dismissedText (contact : ContactEngine.Contact) : Str :=
  "Could not send reply to " ++ contact.name.getD message.sender ++ " — notification was dismissed"

variable (message) in
def suppressedText (contact : ContactEngine.Contact) (reason text : Str) : Str :=
  "Auto-reply to " ++ contact.name.getD message.sender ++ " suppressed by policy (" ++ reason ++ ").\nDraft: \"" ++
    text.take 80 ++ "\""

/-- A notice that does not report a reply. -/
def Other (notice : Str) : Prop := ¬"Auto-replied to ".toList <+: notice

theorem other_of_prefix {first notice : Str} (n : ℕ) (h : first <+: notice) (hn : n ≤ 16) (hfirst : n ≤ first.length)
    (hne : "Auto-replied to ".toList.take n ≠ first.take n) : Other notice := by
  intro hreplied
  have hlength : "Auto-replied to ".toList.length = 16 := rfl
  apply hne
  rw [List.prefix_iff_eq_take.mp hreplied, List.prefix_iff_eq_take.mp h, List.take_take, List.take_take, hlength,
    min_eq_left hn, min_eq_left hfirst]

theorem failedText_other : Other (failedText message) :=
  other_of_prefix 1 (List.prefix_append _ _) (by decide) (by decide) (by decide)

theorem newMessageText_other : Other (newMessageText message contact) := by
  have hopening : "New message from ".toList <+: newMessageText message contact := by
    unfold newMessageText
    exact (((((List.prefix_append _ _).trans (List.prefix_append _ _)).trans (List.prefix_append _ _)).trans
      (List.prefix_append _ _)).trans (List.prefix_append _ _)).trans (List.prefix_append _ _)
  exact other_of_prefix 1 hopening (by decide) (by decide) (by decide)

theorem dismissedText_other : Other (dismissedText message contact) := by
  have hopening : "Could not send reply to ".toList <+: dismissedText message contact := by
    unfold dismissedText
    exact (List.prefix_append _ _).trans (List.prefix_append _ _)
  exact other_of_prefix 1 hopening (by decide) (by decide) (by decide)

theorem suppressedText_opening (reason text : Str) :
    "Auto-reply to ".toList <+: suppressedText message contact reason text := by
  unfold suppressedText
  exact (((((List.prefix_append _ _).trans (List.prefix_append _ _)).trans (List.prefix_append _ _)).trans
    (List.prefix_append _ _)).trans (List.prefix_append _ _)).trans (List.prefix_append _ _)

theorem suppressedText_other (reason text : Str) : Other (suppressedText message contact reason text) :=
  other_of_prefix 14 (suppressedText_opening reason text) (by decide) (by decide) (by decide)

variable (message contact) in
theorem replied_autoText (text : Str) : Replied text (autoText message contact text) := by
  unfold Replied autoText quoting
  have hquote : "\"\nSent: \"".toList = "\"".toList ++ "\nSent: \"".toList := rfl
  rw [hquote]
  generalize "Auto-replied to ".toList = opening
  generalize "\nSent: \"".toList = sent
  constructor
  · simp only [List.append_assoc]
    exact List.prefix_append _ _
  · refine ⟨opening ++ contact.name.getD message.sender ++ ":\nThey: \"" ++ message.body.take 60 ++ "\"", ?_⟩
    simp only [List.append_assoc]

theorem notify_exec (text : Str) : (notify text).exec (actSem P world) l =
    (.ok (), { l with told := l.told ++ [text] }) :=
  rfl

variable (P cfg message world l) in
theorem notifyMention_exec (sender : Str) : ∃ told, (notifyMention P cfg message sender).exec (actSem P world) l =
    (.ok (), { l with told := l.told ++ told }) ∧ ∀ notice ∈ told, Other notice := by
  unfold notifyMention
  split
  · refine ⟨[_], notify_exec _, fun notice hnotice ↦ ?_⟩
    rw [List.mem_singleton.mp hnotice]
    have hopening : "URGENT: ".toList <+: "URGENT: " ++ sender ++ " mentioned your name!\n\"" ++
        message.body.take 100 ++ "\"" :=
      (((List.prefix_append _ _).trans (List.prefix_append _ _)).trans (List.prefix_append _ _)).trans
        (List.prefix_append _ _)
    exact other_of_prefix 1 hopening (by decide) (by decide) (by decide)
  · exact ⟨[], by rw [List.append_nil]; rfl, fun notice hnotice ↦ (List.not_mem_nil hnotice).elim⟩

theorem sendReply_exec (draft : Reply) : (attempt (act (.sendReply message.id draft))).exec (actSem P world) l =
    (.ok (fires message world draft.text),
      if fires message world draft.text then { l with accepted := l.accepted ++ [draft.text] } else l) := by
  change Prog.exec (actSem P world) (Prog.ofExcept (actSem P world (.sendReply message.id draft) l).1 : Act Bool)
    (actSem P world (.sendReply message.id draft) l).2 = _
  rw [sendReply_sem]
  rfl

theorem routeReply_exec (draft : Reply) : (attempt (act (.routeReply message.sender draft))).exec (actSem P world) l =
    (.ok (), if routes P message world then { l with accepted := l.accepted ++ [draft.text] } else l) := by
  change Prog.exec (actSem P world) (Prog.ofExcept (actSem P world (.routeReply message.sender draft) l).1 : Act Unit)
    (actSem P world (.routeReply message.sender draft) l).2 = _
  rw [routeReply_sem]
  rfl

variable (P message world contact l) in
theorem sendDraft_exec (draft : Reply) : ∃ told, (sendDraft message contact draft).exec (actSem P world) l =
    (.ok (), { l with
      told := l.told ++ told
      accepted := l.accepted ++ if accepts P message world draft.text then [draft.text] else [] }) ∧
    ∀ notice ∈ told, Other notice := by
  have hnone : ∀ notice ∈ ([] : List Str), Other notice := fun _ h ↦ (List.not_mem_nil h).elim
  unfold sendDraft accepts
  cases message.channel with
  | notification =>
    dsimp only
    rw [Prog.exec_bind_ok (sendReply_exec draft)]
    cases fires message world draft.text with
    | true => exact ⟨[], by rw [List.append_nil]; rfl, hnone⟩
    | false =>
      refine ⟨[dismissedText message contact], ?_, fun notice hnotice ↦ ?_⟩
      · rw [if_neg Bool.false_ne_true, if_neg Bool.false_ne_true, List.append_nil]
        exact notify_exec _
      · rw [List.mem_singleton.mp hnotice]
        exact dismissedText_other
  | email | gvoice =>
    refine ⟨[], (routeReply_exec draft).trans ?_, hnone⟩
    split <;> simp
  | sms | chat => exact ⟨[], by simp, hnone⟩

variable (P cfg message world contact l) in
theorem autoReply_exec : ∃ told, (∀ notice ∈ told, Other notice) ∧
    ((¬(decisionFor P cfg message world contact).allowed ∧ ∃ notice, NotSent notice ∧ Other notice ∧
      (autoReply P cfg message contact).exec (actSem P world) l =
        (.ok (), { l with told := l.told ++ [notice], drafted := true })) ∨
    ((decisionFor P cfg message world contact).allowed ∧ (autoReply P cfg message contact).exec (actSem P world) l =
      (.ok (), {
        told := l.told ++ told ++ [autoText message contact (draftFor cfg message world contact).text]
        accepted := l.accepted ++ if accepts P message world (draftFor cfg message world contact).text then
          [(draftFor cfg message world contact).text] else []
        drafted := true }))) := by
  obtain ⟨told, hsend, htold⟩ := sendDraft_exec P message world { l with drafted := true } contact
    (draftFor cfg message world contact)
  refine ⟨told, htold, ?_⟩
  have hexec : (autoReply P cfg message contact).exec (actSem P world) l =
      (if (decisionFor P cfg message world contact).allowed then
        sendDraft message contact (draftFor cfg message world contact) >>= fun _ ↦ notify
          (autoText message contact (draftFor cfg message world contact).text)
      else notify (suppressedText message contact (decisionFor P cfg message world contact).reason
        (draftFor cfg message world contact).text) : Act Unit).exec (actSem P world) { l with drafted := true } := rfl
  by_cases hallowed : (decisionFor P cfg message world contact).allowed
  · refine .inr ⟨hallowed, ?_⟩
    rw [hexec, if_pos hallowed, Prog.exec_bind_ok hsend]
    rfl
  · refine .inl ⟨hallowed, suppressedText message contact (decisionFor P cfg message world contact).reason
      (draftFor cfg message world contact).text, .inr (suppressedText_opening _ _), suppressedText_other _ _, ?_⟩
    rw [hexec, if_neg hallowed]
    exact notify_exec _

/-! The handler -/

variable (message world) in
/-- The contact of the sender, or the exception of the lookup. -/
def found : Except Throwable ContactEngine.Contact := world (.engine (.act (.findOrCreateByPhone message.sender)))

def Answered (contact : ContactEngine.Contact) : Prop := contact.replyBehavior = .always ∨ contact.replyBehavior = .auto

instance : Decidable (Answered contact) := inferInstanceAs (Decidable (_ ∨ _))

variable (P cfg l) in
theorem answerPublic_exec (hfound : found message world = .ok contact) :
    (answerPublic P cfg message).exec (actSem P world) l =
      (if contact.replyBehavior ≠ .never then
        notifyMention P cfg message (contact.name.getD message.sender) >>= fun _ ↦
          if Answered contact then autoReply P cfg message contact else notify (newMessageText message contact)
      else .ret () : Act Unit).exec (actSem P world) l := by
  change Prog.exec (actSem P world) ((Prog.ofExcept (found message world)).bind _ : Act Unit) l = _
  rw [hfound]
  rfl

theorem answerPublic_threw {e : Throwable} (hfound : found message world = .error e) :
    (answerPublic P cfg message).exec (actSem P world) l = (.error e, l) := by
  change Prog.exec (actSem P world) ((Prog.ofExcept (found message world)).bind _ : Act Unit) l = _
  rw [hfound]
  rfl

theorem handled_of_ok {u : Unit} (h : (answerPublic P cfg message).exec (actSem P world) ⟨[], [], false⟩ = (.ok u, l)) :
    handled P cfg message world = l := by
  rw [handled, Prog.exec_subst]
  change ((handlePublicMessage P cfg message).exec (actSem P world) ⟨[], [], false⟩).2 = _
  rw [handlePublicMessage, Prog.exec_tryCatch, h]

theorem handled_of_error {e : Throwable}
    (h : (answerPublic P cfg message).exec (actSem P world) ⟨[], [], false⟩ = (.error e, l)) :
    handled P cfg message world = { l with told := l.told ++ [failedText message] } := by
  rw [handled, Prog.exec_subst]
  change ((handlePublicMessage P cfg message).exec (actSem P world) ⟨[], [], false⟩).2 = _
  rw [handlePublicMessage, Prog.exec_tryCatch, h]
  rfl

variable (P cfg message world) in
theorem handled_cases : (∃ told, handled P cfg message world = ⟨told, [], false⟩ ∧ (∀ notice ∈ told, Other notice) ∧
      ∀ contact, found message world = .ok contact → ¬Answered contact) ∨
    ∃ contact, found message world = .ok contact ∧ Answered contact ∧ ∃ told, (∀ notice ∈ told, Other notice) ∧
      ((¬(decisionFor P cfg message world contact).allowed ∧ ∃ notice, NotSent notice ∧ Other notice ∧
        handled P cfg message world = ⟨told ++ [notice], [], true⟩) ∨
      ((decisionFor P cfg message world contact).allowed ∧ handled P cfg message world =
        ⟨told ++ [autoText message contact (draftFor cfg message world contact).text],
          if accepts P message world (draftFor cfg message world contact).text then
            [(draftFor cfg message world contact).text] else [], true⟩)) := by
  cases hfound : found message world with
  | error e =>
    refine .inl ⟨[failedText message], handled_of_error (answerPublic_threw hfound), fun notice hnotice ↦ ?_, nofun⟩
    rw [List.mem_singleton.mp hnotice]
    exact failedText_other
  | ok contact =>
    have hexec := answerPublic_exec P cfg ⟨[], [], false⟩ hfound
    by_cases hnever : contact.replyBehavior = .never
    · rw [if_neg (not_not.mpr hnever)] at hexec
      refine .inl ⟨[], handled_of_ok hexec, fun _ h ↦ (List.not_mem_nil h).elim, fun contact' hcontact' hanswered ↦ ?_⟩
      obtain rfl := Except.ok.inj hcontact'
      rw [Answered, hnever] at hanswered
      simp at hanswered
    · obtain ⟨mention, hmention, hother⟩ := notifyMention_exec P cfg message world ⟨[], [], false⟩
        (contact.name.getD message.sender)
      rw [if_pos hnever, Prog.exec_bind_ok hmention] at hexec
      by_cases hanswered : Answered contact
      · refine .inr ⟨contact, rfl, hanswered, ?_⟩
        rw [if_pos hanswered] at hexec
        obtain ⟨told, htold, ⟨hblocked, notice, hnot, hnotice, hauto⟩ | ⟨hallowed, hauto⟩⟩ :=
          autoReply_exec P cfg message world ⟨mention, [], false⟩ contact
        · exact ⟨mention, hother, .inl ⟨hblocked, notice, hnot, hnotice, handled_of_ok (hexec.trans hauto)⟩⟩
        · refine ⟨mention ++ told, fun notice hnotice ↦ ?_, .inr ⟨hallowed, handled_of_ok (hexec.trans hauto)⟩⟩
          exact (List.mem_append.mp hnotice).elim (hother notice) (htold notice)
      · rw [if_neg hanswered] at hexec
        refine .inl ⟨mention ++ [newMessageText message contact], handled_of_ok hexec, fun notice hnotice ↦ ?_,
          fun contact' hcontact' ↦ ?_⟩
        · rcases List.mem_append.mp hnotice with hnotice | hnotice
          · exact hother notice hnotice
          · rw [List.mem_singleton.mp hnotice]
            exact newMessageText_other
        · obtain rfl := Except.ok.inj hcontact'
          exact hanswered

/-- The report is made of every draft that the policy lets through: it is true exactly if the
transport accepts each of them. -/
theorem faithful_iff (P : Platform) (cfg : EngineConfig) (message : Message) (world : World) :
    Faithful (handled P cfg message world) ↔ ∀ contact, found message world = .ok contact → Answered contact →
      (decisionFor P cfg message world contact).allowed →
        accepts P message world (draftFor cfg message world contact).text := by
  rcases handled_cases P cfg message world with
    ⟨told, hlog, hother, hnot⟩ | ⟨contact, hfound, hanswered, told, hother, hrest⟩
  · rw [hlog]
    refine iff_of_true ⟨fun notice hnotice h ↦ (hother notice hnotice h).elim, ?_, nofun⟩ fun contact hfound h ↦
      (hnot contact hfound h).elim
    exact fun text htext ↦ (List.not_mem_nil htext).elim
  · rw [hfound]
    simp only [Except.ok.injEq, forall_eq', forall_const, hanswered]
    rcases hrest with ⟨hblocked, notice, hnotSent, hnotice, hlog⟩ | ⟨hallowed, hlog⟩
    · rw [hlog]
      refine iff_of_true ⟨fun notice' hnotice' h ↦ ?_, fun text htext ↦ (List.not_mem_nil htext).elim, fun _ _ ↦ ?_⟩
        fun h ↦ (hblocked h).elim
      · rcases List.mem_append.mp hnotice' with hmem | hmem
        · exact (hother notice' hmem h).elim
        · rw [List.mem_singleton.mp hmem] at h
          exact (hnotice h).elim
      · exact ⟨notice, List.mem_append_right _ (List.mem_singleton.mpr rfl), hnotSent⟩
    · rw [hlog, forall_prop_of_true hallowed]
      have hreplied := replied_autoText message contact
        (draftFor cfg message world contact).text
      cases haccepts : accepts P message world (draftFor cfg message world contact).text with
      | true =>
        refine iff_of_true ⟨fun notice hnotice h ↦ ?_, fun text htext ↦ ?_, fun _ h ↦ ?_⟩ rfl
        · rcases List.mem_append.mp hnotice with hmem | hmem
          · exact (hother notice hmem h).elim
          · rw [List.mem_singleton.mp hmem]
            exact ⟨_, List.mem_singleton.mpr rfl, hreplied⟩
        · rw [List.mem_singleton.mp htext]
          exact ⟨_, List.mem_append_right _ (List.mem_singleton.mpr rfl), hreplied⟩
        · cases h
      | false =>
        refine iff_of_false (fun hfaithful ↦ ?_) Bool.false_ne_true
        obtain ⟨text, htext, -⟩ :=
          hfaithful.reported _ (List.mem_append_right _ (List.mem_singleton.mpr rfl)) hreplied.1
        exact List.not_mem_nil htext

def stranger : Message where
  id := "m1"
  channel := .email
  sender := "bob@example.com"
  senderName := none
  body := "hi"
  timestamp := 0

/-- No context is stored for the sender: the reply is dropped, and reported. -/
theorem dropped_reported :
    ¬Faithful (handled asciiPlatform ⟨"+16502530000", "Owner", "Aigentik"⟩ stranger quietSystem) := by
  intro h
  have hreported : (handled asciiPlatform ⟨"+16502530000", "Owner", "Aigentik"⟩ stranger quietSystem).told.any
      (startsWith · "Auto-replied to ") = true := by decide +kernel
  have haccepted : (handled asciiPlatform ⟨"+16502530000", "Owner", "Aigentik"⟩ stranger quietSystem).accepted = [] := by
    decide +kernel
  obtain ⟨notice, hnotice, hopening⟩ := List.any_eq_true.mp hreported
  obtain ⟨text, htext, -⟩ := h.reported notice hnotice (List.isPrefixOf_iff_prefix.mp hopening)
  rw [haccepted] at htext
  cases htext

end Aigentik.ReplyReports
