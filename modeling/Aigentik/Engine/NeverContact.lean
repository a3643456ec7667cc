import Aigentik.Engine.PublicReply

namespace Aigentik.NeverContact

open Strings Effects AgentLLMFacade ActionPolicyEngine MessageEngine ContactEngine PublicReply

variable (P : Platform) (cfg : EngineConfig) (s : Store) (now : ℕ) (message : Message)

/-- The sender is one of the numbers or addresses of the contact. -/
def Writes (sender : Str) (c : Contact) : Prop :=
  (∃ phone ∈ c.phones, PhoneNormalizer.lastTen phone ≠ [] ∧
    PhoneNormalizer.lastTen phone = PhoneNormalizer.lastTen sender) ∨
  ∃ email ∈ c.emails, P.lowercase email = P.lowercase sender

instance (sender : Str) (c : Contact) : Decidable (Writes P sender c) := inferInstanceAs (Decidable (_ ∨ _))

/-- The handler is answered from the contacts of the store. -/
def FromStore (A : Answers actSig) : Prop :=
  ∀ h, A h (.findOrCreateByPhone message.sender) = .ok (findOrCreateByPhone P message.sender now s).1

def NoReply : Prop :=
  ∀ A, FromStore P s now message A → ((handlePublicMessage P cfg message).called A []).filter isOutbound = []

/-- The contact that is found first is not to be answered, no message of the channel can be
answered, or the policy refuses whatever the model writes. -/
def Unanswered : Prop :=
  (∃ c, findContact P message.sender s = some c ∧ (c.replyBehavior = .never ∨ c.replyBehavior = .review)) ∨
  (message.channel = .sms ∨ message.channel = .chat) ∨
  ∀ raw, trim raw ≠ [] →
    P.containsIgnoreCase (trim raw ++ signature cfg.agentName cfg.ownerName) "will get back to you soon"

variable {P cfg s now message} {h : List (Event actSig)} {c : Contact} {raw : Str}

theorem isOutbound_channel {op : ActOp} (hcall : PublicCall message op) (hop : isOutbound op = true) :
    message.channel ≠ .sms ∧ message.channel ≠ .chat := by
  cases op with
  | sendReply messageId reply =>
    obtain ⟨-, hchannel⟩ := hcall
    simp [hchannel]
  | routeReply sender reply =>
    obtain ⟨-, hchannel | hchannel⟩ := hcall <;> simp [hchannel]
  | sendEmailDirect => exact hcall.elim
  | _ => cases hop

theorem warranted_of_justified {op : ActOp} (hj : Justified P cfg message h op) (hop : isOutbound op = true) :
    ∃ reply, Warranted P cfg message h reply := by
  cases op with
  | sendReply messageId reply => exact ⟨reply, hj⟩
  | routeReply sender reply => exact ⟨reply, hj⟩
  | sendEmailDirect => exact hj.elim
  | _ => cases hop

theorem noReply_of_unanswered (hun : Unanswered P cfg s message) : NoReply P cfg s now message := by
  intro A hA
  refine List.filter_eq_nil_iff.mpr fun op hop hout ↦ ?_
  obtain ⟨e, he, rfl⟩ := List.mem_map.mp hop
  have hcall := (handlePublicMessage_calls P cfg message).mem_events he
  obtain ⟨pre, post, heq⟩ := List.append_of_mem he
  obtain ⟨reply, hw⟩ := warranted_of_justified ((public_reply P cfg message A).2 pre e post heq) hout
  obtain ⟨contact, raw, hfound, hbehavior, -, hblank, hreply⟩ := hw.written
  rcases hun with ⟨c, hc, hnever⟩ | hchannel | hblocked
  · -- the contact the handler has asked for is the one that is found
    have hanswer : (Except.ok contact : Except Throwable Contact) =
        .ok (findOrCreateByPhone P message.sender now s).1 := by
      obtain ⟨pre', post', rfl⟩ := List.append_of_mem hfound
      have halong := Prog.along_answers A (handlePublicMessage P cfg message) [] pre' _ _
        (heq.trans (List.append_assoc ..))
      exact halong.trans (hA _)
    have hcontact : contact = c := by
      rw [Except.ok.inj hanswer]
      simp only [findOrCreateByPhone, hc]
    rw [hcontact] at hbehavior
    rcases hnever with hnever | hnever <;> rw [hnever] at hbehavior <;> simp at hbehavior
  · obtain ⟨hsms, hchat⟩ := isOutbound_channel hcall hout
    exact hchannel.elim hsms hchat
  · have hallowed := hw.allowed
    rw [hreply] at hallowed
    exact evaluatePublicReply_allowed.mp hallowed (hblocked raw hblank)

/-! A world in which the reply is sent -/

def answering (contact : Contact) (raw : Str) : (op : ActOp) → actSig.Resp op
  | .findOrCreateByPhone _ => (.ok contact : Except Throwable Contact)
  | .complete _ => .text raw
  | op => quiet (.act op)

abbrev answered (contact : Contact) (raw : Str) : Discipline actSig (List (Event actSig)) :=
  .history (fun _ _ ↦ True) fun _ op r ↦ r = answering contact raw op

def Sent (h : List (Event actSig)) : Prop := ∃ e ∈ h, isOutbound e.1 = true

theorem sent_wp {α : Type} (hsent : Sent h) (p : Act α) : p.wp (answered c raw) (fun _ ↦ Sent) h := by
  refine Prog.wp_of_stable (fun h e hsent ↦ ?_) hsent p
  obtain ⟨e', he', hout⟩ := hsent
  exact ⟨e', List.mem_append_left _ he', hout⟩

theorem sent_now {op : ActOp} {r : actSig.Resp op} (hop : isOutbound op = true) : Sent (h ++ [⟨op, r⟩]) :=
  ⟨_, List.mem_append_right _ (List.mem_singleton.mpr rfl), hop⟩

theorem sendDraft_sent {draft : Reply} (hchannel : message.channel ≠ .sms ∧ message.channel ≠ .chat) :
    (sendDraft message c draft).wp (answered c raw) (fun _ ↦ Sent) h := by
  unfold sendDraft
  split
  · exact ⟨trivial, fun r _ ↦ sent_wp (sent_now rfl) _⟩
  · exact ⟨trivial, fun r _ ↦ sent_wp (sent_now rfl) _⟩
  · exact ⟨trivial, fun r _ ↦ sent_wp (sent_now rfl) _⟩
  · rename_i hsms
    exact absurd hsms hchannel.1
  · rename_i hchat
    exact absurd hchat hchannel.2

theorem autoReply_sent (hchannel : message.channel ≠ .sms ∧ message.channel ≠ .chat) (hblank : trim raw ≠ [])
    (hallowed : ¬P.containsIgnoreCase (trim raw ++ signature cfg.agentName cfg.ownerName) "will get back to you soon") :
    (autoReply P cfg message c).wp (answered c raw) (fun _ ↦ Sent) h := by
  refine ⟨trivial, ?_⟩
  intro _ heq
  subst heq
  refine ⟨trivial, fun _ _ ↦ ?_⟩
  change Prog.wp _ _ (if PolicyDecision.allowed _ = true then _ else _ : Act Unit) _
  have hdraft : smsReply cfg.agentName cfg.ownerName (message.senderName <|> c.name) (.text raw) =
      .generated (trim raw ++ signature cfg.agentName cfg.ownerName) := if_neg hblank
  rw [if_pos]
  · refine (Prog.wp_bind _ _).mpr (Prog.wp_mono (sendDraft_sent hchannel) fun o l hsent ↦ ?_)
    cases o with
    | ok _ => exact sent_wp hsent _
    | error e => exact hsent
  · change (evaluatePublicReply P _ _ (smsReply cfg.agentName cfg.ownerName (message.senderName <|> c.name)
      (.text raw)).text).allowed = true
    rw [hdraft]
    exact evaluatePublicReply_allowed.mpr hallowed

theorem notifyMention_wp (sender : Str) :
    (notifyMention P cfg message sender).wp (answered c raw) (Prog.exits (fun _ _ ↦ True) fun _ _ ↦ False) h := by
  unfold notifyMention
  split
  · exact ⟨trivial, fun _ _ ↦ trivial⟩
  · trivial

theorem handlePublicMessage_sent (hbehavior : c.replyBehavior = .always ∨ c.replyBehavior = .auto)
    (hchannel : message.channel ≠ .sms ∧ message.channel ≠ .chat) (hblank : trim raw ≠ [])
    (hallowed : ¬P.containsIgnoreCase (trim raw ++ signature cfg.agentName cfg.ownerName) "will get back to you soon") :
    (handlePublicMessage P cfg message).wp (answered c raw) (fun _ ↦ Sent) [] := by
  refine (Prog.wp_tryCatch _ _).mpr ⟨trivial, ?_⟩
  intro _ heq
  subst heq
  change Prog.wp _ _ (if c.replyBehavior ≠ .never then _ else _ : Act Unit) _
  rw [if_pos (by rcases hbehavior with h | h <;> simp [h]), if_pos hbehavior]
  refine (Prog.wp_bind _ _).mpr (Prog.wp_mono (notifyMention_wp _) fun o l hl ↦ ?_)
  cases o with
  | error e => exact hl.elim
  | ok _ =>
    refine Prog.wp_mono (autoReply_sent hchannel hblank hallowed) fun o l hsent ↦ ?_
    cases o with
    | ok _ => exact hsent
    | error e => exact sent_wp hsent _

theorem unanswered_of_noReply (hno : NoReply P cfg s now message) : Unanswered P cfg s message := by
  by_contra hun
  simp only [Unanswered, not_or, not_exists, not_and, not_forall] at hun
  obtain ⟨hfound, hchannel, raw, hblank, hallowed⟩ := hun
  have hbehavior : (findOrCreateByPhone P message.sender now s).1.replyBehavior = .always ∨
      (findOrCreateByPhone P message.sender now s).1.replyBehavior = .auto := by
    unfold findOrCreateByPhone
    cases hc : findContact P message.sender s with
    | none => exact .inr rfl
    | some c =>
      obtain ⟨hnever, hreview⟩ := hfound c hc
      cases hb : c.replyBehavior with
      | auto => exact .inr rfl
      | always => exact .inl rfl
      | never => exact absurd hb hnever
      | review => exact absurd hb hreview
  let A : Answers actSig := fun _ ↦ answering (findOrCreateByPhone P message.sender now s).1 raw
  obtain ⟨e, he, hout⟩ := (Prog.along_of_wp (handlePublicMessage_sent hbehavior hchannel hblank hallowed)
    (Prog.along_answers A (handlePublicMessage P cfg message) [])).2
  have hnone := hno A fun _ ↦ rfl
  exact List.filter_eq_nil_iff.mp hnone e.1 (List.mem_map_of_mem he) hout

variable (P cfg) in
/-- In every store that is reached, whether a sender may be answered depends on the contact
that is found first. -/
theorem no_reply_iff (room : List ContactEntity) (ops : List Operation) (now : ℕ) (message : Message) :
    let s := run P ops (loadFromRoom room)
    NoReply P cfg s now message ↔ Unanswered P cfg s message :=
  ⟨unanswered_of_noReply, noReply_of_unanswered⟩

/-- The owner has saved another number under a name that contains the one of the contact. -/
theorem never_contact_answered :
    let s := ContactEngine.run asciiPlatform [.findOrCreateByPhone "5550001111".toList 1,
      .findOrCreateByPhone "5550002222".toList 2, .setInstructions "5550002222".toList none (some .never),
      .syncAndroidContacts [⟨some "Home 5550002222".toList, some "5550001111".toList, 3⟩]] (loadFromRoom [])
    let message : Message := ⟨"n1", .notification, "5550002222", none, "hello", [], [], 4, []⟩
    (∃ c ∈ s.contacts, c.replyBehavior = .never ∧ Writes asciiPlatform message.sender c) ∧
      ¬ NoReply asciiPlatform ⟨[], "Owner", "Aigentik"⟩ s 4 message := by
  intro s message
  refine ⟨by decide +kernel, fun hno ↦ ?_⟩
  have hnone := hno (fun _ ↦ answering (findOrCreateByPhone asciiPlatform message.sender 4 s).1 "hi") fun _ ↦ rfl
  exact absurd hnone (by decide +kernel)

end Aigentik.NeverContact
