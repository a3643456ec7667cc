import Aigentik.Engine.PipelineRules

namespace Aigentik.MailContexts

open Strings Effects MessageEngine GmailApiClient EmailRouter EmailMonitor Pipeline

variable (P : Platform)

/-- The map and the key that a context is stored under. -/
inductive Key
  | gvoice (digits : Str)
  | email (address : Str)
  deriving DecidableEq

def contextKey : Context → Key
  | .gvoice gvm => .gvoice (gvoiceKey gvm.senderPhone)
  | .email email => .email (emailKey P email.fromEmail)

def original : Context → ParsedEmail
  | .gvoice gvm => gvm.originalEmail
  | .email email => email

/-- The message is the one that `processEmail` builds when it stores the context. -/
def Builds (message : Message) : Context → Prop
  | .gvoice gvm => ∃ now, message = buildGVoiceMessage gvm now
  | .email email => ∃ now, message = buildEmailMessage email now

/-- The context most recently stored under a key. -/
def latest (contexts : List Context) (key : Key) : Option Context :=
  contexts.reverse.find? fun c ↦ contextKey P c = key

/-- The router looks where the context is: a Google Voice sender has a digit, and no
Google Voice context is stored under the digits of an e-mail address. -/
def Clear (contexts : List Context) : Context → Prop
  | .gvoice gvm => gvoiceKey gvm.senderPhone ≠ []
  | .email email => gvoiceKey email.fromEmail = [] ∨
    ∀ gvm, .gvoice gvm ∈ contexts → gvoiceKey gvm.senderPhone ≠ gvoiceKey email.fromEmail

/-- The reply goes to the address and the thread of the e-mail whose context was the
most recent one under the sender's key when the router looked. -/
def Routed (message : Message) (reply : MailReply) : Prop :=
  ∃ own ∈ reply.contexts, Builds message own ∧
    (Clear reply.contexts own → ∃ target, latest P reply.contexts (contextKey P own) = some target ∧
      ∃ text, reply.sent = some (replyToEmail (original target) text))

variable {P}

theorem latest_append {contexts : List Context} {c : Context} {key : Key} :
    latest P (contexts ++ [c]) key =
      if contextKey P c = key then some c else latest P contexts key := by
  simp only [latest, List.reverse_append, List.reverse_singleton, List.singleton_append,
    List.find?_cons]
  split <;> simp_all

theorem latest_isSome {contexts : List Context} {c : Context} (hc : c ∈ contexts) :
    (latest P contexts (contextKey P c)).isSome :=
  List.find?_isSome.mpr ⟨c, List.mem_reverse.mpr hc, by simp⟩

theorem latest_mem {contexts : List Context} {c : Context} {key : Key}
    (h : latest P contexts key = some c) : c ∈ contexts ∧ contextKey P c = key :=
  ⟨List.mem_reverse.mp (List.mem_of_find?_eq_some h), by simpa using List.find?_some h⟩

theorem Builds.sender_gvoice {message : Message} {gvm : GoogleVoiceMessage}
    (h : Builds message (.gvoice gvm)) : message.sender = gvm.senderPhone := by
  obtain ⟨now, rfl⟩ := h
  rfl

theorem Builds.sender_email {message : Message} {email : ParsedEmail}
    (h : Builds message (.email email)) : message.sender = email.fromEmail := by
  obtain ⟨now, rfl⟩ := h
  rfl

/-! The threads -/

/-- The message may be answered by e-mail. -/
def OnMail (message : Message) : Prop := message.channel = .email ∨ message.channel = .gvoice

/-- What a thread has done: stored a context, been given a public message, entered
its handler, or looked for the context of the reply. -/
inductive Local
  | plain
  | stored (context : Context)
  | waiting (message : Message)
  | handling (message : Message)
  | missed (message : Message)
  | lost (message : Message)
  | found (message : Message) (original : ParsedEmail)

/-- The message whose public handler the thread is in. -/
def Local.message : Local → Option Message
  | .plain | .stored _ | .waiting _ => none
  | .handling m | .missed m | .lost m | .found m _ => some m

/-- What a thread that is to handle a message starts with. -/
def Local.awaiting : Handler → Message → Local
  | .admin, _ => .plain
  | .publicMessage, m => .waiting m

/-- In a public handler the thread knows its message. -/
def Local.Knows (l : Local) (handler : Handler) (m : Message) : Prop :=
  handler = .publicMessage → l.message = some m

/-- After the reply the handler goes on. -/
def Local.back (l : Local) : Local :=
  match l.message with
  | some m => .handling m
  | none => l

def Local.gvoiceLooked : Local → Option GoogleVoiceMessage → Local
  | .handling m, some gvm => .found m gvm.originalEmail
  | .handling m, none => .missed m
  | l, _ => l

def Local.emailLooked : Local → Option ParsedEmail → Local
  | .handling m, some email | .missed m, some email => .found m email
  | .handling m, none | .missed m, none => .lost m
  | l, _ => l

variable (P)

def disc : Discipline systemSig Local where
  allow
    | l, .engine (.sync (.launch (.queued m false))) => OnMail m → ∃ c, l = .stored c ∧ Builds m c
    | l, .engine (.sync (.begin .publicMessage m)) => l = .waiting m
    | l, .engine (.sync (.begin .admin _)) => l = .plain
    | l, .mail (.router (.gvoiceContext op)) =>
      match op with
      | .put k gvm => l = .plain ∧ k = gvoiceKey gvm.senderPhone
      | .get k => l.message = none ∨
        ∃ m, l = .handling m ∧ OnMail m ∧ k = gvoiceKey m.sender ∧ k ≠ []
      | .size => True
      | .remove _ | .removeValue _ | .firstKey => False
    | l, .mail (.router (.emailContext op)) =>
      match op with
      | .put k email => l = .plain ∧ k = emailKey P email.fromEmail
      | .get k => l.message = none ∨ ∃ m, k = emailKey P m.sender ∧
        (l = .missed m ∨ (l = .handling m ∧ OnMail m ∧ gvoiceKey m.sender = []))
      | .size => True
      | .remove _ | .removeValue _ | .firstKey => False
    | l, .mail (.router (.launchReply reply)) =>
      l.message = none ∨ ∃ m e text, l = .found m e ∧ reply = replyToEmail e text
    | l, .mail (.router (.dropReply _)) => l.message = none ∨ ∃ m, l = .lost m
    | _, _ => True
  may
    | _, .mail (.router (.gvoiceContext .size)), n => n ≤ 200
    | _, .mail (.router (.emailContext .size)), n => n ≤ 200
    | _, _, _ => True
  next
    | _, .engine (.sync (.begin .publicMessage m)), _ => .handling m
    | _, .engine (.sync (.finish _)), _ => .plain
    | _, .mail (.router (.gvoiceContext (.put _ gvm))), _ => .stored (.gvoice gvm)
    | _, .mail (.router (.emailContext (.put _ email))), _ => .stored (.email email)
    | l, .mail (.router (.gvoiceContext (.get _))), gvm => l.gvoiceLooked gvm
    | l, .mail (.router (.emailContext (.get _))), email => l.emailLooked email
    | l, .mail (.router (.launchReply _)), _ => l.back
    | l, .mail (.router (.dropReply _)), _ => l.back
    | l, _, _ => l

variable {P} {cfg : EngineConfig} {stackDepth : ℕ} {l : Local}

/-- Outside of a public handler a reply by e-mail is nobody's concern. -/
theorem idle_of_routeCall (hl : l.message = none) {op : EmailRouter.Op} (h : RouteCall op) :
    (disc P).allow l (.mail (.router op)) ∧ ∀ r, (disc P).next l (.mail (.router op)) r = l := by
  cases op with
  | hasContext => exact ⟨trivial, fun _ ↦ rfl⟩
  | gvoiceContext op =>
    cases op <;> first | exact h.elim | skip
    cases l <;> first | exact ⟨.inl rfl, fun _ ↦ rfl⟩ | cases hl
  | emailContext op =>
    cases op <;> first | exact h.elim | skip
    cases l <;> first | exact ⟨.inl rfl, fun _ ↦ rfl⟩ | cases hl
  | launchReply reply => cases l <;> first | exact ⟨.inl rfl, fun _ ↦ rfl⟩ | cases hl
  | dropReply sender => cases l <;> first | exact ⟨.inl rfl, fun _ ↦ rfl⟩ | cases hl

theorem keepsReplies (hl : l.message = none) : KeepsReplies (disc P) (· = l) where
  route op hop l' hl' := by
    subst hl'
    exact ⟨(idle_of_routeCall hl hop).1, fun r _ ↦ (idle_of_routeCall hl hop).2 r⟩
  send _ _ _ hl' := ⟨trivial, fun _ _ ↦ hl'⟩

/-- A message by e-mail is taken over only in the thread that has stored its context. -/
theorem receive_wp (hl : l.message = none) {message : Message}
    (hown : OnMail message → ∃ c, l = .stored c ∧ Builds message c) :
    (receive P cfg message).wp (disc P) (fun _ l' ↦ l' = l) l := by
  refine Pipeline.receive_wp (I := (· = l)) (keepsReplies hl) (fun op hop l' hl' ↦ ?_) rfl
  subst hl'
  rcases op with op | op | op
  · exact ⟨trivial, fun _ _ ↦ rfl⟩
  · exact ⟨trivial, fun _ _ ↦ rfl⟩
  · cases op with
    | launch task =>
      refine ⟨?_, fun _ _ ↦ rfl⟩
      match task with
      | .login m => trivial
      | .queued m true => trivial
      | .queued m false =>
        obtain rfl : m = message := hop
        exact hown
    | isPaused => exact ⟨trivial, fun _ _ ↦ rfl⟩
    | _ => exact hop.elim

theorem listener_wp {p : Prog AigentikNotificationListener.sig Throwable Unit}
    (hp : p.Calls AigentikNotificationListener.HandsNotification) :
    (p.subst (listenerLayer P cfg)).wp (disc P) (fun _ l ↦ l = Local.plain) .plain := by
  refine hp.wp_subst (I := (· = Local.plain)) (fun l op hl hop ↦ ?_) rfl
  subst hl
  cases op with
  | hand message =>
    refine (Prog.wp_catching _).mpr (receive_wp rfl fun hmail ↦ ?_)
    have hchannel : message.channel = .notification := hop
    simp [OnMail, hchannel] at hmail
  | _ => exact ⟨trivial, fun _ _ ↦ rfl⟩

theorem hand_wp {message : Message} {c : Context} (hc : Builds message c) :
    ((mailAttempt (mail (.hand message))).subst (mailLayer P cfg)).wp (disc P) (fun _ _ ↦ True)
      (.stored c) := by
  refine (Prog.wp_subst_call _ _).mpr ((Prog.wp_catching _).mpr ?_)
  refine Prog.wp_mono (receive_wp rfl fun _ ↦ ⟨c, rfl, hc⟩) fun o l _ ↦ ?_
  cases o <;> trivial

theorem processGVoiceText_wp (gvm : GoogleVoiceMessage) :
    ((processGVoiceText gvm).subst (mailLayer P cfg)).wp (disc P) (fun _ _ ↦ True) .plain := by
  refine ⟨trivial, fun now _ ↦ ⟨⟨rfl, rfl⟩, fun _ _ ↦ ⟨trivial, fun size hsize ↦ ?_⟩⟩⟩
  change ((((evict size).lift gvoiceHom).lift routerHom >>= fun _ ↦
    mailAttempt (mail (.hand (buildGVoiceMessage gvm now)))).subst (mailLayer P cfg)).wp _ _ _
  rw [evict_of_le hsize]
  exact hand_wp ⟨now, rfl⟩

theorem processRegularEmail_wp (email : ParsedEmail) :
    ((processRegularEmail P email).subst (mailLayer P cfg)).wp (disc P) (fun _ _ ↦ True) .plain := by
  refine ⟨trivial, fun now _ ↦ ⟨⟨rfl, rfl⟩, fun _ _ ↦ ⟨trivial, fun size hsize ↦ ?_⟩⟩⟩
  change ((((evict size).lift emailHom).lift routerHom >>= fun _ ↦
    mailAttempt (mail (.hand (buildEmailMessage email now)))).subst (mailLayer P cfg)).wp _ _ _
  rw [evict_of_le hsize]
  exact hand_wp ⟨now, rfl⟩

theorem entry_wp (input : Input) :
    (entry P cfg input).wp (disc P) (fun _ _ ↦ True) .plain := by
  cases input with
  | email email =>
    change ((processEmail P email).subst (mailLayer P cfg)).wp _ _ _
    unfold processEmail
    split
    · refine ⟨trivial, fun enabled _ ↦ ?_⟩
      cases enabled with
      | false => trivial
      | true =>
        cases hparse : parseGoogleVoiceEmail email with
        | none => trivial
        | some gvm => exact processGVoiceText_wp gvm
    · refine ⟨trivial, fun enabled _ ↦ ?_⟩
      cases enabled with
      | false => trivial
      | true => exact processRegularEmail_wp email
  | posted sbn =>
    exact Prog.wp_mono (listener_wp (AigentikNotificationListener.onNotificationPosted_calls P sbn))
      fun _ _ _ ↦ trivial
  | removed sbn =>
    exact Prog.wp_mono (listener_wp (Prog.calls_lift (fun _ ↦ trivial) _)) fun _ _ _ ↦ trivial

/-- The reply to a public message looks up its sender, and then goes out or is dropped. -/
theorem routeReply_wp {m : Message} (hm : OnMail m) (text : Str) :
    (Pipeline.routeReply P m.sender text).catching.wp (disc P) (fun _ l ↦ l = .handling m)
      (.handling m) := by
  have launch (e : ParsedEmail) :
      (Prog.call (.mail (.router (.launchReply (replyToEmail e text)))) .ret :
        Prog systemSig Throwable Unit).wp (disc P) (fun _ l ↦ l = .handling m) (.found m e) :=
    ⟨.inr ⟨m, e, text, rfl, rfl⟩, fun _ _ ↦ rfl⟩
  have byEmail {l : Local} (hl : l = .missed m ∨ (l = .handling m ∧ OnMail m ∧ gvoiceKey m.sender = [])) :
      ((replyByEmail P m.sender text).lift mailRouterHom : Prog systemSig Throwable Unit).wp (disc P)
        (fun _ l ↦ l = .handling m) l := by
    refine ⟨.inr ⟨m, rfl, hl⟩, fun email _ ↦ ?_⟩
    rcases hl with hl | ⟨hl, -⟩ <;> subst hl
    all_goals
      cases email with
      | some e => exact launch e
      | none => exact ⟨.inr ⟨m, rfl⟩, fun _ _ ↦ rfl⟩
  refine (Prog.wp_catching _).mpr ⟨trivial, fun context _ ↦ ?_⟩
  cases context with
  | false => rfl
  | true =>
    refine (Prog.wp_lift mailRouterHom (lookUpGVoice (gvoiceKey m.sender) >>= _)).mpr
      ((Prog.wp_bind _ _).mpr ?_)
    unfold lookUpGVoice
    split
    · rename_i hkey
      exact (Prog.wp_lift mailRouterHom (replyByEmail P m.sender text)).mp (byEmail (.inr ⟨rfl, hm, hkey⟩))
    · rename_i hkey
      refine ⟨.inr ⟨m, rfl, hm, rfl, hkey⟩, fun gvm _ ↦ ?_⟩
      cases gvm with
      | some gvm => exact (Prog.wp_lift _ _).mp (launch gvm.originalEmail)
      | none => exact (Prog.wp_lift mailRouterHom (replyByEmail P m.sender text)).mp (byEmail (.inl rfl))

theorem publicHandler_wp (message : Message) :
    ((bracket .publicMessage message (liftAct (handlePublicMessage P cfg message))).subst
      (engineLayer P)).wp (disc P) (fun _ _ ↦ True) (.waiting message) := by
  have hcalls : (liftAct (handlePublicMessage P cfg message)).Calls (OnAct (PublicCall message)) :=
    (handlePublicMessage_calls P cfg message).lift fun _ ↦ id
  refine bracket_wp (I := (· = .handling message)) hcalls rfl (fun l op hl hop ↦ ?_) (fun _ ↦ rfl)
    fun _ ↦ trivial
  subst hl
  rcases op with op | op | op
  · exact hop.elim
  · cases op with
    | routeReply sender reply =>
      obtain ⟨rfl, hmail⟩ := hop
      exact routeReply_wp hmail reply.text
    | sendReply messageId reply => exact sendReply_wp (fun _ _ _ hl ↦ ⟨trivial, fun _ _ ↦ hl⟩) _ _ rfl
    | _ => exact ⟨trivial, fun _ _ ↦ rfl⟩
  · exact hop.elim

theorem adminHandler_wp (message : Message) :
    ((bracket .admin message (handleAdminCommand P cfg stackDepth message false)).subst
      (engineLayer P)).wp (disc P) (fun _ _ ↦ True) .plain := by
  refine bracket_wp (I := (· = .plain)) (handleAdminCommand_calls ..) rfl
    (fun l op hl hop ↦ engineLayer_wp (keepsReplies rfl) (fun l hl ↦ ?_) hl) (fun _ ↦ rfl) fun _ ↦ trivial
  rcases op with op | op | op
  · exact ⟨trivial, fun _ _ ↦ hl⟩
  · exact ⟨trivial, fun _ _ ↦ hl⟩
  · cases op <;> first | exact hop.elim | exact ⟨trivial, fun _ _ ↦ hl⟩

theorem spawn_wp {op : SystemOp} {p : Prog systemSig Throwable Unit}
    (hp : spawned P cfg stackDepth op = some p) :
    p.wp (disc P) (fun _ _ ↦ True) (spawnLocal .plain Local.awaiting op) := by
  refine Pipeline.spawn_wp adminHandler_wp publicHandler_wp (fun l op hop ↦ ?_) (fun _ ↦ trivial) hp
  cases op <;> first | exact hop.elim | exact ⟨trivial, fun _ ↦ rfl⟩

theorem gvoiceLooked_message (r : Option GoogleVoiceMessage) : (l.gvoiceLooked r).message = l.message := by
  cases l <;> cases r <;> rfl

theorem emailLooked_message (r : Option ParsedEmail) : (l.emailLooked r).message = l.message := by
  cases l <;> cases r <;> rfl

theorem back_message : l.back.message = l.message := by
  cases l <;> rfl

/-- A thread in a public handler does not lose its message. -/
theorem follows {op : SystemOp} {r : systemSig.Resp op} (h : (disc P).allow l op) :
    Follows Local.Knows l ((disc P).next l op r) op := by
  have same (h : Handler) (m : Message) : l.Knows h m → l.Knows h m := id
  have keeps {l' : Local} (heq : l'.message = l.message) (h : Handler) (m : Message) :
      l.Knows h m → l'.Knows h m :=
    fun hk hp ↦ heq.trans (hk hp)
  have stores {c : Context} (hl : l = .plain) (h : Handler) (m : Message) :
      l.Knows h m → (Local.stored c).Knows h m := by
    subst hl
    exact fun hk hp ↦ hk hp
  rcases op with op | op | op
  · rcases op with op | op | op
    · exact same
    · exact same
    · cases op with
      | begin handler message =>
        cases handler with
        | admin =>
          intro hp
          cases hp
        | publicMessage => exact fun _ ↦ rfl
      | finish handler => trivial
      | _ => exact same
  · cases op with
    | router op =>
      cases op with
      | gvoiceContext op =>
        cases op with
        | get k => exact keeps (gvoiceLooked_message r)
        | put k gvm => exact stores h.1
        | size => exact same
        | _ => exact h.elim
      | emailContext op =>
        cases op with
        | get k => exact keeps (emailLooked_message r)
        | put k email => exact stores h.1
        | size => exact same
        | _ => exact h.elim
      | hasContext => exact same
      | _ => exact keeps back_message
    | _ => exact same
  · exact same

end Aigentik.MailContexts
