import Aigentik.Engine.PipelineRules

namespace Aigentik.NotificationThreads

open Strings Effects MessageEngine NotificationReplyRouter EmailMonitor Pipeline
open AigentikNotificationListener (HandsText handIfNew handIfNew_calls resolveSender_calls)

/-- The id under which a notification is registered. -/
def postingId (p : Posting) : Str := MessageDeduplicator.fingerprint p.sender p.text

def postedEntry (p : Posting) : ReplyEntry := ⟨p.sbn.notification, p.sbn.packageName, p.sbn.key⟩

/-- A notification's message has the id and the sender of one of the notifications. -/
def Own (postings : List Posting) (m : Message) : Prop :=
  m.channel = .notification → ∃ p ∈ postings, postingId p = m.id ∧ p.sender = m.sender

/-- What a thread has done: resolved a notification, been given a message, entered
its handler, or looked for the entry to reply with. -/
inductive Local
  | plain
  | posted (posting : Posting)
  | waiting (message : Message)
  | handling (message : Message)
  | keyed (message : Message) (sbnKey : Str)
  | found (message : Message) (entry : ReplyEntry)

/-- The message whose handler the thread is in. -/
def Local.message : Local → Option Message
  | .plain | .posted _ | .waiting _ => none
  | .handling m | .keyed m _ | .found m _ => some m

def Local.Knows (l : Local) (_ : Handler) (m : Message) : Prop := l.message = some m

def Local.keyLooked (l : Local) : Option Str → Local
  | some sbnKey => match l.message with
    | some m => .keyed m sbnKey
    | none => l
  | none => l

def Local.entryLooked : Local → Option ReplyEntry → Local
  | .keyed m _, some entry => .found m entry
  | l, _ => l

def taskMessage : Task → Message
  | .login m => m
  | .queued m _ => m

def disc : Discipline systemSig Local where
  allow
    | l, .engine (.sync (.launch task)) => (taskMessage task).channel = .notification →
      ∃ p, l = .posted p ∧ postingId p = (taskMessage task).id ∧ p.sender = (taskMessage task).sender
    | l, .engine (.sync (.begin _ m)) => l = .waiting m
    | l, .listener (.resolved ..) => l = .plain
    | l, .listener (.router (.ids op)) =>
      match op with
      | .put k sbnKey => ∃ p, l = .posted p ∧ k = postingId p ∧ sbnKey = p.sbn.key
      | .get k => ∀ m, l.message = some m → k = m.id ∧ m.channel = .notification
      | _ => True
    | l, .listener (.router (.entries op)) =>
      match op with
      | .put k e => ∃ p, l = .posted p ∧ k = p.sbn.key ∧ e = postedEntry p
      | .get k => l.message = none ∨ ∃ m, l = .keyed m k
      | _ => True
    | l, .listener (.router (.fire e ..)) => l.message = none ∨ ∃ m, l = .found m e
    | _, _ => True
  may _ _ _ := True
  next
    | _, .engine (.sync (.begin _ m)), _ => .handling m
    | _, .engine (.sync (.finish _)), _ => .plain
    | _, .listener (.resolved sbn sender text), _ => .posted ⟨sbn, sender, text⟩
    | l, .listener (.router (.ids (.get _))), sbnKey => l.keyLooked sbnKey
    | l, .listener (.router (.entries (.get _))), e => l.entryLooked e
    | l, _, _ => l

variable {P : Platform} {cfg : EngineConfig} {stackDepth : ℕ} {l : Local} {m : Message}

theorem keyLooked_of_none (hl : l.message = none) (r : Option Str) : l.keyLooked r = l := by
  cases r with
  | none => rfl
  | some sbnKey => simp only [Local.keyLooked, hl]

theorem entryLooked_of_none (hl : l.message = none) (r : Option ReplyEntry) : l.entryLooked r = l := by
  cases l <;> first | rfl | cases hl

theorem keyLooked_message (r : Option Str) : (l.keyLooked r).message = l.message := by
  cases r with
  | none => rfl
  | some sbnKey => cases l <;> rfl

theorem entryLooked_message (r : Option ReplyEntry) : (l.entryLooked r).message = l.message := by
  cases l <;> cases r <;> rfl

theorem keepsReplies (hl : l.message = none) : KeepsReplies disc (· = l) where
  route op _ l' hl' := ⟨trivial, fun _ _ ↦ hl'⟩
  send op hop l' hl' := by
    subst hl'
    cases op with
    | ids op =>
      cases op with
      | put k v => exact hop.elim
      | get k => exact ⟨fun m hm ↦ by simp [hl] at hm, fun r _ ↦ keyLooked_of_none hl r⟩
      | _ => exact ⟨trivial, fun _ _ ↦ rfl⟩
    | entries op =>
      cases op with
      | put k v => exact hop.elim
      | get k => exact ⟨.inl hl, fun r _ ↦ entryLooked_of_none hl r⟩
      | _ => exact ⟨trivial, fun _ _ ↦ rfl⟩
    | fire entry key text => exact ⟨.inl hl, fun _ _ ↦ rfl⟩
    | _ => exact ⟨trivial, fun _ _ ↦ rfl⟩

theorem sendReply_wp (hl : l.message = some m) (hm : m.channel = .notification) (text : Str) :
    (Pipeline.sendReply m.id text).catching.wp disc (fun _ l' ↦ l'.message = some m) l := by
  refine (Prog.wp_catching _).mpr ⟨fun m' hm' ↦ ?_, fun sbnKey _ ↦ ?_⟩
  · obtain rfl : m = m' := by simpa [hl] using hm'
    exact ⟨rfl, hm⟩
  · cases sbnKey with
    | none => exact hl
    | some sbnKey =>
      have hkeyed : l.keyLooked (some sbnKey) = .keyed m sbnKey := by simp only [Local.keyLooked, hl]
      have hnext : disc.next l (.listener (.router (.ids (.get m.id)))) (some sbnKey) = .keyed m sbnKey :=
        hkeyed
      refine hnext ▸ ⟨.inr ⟨m, rfl⟩, fun e _ ↦ ?_⟩
      cases e with
      | none => rfl
      | some e =>
        dsimp only [Prog.bind, Equiv.refl_apply]
        cases resultKey e with
        | none => rfl
        | some key =>
          refine ⟨trivial, fun context _ ↦ ?_⟩
          cases context with
          | false => rfl
          | true =>
            refine ⟨.inr ⟨m, rfl⟩, fun fired _ ↦ ?_⟩
            cases fired with
            | false => rfl
            | true =>
              exact ⟨trivial, fun _ _ ↦ ⟨trivial, fun _ _ ↦ ⟨trivial, fun _ _ ↦ ⟨trivial, fun _ _ ↦ rfl⟩⟩⟩⟩

/-- A notification's message is taken over only in the thread that has resolved its sender. -/
theorem receive_wp (hl : l.message = none) {message : Message}
    (hown : message.channel = .notification →
      ∃ p, l = .posted p ∧ postingId p = message.id ∧ p.sender = message.sender) :
    (receive P cfg message).wp disc (fun _ l' ↦ l' = l) l := by
  refine Pipeline.receive_wp (I := (· = l)) (keepsReplies hl) (fun op hop l' hl' ↦ ?_) rfl
  subst hl'
  rcases op with op | op | op
  · exact ⟨trivial, fun _ _ ↦ rfl⟩
  · exact ⟨trivial, fun _ _ ↦ rfl⟩
  · cases op with
    | launch task =>
      refine ⟨?_, fun _ _ ↦ rfl⟩
      cases task with
      | login m =>
        have hm : m = { message with body := m.body } := hop
        rw [hm]
        exact hown
      | queued m isAdmin =>
        obtain rfl : m = message := hop
        exact hown
    | isPaused => exact ⟨trivial, fun _ _ ↦ rfl⟩
    | _ => exact hop.elim

theorem register_wp (p : Posting) :
    ((register (postingId p) (postedEntry p)).lift AigentikNotificationListener.routerHom |>.subst
      (listenerLayer P cfg)).wp disc (fun _ l ↦ l = .posted p) (.posted p) := by
  have hcalls : ((register (postingId p) (postedEntry p)).lift AigentikNotificationListener.routerHom).Calls
      fun op : AigentikNotificationListener.Op ↦ ∃ o, op = .router o ∧ RegisterCall (postingId p) (postedEntry p) o :=
    (register_calls (postingId p) (postedEntry p)).lift fun o ho ↦ ⟨o, rfl, ho⟩
  refine hcalls.wp_subst (I := (· = Local.posted p)) (fun l op hl hop ↦ ?_) rfl
  subst hl
  obtain ⟨o, rfl, ho⟩ := hop
  cases o with
  | ids op =>
    cases op with
    | put k v => exact ⟨⟨p, rfl, ho.1, ho.2⟩, fun _ _ ↦ rfl⟩
    | get k => exact ho.elim
    | _ => exact ⟨trivial, fun _ _ ↦ rfl⟩
  | entries op =>
    cases op with
    | put k e => exact ⟨⟨p, rfl, ho.1, ho.2⟩, fun _ _ ↦ rfl⟩
    | get k => exact ho.elim
    | _ => exact ⟨trivial, fun _ _ ↦ rfl⟩
  | fire entry key text => exact ho.elim
  | _ => exact ⟨trivial, fun _ _ ↦ rfl⟩

theorem handIfNew_wp (p : Posting) :
    ((handIfNew p.sbn p.sender p.text).subst (listenerLayer P cfg)).wp disc
      (fun _ l ↦ l = .posted p) (.posted p) := by
  refine (handIfNew_calls p.sbn p.sender p.text).wp_subst (I := (· = Local.posted p))
    (fun l op hl hop ↦ ?_) rfl
  subst hl
  cases op with
  | hand message =>
    obtain ⟨-, hsender, hid⟩ := hop
    exact (Prog.wp_catching _).mpr (receive_wp rfl fun _ ↦ ⟨p, rfl, hid.symm, hsender.symm⟩)
  | router op =>
    obtain ⟨o, rfl⟩ := hop
    exact ⟨trivial, fun _ _ ↦ rfl⟩
  | resolved => exact hop.elim
  | _ => exact ⟨trivial, fun _ _ ↦ rfl⟩

theorem resolveSender_wp (title : Str) :
    ((AigentikNotificationListener.resolveSender P title).subst (listenerLayer P cfg)).wp disc
      (fun _ l ↦ l = .plain) .plain := by
  have hcalls : (AigentikNotificationListener.resolveSender P title).Calls
      fun op : AigentikNotificationListener.Op ↦ ∃ identifier, op = .findContact identifier :=
    resolveSender_calls P (fun identifier ↦ ⟨identifier, rfl⟩) title
  refine hcalls.wp_subst (I := (· = Local.plain)) (fun l op hl hop ↦ ?_) rfl
  subst hl
  obtain ⟨identifier, rfl⟩ := hop
  exact ⟨trivial, fun _ _ ↦ rfl⟩

theorem wasSentRecently_wp (text : Str) :
    ((AigentikNotificationListener.wasSentRecently text).subst (listenerLayer P cfg)).wp disc
      (fun _ l ↦ l = .plain) .plain := by
  refine ⟨trivial, fun sentTime _ ↦ ?_⟩
  cases sentTime with
  | none => rfl
  | some sentTime => exact ⟨trivial, fun _ _ ↦ rfl⟩

theorem posted_wp (sbn : AigentikNotificationListener.StatusBarNotification) (title text : Str) :
    ((AigentikNotificationListener.receive P sbn title text).subst (listenerLayer P cfg)).wp disc
      (fun _ _ ↦ True) .plain := by
  change ((AigentikNotificationListener.wasSentRecently text >>= _).subst _).wp _ _ _
  rw [Prog.subst_bind]
  refine (Prog.wp_bind _ _).mpr (Prog.wp_mono (wasSentRecently_wp text) fun o l hl ↦ ?_)
  subst hl
  rcases o with e | sent
  · trivial
  cases sent with
  | true => trivial
  | false =>
    change ((AigentikNotificationListener.resolveSender P title >>= _).subst _).wp _ _ _
    rw [Prog.subst_bind]
    refine (Prog.wp_bind _ _).mpr (Prog.wp_mono (resolveSender_wp title) fun o l hl ↦ ?_)
    subst hl
    cases o with
    | error e => trivial
    | ok sender =>
      refine ⟨rfl, fun _ _ ↦ ?_⟩
      let p : Posting := ⟨sbn, sender, text⟩
      change (((register (postingId p) (postedEntry p)).lift AigentikNotificationListener.routerHom >>=
        fun _ ↦ handIfNew p.sbn p.sender p.text).subst _).wp _ _ (Local.posted p)
      rw [Prog.subst_bind]
      refine (Prog.wp_bind _ _).mpr (Prog.wp_mono (register_wp p) fun o l hl ↦ ?_)
      subst hl
      cases o with
      | error e => trivial
      | ok _ => exact Prog.wp_mono (handIfNew_wp p) fun _ _ _ ↦ trivial

def HandsMail : MailOp → Prop
  | .hand message => message.channel = .email
  | _ => True

theorem processEmail_calls (email : GmailApiClient.ParsedEmail) :
    (processEmail P email).Calls HandsMail :=
  calls_processEmail (fun _ ↦ trivial) trivial (fun _ ↦ trivial) (fun _ _ _ _ ↦ rfl) fun _ _ ↦ rfl

theorem entry_wp (input : Input) :
    (Pipeline.entry P cfg input).wp disc (fun _ _ ↦ True) .plain := by
  cases input with
  | email email =>
    have hwp := (processEmail_calls (P := P) email).wp_subst (f := mailLayer P cfg) (D := disc)
      (I := (· = Local.plain)) (fun l op hl hop ↦ ?_) rfl
    · exact Prog.wp_mono hwp fun _ _ _ ↦ trivial
    · subst hl
      cases op with
      | hand message =>
        have hchannel : message.channel = .email := hop
        exact (Prog.wp_catching _).mpr (receive_wp rfl fun h ↦ by simp [hchannel] at h)
      | _ => exact ⟨trivial, fun _ _ ↦ rfl⟩
  | posted sbn =>
    change ((AigentikNotificationListener.onNotificationPosted P sbn).subst (listenerLayer P cfg)).wp _ _ _
    rcases AigentikNotificationListener.onNotificationPosted_cases P sbn with h | h | ⟨-, -, next, hnext, h⟩
    · rw [h]
      trivial
    · rw [h]
      exact ⟨trivial, fun _ _ ↦ trivial⟩
    · rw [h]
      refine ⟨trivial, fun enabled _ ↦ ?_⟩
      cases enabled with
      | false => trivial
      | true =>
        rcases hnext with rfl | ⟨title, text, -, -, rfl⟩
        · trivial
        · exact posted_wp sbn title text
  | removed sbn =>
    exact ⟨trivial, fun _ _ ↦ ⟨trivial, fun _ _ ↦ trivial⟩⟩

/-! The handlers -/

theorem engineLayer_wp {op : EngineOp} (hop : AdminCall m op) (hl : l.message = some m) :
    (engineLayer P op).wp disc (fun _ l' ↦ l'.message = some m) l := by
  rcases op with op | op | op
  · exact ⟨trivial, fun _ _ ↦ hl⟩
  · cases op with
    | sendReply messageId reply =>
      obtain ⟨rfl, hm⟩ := hop
      exact sendReply_wp hl hm reply.text
    | routeReply sender reply => exact Pipeline.routeReply_wp (fun _ _ _ hl ↦ ⟨trivial, fun _ _ ↦ hl⟩) _ _ hl
    | _ => exact ⟨trivial, fun _ _ ↦ hl⟩
  · cases op <;> first | exact hop.elim | exact ⟨trivial, fun _ _ ↦ hl⟩

theorem handler_wp {handler : Handler} {body : Engine Unit} (hbody : body.Calls (AdminCall m)) :
    ((bracket handler m body).subst (engineLayer P)).wp disc (fun _ _ ↦ True) (.waiting m) :=
  bracket_wp (I := fun l ↦ l.message = some m) hbody rfl (fun _ _ hl hop ↦ engineLayer_wp hop hl)
    (fun _ ↦ rfl) fun _ ↦ trivial

theorem spawn_wp {op : SystemOp} {p : Prog systemSig Throwable Unit}
    (hp : spawned P cfg stackDepth op = some p) :
    p.wp disc (fun _ _ ↦ True) (spawnLocal .plain (fun _ ↦ Local.waiting) op) := by
  refine Pipeline.spawn_wp (fun m ↦ handler_wp (handleAdminCommand_replies ..)) (fun m ↦ handler_wp ?_)
    (fun l op hop ↦ ?_) (fun _ ↦ trivial) hp
  · refine (handlePublicMessage_calls P cfg m).lift fun op hop ↦ ?_
    cases op with
    | sendEmailDirect => exact hop.elim
    | _ => exact hop
  · cases op <;> first | exact hop.elim | exact ⟨trivial, fun _ ↦ rfl⟩

theorem follows {op : SystemOp} {r : systemSig.Resp op} (h : disc.allow l op) :
    Follows Local.Knows l (disc.next l op r) op := by
  have same (handler : Handler) (m : Message) : l.Knows handler m → l.Knows handler m := id
  rcases op with op | op | op
  · rcases op with op | op | op
    · exact same
    · exact same
    · cases op with
      | begin handler message => rfl
      | finish handler => trivial
      | _ => exact same
  · exact same
  · cases op with
    | router op =>
      rcases op with op | op | _
      · cases op with
        | get k => exact fun _ _ hk ↦ (keyLooked_message r).trans hk
        | _ => exact same
      · cases op with
        | get k => exact fun _ _ hk ↦ (entryLooked_message r).trans hk
        | _ => exact same
      all_goals exact same
    | resolved sbn sender text =>
      obtain rfl : l = .plain := h
      intro _ _ hk
      cases hk
    | _ => exact same

end Aigentik.NotificationThreads
