import Aigentik.Core.DedupWindow
import Aigentik.Effects.Execution
import Aigentik.Sms.SenderResolution

namespace Aigentik.SenderMixing

open Strings Effects AigentikNotificationListener
open MessageDeduplicator (fingerprint incomingTtlMs)
open DedupWindow (accept Seen)

/-- How far a notification has come: its sender is looked for; its message is checked; it is
known to be new. -/
inductive Stage
  | looking | deciding | stamping

/-- A notification, with what the clock and the rest of the app answer while it is handled. -/
structure Notice where
  sbn : StatusBarNotification
  answers : Stage → (op : Op) → sig.Resp op

structure Handling where
  stage : Stage
  dedup : MessageDeduplicator.State
  handed : List Message

def act (n : Notice) : (op : Op) → Handling → sig.Resp op × Handling
  | .router (.dedup (.isNew sender body now)), s =>
    let (new, dedup) := MessageDeduplicator.isNew sender body now s.dedup
    (new, { s with stage := .stamping, dedup })
  | .router (.dedup (.markSent body now)), s =>
    ((), { s with dedup := MessageDeduplicator.markSent body now s.dedup })
  | .router (.dedup (.sentTime body)), s => (MessageDeduplicator.sentTime body s.dedup, s)
  | .resolved .., s => ((), { s with stage := .deciding })
  | .hand message, s => (n.answers s.stage (.hand message), { s with handed := s.handed ++ [message] })
  | op, s => (n.answers s.stage op, s)

/-- The listener handles one notification after another; between them, replies are sent. -/
inductive Event
  | posted (n : Notice)
  | marked (body : Str) (now : ℤ)

variable (P : Platform)

def handle (n : Notice) (s : MessageDeduplicator.State) : List Message × MessageDeduplicator.State :=
  let h := ((onNotificationPosted P n.sbn).exec (act n) ⟨.looking, s, []⟩).2
  (h.handed, h.dedup)

def handed : List Event → MessageDeduplicator.State → List Message
  | [], _ => []
  | .posted n :: es, s => (handle P n s).1 ++ handed es (handle P n s).2
  | .marked body now :: es, s => handed es (MessageDeduplicator.markSent body now s)

/-- The sender that the title of a notification is resolved to. -/
def Notice.sender (n : Notice) : Option Str :=
  n.sbn.title.bind fun title ↦ ((resolveSender P title).outcome (fun _ ↦ n.answers .looking) []).toOption

/-- The sender is `x`, or it is a reply that is sent. -/
def Event.Of (x : Str) : Event → Prop
  | .posted n => n.sender P = some x
  | .marked .. => True

instance (x : Str) (e : Event) : Decidable (e.Of P x) :=
  match e with
  | .posted n => inferInstanceAs (Decidable (n.sender P = some x))
  | .marked .. => isTrue trivial

def messagesOf (x : Str) (es : List Event) : List Message := (handed P es .init).filter (·.sender = x)

/-- The messages of a sender do not depend on the notifications of the others. -/
def Unmixed (es : List Event) : Prop := ∀ x, messagesOf P x es = messagesOf P x (es.filter (·.Of P x))

def Notice.Listened (n : Notice) : Prop :=
  n.sbn.packageName ∈ messagingPackages ∧ n.sbn.notification.isGroupSummary = false ∧
    n.answers .looking (.channelIsEnabled .sms) = true

instance (n : Notice) : Decidable n.Listened := inferInstanceAs (Decidable (_ ∧ _ ∧ _ = true))

/-- What the message of a notification is told apart by. -/
def Notice.fingerprint (n : Notice) : Option Str :=
  if n.Listened then
    (n.sender P).bind fun sender ↦ n.sbn.text.map fun text ↦ MessageDeduplicator.fingerprint sender text
  else none

def Notice.now (n : Notice) : ℤ := n.answers .deciding .currentTimeMillis

/-- The later of two notifications is not checked before the other, and if their senders
differ, then so do their fingerprints, or five minutes lie between them. -/
def Notice.Apart (n n' : Notice) : Prop :=
  n.now ≤ n'.now ∧ ∀ fp ∈ n.fingerprint P, fp ∈ n'.fingerprint P →
    n.sender P = n'.sender P ∨ incomingTtlMs ≤ n'.now - n.now

instance (n n' : Notice) : Decidable (n.Apart P n') := inferInstanceAs (Decidable (_ ∧ ∀ _ ∈ _, _))

def Event.Apart : Event → Event → Prop
  | .posted n, .posted n' => n.Apart P n'
  | _, _ => True

instance : DecidableRel (Event.Apart P)
  | .posted n, .posted n' => inferInstanceAs (Decidable (n.Apart P n'))
  | .posted _, .marked .. | .marked .., _ => isTrue trivial

abbrev Apart (es : List Event) : Prop := es.Pairwise (Event.Apart P)

variable {P} {n : Notice} {s s' : MessageDeduplicator.State} {h : Handling} {x : Str} {e : Event} {es : List Event}

/-! What is done with a notification -/

/-- The calls that are answered by the rest of the app. -/
def Answered : Op → Prop
  | .router (.dedup _) | .hand _ | .resolved .. => False
  | _ => True

theorem act_answered {op : Op} (hop : Answered op) : act n op h = (n.answers h.stage op, h) := by
  cases op with
  | router op =>
    cases op with
    | dedup op => exact hop.elim
    | _ => rfl
  | hand message => exact hop.elim
  | resolved sbn sender text => exact hop.elim
  | _ => rfl

theorem exec_answered {α : Type} {p : Listener α} (hp : p.Calls Answered) :
    p.exec (act n) h = (p.outcome (fun _ ↦ n.answers h.stage) [], h) :=
  hp.exec_eq fun _ ↦ act_answered

theorem register_answered (messageId : Str) (entry : NotificationReplyRouter.ReplyEntry) :
    ((NotificationReplyRouter.register messageId entry).lift AigentikNotificationListener.routerHom).Calls
      Answered :=
  NotificationReplyRouter.register_lift (fun _ ↦ trivial) (fun _ ↦ trivial) messageId entry

theorem wasSentRecently_exec (text : Str) : (wasSentRecently text).exec (act n) ⟨.looking, s, []⟩ =
    (.ok (MessageDeduplicator.wasSentRecently text (n.answers .looking .currentTimeMillis) s), ⟨.looking, s, []⟩) := by
  simp only [wasSentRecently, AigentikNotificationListener.listen, Prog.call_bind, Prog.ret_bind, Prog.exec_call, act,
    MessageDeduplicator.wasSentRecently]
  cases MessageDeduplicator.sentTime text s <;> rfl

/-- A message that is new is handed over, if its sender's contact is read. -/
theorem handIfNew_exec (n : Notice) (sender text : Str) : ∃ messages : List Message,
    (∀ m ∈ messages, m.sender = sender) ∧
      ∀ s, ((handIfNew n.sbn sender text).exec (act n) ⟨.deciding, s, []⟩).2 =
        ⟨.stamping, (MessageDeduplicator.isNew sender text n.now s).2,
          if (MessageDeduplicator.isNew sender text n.now s).1 then messages else []⟩ := by
  cases hcontact : (n.answers .stamping (.findContact sender) : Except Throwable (Option ContactEngine.Contact)) with
  | error e =>
    refine ⟨[], nofun, fun s ↦ ?_⟩
    simp only [handIfNew, AigentikNotificationListener.listen, Prog.call_bind, Prog.ret_bind, Prog.exec_call, act]
    change (Prog.exec _ (if (MessageDeduplicator.isNew sender text n.now s).1 then _ else _) _).2 = _
    split
    · simp only [attempt, Prog.call_bind, Prog.ret_bind, Prog.exec_call, act, hcontact]
      rfl
    · rfl
  | ok contact =>
    refine ⟨[{
      id := fingerprint sender text
      channel := .notification
      sender
      senderName := contact.bind ContactEngine.Contact.name
      body := text
      packageName := n.sbn.packageName
      timestamp := n.answers .stamping .currentTimeMillis }], List.forall_mem_singleton.mpr rfl, fun s ↦ ?_⟩
    simp only [handIfNew, AigentikNotificationListener.listen, Prog.call_bind, Prog.ret_bind, Prog.exec_call, act]
    change (Prog.exec _ (if (MessageDeduplicator.isNew sender text n.now s).1 then _ else _) _).2 = _
    split
    · simp only [attempt, Prog.call_bind, Prog.ret_bind, Prog.exec_call, act, hcontact]
      simp only [Prog.ofExcept_ok, Prog.ret_bind, Prog.exec_call, act, Prog.exec_ofExcept, List.nil_append]
      rfl
    · rfl

/-- A text that was not sent recently is checked; the messages are those for a new one. -/
def Notice.check (n : Notice) (sender text : Str) (messages : List Message) (s : MessageDeduplicator.State) :
    List Message × MessageDeduplicator.State :=
  if MessageDeduplicator.wasSentRecently text (n.answers .looking .currentTimeMillis) s then ([], s)
  else
    (if (MessageDeduplicator.isNew sender text n.now s).1 then messages else [],
      (MessageDeduplicator.isNew sender text n.now s).2)

/-- After the check of the text nothing is done, or the message is checked for the sender that is found. -/
theorem receive_spec (P : Platform) (n : Notice) (title text : Str) :
    (∀ s, ∃ h, ((receive P n.sbn title text).exec (act n) ⟨.looking, s, []⟩).2 = ⟨h, s, []⟩) ∨
      ∃ x messages, (resolveSender P title).outcome (fun _ ↦ n.answers .looking) [] = .ok x ∧
        (∀ m ∈ messages, Message.sender m = x) ∧ ∀ s, ∃ h,
          ((receive P n.sbn title text).exec (act n) ⟨.looking, s, []⟩).2 =
            ⟨h, (n.check x text messages s).2, (n.check x text messages s).1⟩ := by
  have hsent (s) : (receive P n.sbn title text).exec (act n) ⟨.looking, s, []⟩ = _ :=
    Prog.exec_bind_ok (wasSentRecently_exec text)
  have hresolve (h : Handling) := exec_answered (n := n) (h := h) (resolveSender_calls P (fun _ ↦ trivial) title)
  cases hx : (resolveSender P title).outcome (fun _ ↦ n.answers .looking) [] with
  | error e =>
    refine .inl fun s ↦ ?_
    rw [hsent]
    split
    · exact ⟨_, rfl⟩
    · rw [Prog.exec_bind_error ((hresolve _).trans (by rw [hx]))]
      exact ⟨_, rfl⟩
  | ok x =>
    have hregister (h : Handling) := exec_answered (n := n) (h := h)
      (register_answered (fingerprint x text) ⟨n.sbn.notification, n.sbn.packageName, n.sbn.key⟩)
    cases hr : ((NotificationReplyRouter.register (fingerprint x text)
        ⟨n.sbn.notification, n.sbn.packageName, n.sbn.key⟩).lift
          AigentikNotificationListener.routerHom : Listener Unit).outcome (fun _ ↦ n.answers .deciding) [] with
    | error e =>
      refine .inl fun s ↦ ?_
      rw [hsent]
      split
      · exact ⟨_, rfl⟩
      · rw [Prog.exec_bind_ok ((hresolve _).trans (by rw [hx]))]
        simp only [AigentikNotificationListener.listen, Prog.call_bind, Prog.ret_bind, Prog.exec_call, act]
        rw [Prog.exec_bind_error ((hregister _).trans (by rw [hr]))]
        exact ⟨_, rfl⟩
    | ok _ =>
      obtain ⟨messages, hmessages, hhand⟩ := handIfNew_exec n x text
      refine .inr ⟨x, messages, rfl, hmessages, fun s ↦ ?_⟩
      rw [hsent, Notice.check]
      split
      · exact ⟨_, rfl⟩
      · rw [Prog.exec_bind_ok ((hresolve _).trans (by rw [hx]))]
        simp only [AigentikNotificationListener.listen, Prog.call_bind, Prog.ret_bind, Prog.exec_call, act]
        rw [Prog.exec_bind_ok ((hregister _).trans (by rw [hr])), hhand]
        exact ⟨_, rfl⟩

theorem handle_spec (P : Platform) (n : Notice) : (∀ s, handle P n s = ([], s)) ∨
    ∃ x text messages, n.sender P = some x ∧ n.fingerprint P = some (fingerprint x text) ∧
      (∀ m ∈ messages, Message.sender m = x) ∧ ∀ s, handle P n s = n.check x text messages s := by
  rcases onNotificationPosted_cases P n.sbn with h | h | ⟨hpackage, hsummary, next, hnext, h⟩
  · exact .inl fun s ↦ by rw [handle, h]; rfl
  · exact .inl fun s ↦ by rw [handle, h]; rfl
  · cases henabled : (n.answers .looking (.channelIsEnabled .sms) : Bool) with
    | false =>
      refine .inl fun s ↦ ?_
      simp only [handle, h, Prog.exec_call, act, henabled]
      rfl
    | true =>
      have hlistened : n.Listened := ⟨hpackage, hsummary, henabled⟩
      have hhandle (s) : handle P n s = let t := (next.exec (act n) ⟨.looking, s, []⟩).2; (t.handed, t.dedup) := by
        simp only [handle, h, Prog.exec_call, act, henabled, if_pos]
      rcases hnext with rfl | ⟨title, text, htitle, htext, rfl⟩
      · exact .inl hhandle
      · rcases receive_spec P n title text with hidle | ⟨x, messages, hx, hmessages, hcheck⟩
        · refine .inl fun s ↦ ?_
          obtain ⟨stage, hs⟩ := hidle s
          rw [hhandle, hs]
        · refine .inr ⟨x, text, messages, ?_, ?_, hmessages, fun s ↦ ?_⟩
          · rw [Notice.sender, htitle, Option.bind_some, hx]
            rfl
          · rw [Notice.fingerprint, if_pos hlistened, Notice.sender, htitle, Option.bind_some, hx, htext]
            rfl
          · obtain ⟨stage, hs⟩ := hcheck s
            rw [hhandle, hs]

/-! The runs with and without the notifications of the others -/

/-- No notification of `x` that is told apart by the key is checked within five minutes. -/
def Far (P : Platform) (x : Str) (es : List Event) (e : Str × ℤ) : Prop :=
  ∀ n, .posted n ∈ es → n.sender P = some x → n.fingerprint P = some e.1 → incomingTtlMs ≤ n.now - e.2

/-- What only the full run has accepted is of no account for the notifications of `x` to come. -/
structure Related (P : Platform) (x : Str) (es : List Event) (s s' : MessageDeduplicator.State)
    (accepted accepted' : Times Str) : Prop where
  sentTexts : s.sentTexts = s'.sentTexts
  seen : ∀ n, .posted n ∈ es → Seen n.now s accepted
  seen' : ∀ n, .posted n ∈ es → Seen n.now s' accepted'
  subset : accepted' ⊆ accepted
  far : ∀ e ∈ accepted, e ∈ accepted' ∨ Far P x es e

variable {accepted accepted' : Times Str} {fp text : Str} {now : ℤ}

theorem wasSentRecently_congr (h : s.sentTexts = s'.sentTexts) :
    MessageDeduplicator.wasSentRecently text now s = MessageDeduplicator.wasSentRecently text now s' := by
  rw [MessageDeduplicator.wasSentRecently, MessageDeduplicator.wasSentRecently, MessageDeduplicator.sentTime,
    MessageDeduplicator.sentTime, h]

theorem Far.tail {entry : Str × ℤ} (h : Far P x (e :: es) entry) : Far P x es entry :=
  fun n hn ↦ h n (List.mem_cons_of_mem e hn)

theorem filter_of (h : e.Of P x) (es : List Event) : (e :: es).filter (·.Of P x) = e :: es.filter (·.Of P x) :=
  List.filter_cons_of_pos (decide_eq_true h)

theorem filter_others (h : ¬e.Of P x) (es : List Event) : (e :: es).filter (·.Of P x) = es.filter (·.Of P x) :=
  List.filter_cons_of_neg (by simpa using h)

theorem far_of_apart (happart : ∀ e ∈ es, Event.Apart P (.posted n) e) (hn : n.sender P ≠ some x)
    (hfp : n.fingerprint P = some fp) : Far P x es (fp, n.now) := fun _ hn' hx hfp' ↦
  ((happart _ hn').2 fp hfp hfp').resolve_left fun heq ↦ hn (heq.trans hx)

namespace Related

theorem init : Related P x es .init .init [] [] := ⟨rfl, fun _ _ ↦ .init, fun _ _ ↦ .init, List.Subset.refl [], nofun⟩

theorem tail (h : Related P x (e :: es) s s' accepted accepted') : Related P x es s s' accepted accepted' where
  sentTexts := h.sentTexts
  seen n hn := h.seen n (List.mem_cons_of_mem e hn)
  seen' n hn := h.seen' n (List.mem_cons_of_mem e hn)
  subset := h.subset
  far entry hentry := (h.far entry hentry).imp_right Far.tail

theorem marked {body : Str} (h : Related P x es s s' accepted accepted') :
    Related P x es (MessageDeduplicator.markSent body now s) (MessageDeduplicator.markSent body now s')
      accepted accepted' where
  sentTexts := by simp only [MessageDeduplicator.markSent_sentTexts, h.sentTexts]
  seen n hn := (h.seen n hn).marked
  seen' n hn := (h.seen' n hn).marked
  subset := h.subset
  far := h.far

theorem other {sender : Str} (h : Related P x (.posted n :: es) s s' accepted accepted')
    (happart : ∀ e ∈ es, Event.Apart P (.posted n) e) (hn : n.sender P ≠ some x)
    (hfp : n.fingerprint P = some (fingerprint sender text)) :
    Related P x es (MessageDeduplicator.isNew sender text n.now s).2 s'
      (accept (fingerprint sender text) n.now accepted).2 accepted' where
  sentTexts := (MessageDeduplicator.isNew_sentTexts sender).trans h.sentTexts
  seen n' hn' := ((h.seen n List.mem_cons_self).isNew sender text).2.later (happart _ hn').1
  seen' n' hn' := h.tail.seen' n' hn'
  subset := fun e he ↦ DedupWindow.mem_accept (h.subset he) _
  far e he := by
    rcases DedupWindow.of_mem_accept he with he | rfl
    · exact h.tail.far e he
    · exact .inr (far_of_apart happart hn hfp)

theorem young_eq (h : Related P x (.posted n :: es) s s' accepted accepted') (hn : n.sender P = some x)
    (hfp : n.fingerprint P = some fp) : (accepted.any fun e ↦ e.1 = fp && n.now - e.2 < incomingTtlMs) =
      accepted'.any fun e ↦ e.1 = fp && n.now - e.2 < incomingTtlMs := by
  rw [Bool.eq_iff_iff, List.any_eq_true, List.any_eq_true]
  constructor
  · intro h'
    obtain ⟨⟨key, time⟩, he, hyoung⟩ := h'
    obtain ⟨rfl, hlt⟩ : key = fp ∧ n.now - time < incomingTtlMs := by simpa using hyoung
    have hfar : ¬Far P x (.posted n :: es) (key, time) := fun hfar ↦
      Int.not_le.mpr hlt (hfar n List.mem_cons_self hn hfp)
    exact ⟨_, (h.far _ he).resolve_right hfar, hyoung⟩
  · intro h'
    obtain ⟨e, he, hyoung⟩ := h'
    exact ⟨e, h.subset he, hyoung⟩

theorem own {sender : Str} (h : Related P x (.posted n :: es) s s' accepted accepted')
    (happart : ∀ e ∈ es, Event.Apart P (.posted n) e) (hn : n.sender P = some x)
    (hfp : n.fingerprint P = some (fingerprint sender text)) :
    (MessageDeduplicator.isNew sender text n.now s).1 = (MessageDeduplicator.isNew sender text n.now s').1 ∧
      Related P x es (MessageDeduplicator.isNew sender text n.now s).2
        (MessageDeduplicator.isNew sender text n.now s').2
        (accept (fingerprint sender text) n.now accepted).2 (accept (fingerprint sender text) n.now accepted').2 := by
  obtain ⟨hnew, hseen⟩ := (h.seen n List.mem_cons_self).isNew sender text
  obtain ⟨hnew', hseen'⟩ := (h.seen' n List.mem_cons_self).isNew sender text
  have hyoung := h.young_eq hn hfp
  refine ⟨?_, ?_, fun n' hn' ↦ hseen.later (happart _ hn').1, fun n' hn' ↦ hseen'.later (happart _ hn').1, ?_, ?_⟩
  · rw [hnew, hnew', accept, accept, hyoung]
    split <;> rfl
  · rw [MessageDeduplicator.isNew_sentTexts, MessageDeduplicator.isNew_sentTexts, h.sentTexts]
  · rw [accept, accept, hyoung]
    split
    · exact h.subset
    · exact List.cons_subset_cons _ h.subset
  · rw [accept, accept, hyoung]
    split
    · exact h.tail.far
    · refine List.forall_mem_cons.mpr ⟨.inl List.mem_cons_self, fun e he ↦ ?_⟩
      exact (h.tail.far e he).imp_left (List.mem_cons_of_mem _)

theorem handed_eq (h : Related P x es s s' accepted accepted') (happart : Apart P es) :
    (handed P es s).filter (·.sender = x) = (handed P (es.filter (·.Of P x)) s').filter (·.sender = x) := by
  induction es generalizing s s' accepted accepted' with
  | nil => rfl
  | cons e es ih =>
    obtain ⟨hhead, htail⟩ := List.pairwise_cons.mp happart
    cases e with
    | marked body now =>
      rw [filter_of (e := .marked body now) trivial]
      exact ih h.tail.marked htail
    | posted n =>
      rcases handle_spec P n with hidle | ⟨y, text, messages, hn, hfp, hmessages, hcheck⟩
      · rw [handed, hidle, List.nil_append]
        by_cases hx : Event.Of P x (.posted n)
        · rw [filter_of hx, handed, hidle, List.nil_append]
          exact ih h.tail htail
        · rw [filter_others hx]
          exact ih h.tail htail
      · rw [handed, hcheck, List.filter_append]
        by_cases hx : Event.Of P x (.posted n)
        · rw [filter_of hx, handed, hcheck, List.filter_append, Notice.check, Notice.check,
            wasSentRecently_congr h.sentTexts]
          obtain ⟨hnew, hnext⟩ := h.own hhead hx hfp
          split
          · rw [ih h.tail htail]
          · rw [hnew, ih hnext htail]
        · have hne : y ≠ x := fun hy ↦ hx (hn.trans (congrArg some hy))
          have hother : messages.filter (·.sender = x) = [] :=
            List.filter_eq_nil_iff.mpr fun m hm ↦ by simpa [hmessages m hm] using hne
          rw [filter_others hx, Notice.check]
          split
          · exact ih h.tail htail
          · dsimp only
            split
            · rw [hother]
              exact ih (h.other hhead hx hfp) htail
            · exact ih (h.other hhead hx hfp) htail

end Related

/-- Nothing is stored, and the clock stands. -/
def quietAt (now : ℤ) : (op : Op) → sig.Resp op
  | .currentTimeMillis => now
  | op => SenderResolution.quiet op

def notice (title text : Str) (now : ℤ) : Event :=
  .posted ⟨⟨"com.google.android.apps.messaging", title, ⟨false, some ⟨some title, none, some text⟩, none⟩⟩,
    fun _ ↦ quietAt now⟩

end Aigentik.SenderMixing
