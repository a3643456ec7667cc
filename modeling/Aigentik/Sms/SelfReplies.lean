import Aigentik.Effects.Pool
import Aigentik.Sms.AigentikNotificationListener

namespace Aigentik.SelfReplies

open Strings Effects
open AigentikNotificationListener (StatusBarNotification)
open MessageDeduplicator (sentKey sentTtlMs)

/-- The calls of the listener and of `sendReply`, the posting of a notification, and the
passing of time. -/
inductive EchoOp
  | listener (op : AigentikNotificationListener.Op)
  | posted (sbn : StatusBarNotification)
  | elapse
  deriving DecidableEq

abbrev echoSig : Sig where
  Op := EchoOp
  Resp
    | .listener op => AigentikNotificationListener.sig.Resp op
    | .posted _ => Unit
    | .elapse => ℕ

abbrev listenerHom : AigentikNotificationListener.sig.Hom echoSig where
  op := .listener
  resp _ := .refl _

abbrev replyHom : NotificationReplyRouter.sig.Hom echoSig where
  op op := .listener (.router op)
  resp _ := .refl _

inductive Input
  | posted (sbn : StatusBarNotification)
  | removed (sbn : StatusBarNotification)
  | reply (messageId replyText : Str)
  | elapse

def entry (P : Platform) : Input → Prog echoSig Throwable Unit
  | .posted sbn =>
    .call (.posted sbn) fun _ ↦ (AigentikNotificationListener.onNotificationPosted P sbn).lift listenerHom
  | .removed sbn => (AigentikNotificationListener.onNotificationRemoved sbn).lift listenerHom
  | .reply messageId replyText =>
    (NotificationReplyRouter.sendReply messageId replyText).lift replyHom >>= fun _ ↦ .ret ()
  | .elapse => .call .elapse fun _ ↦ .ret ()

/-- A reply whose `PendingIntent` has been sent, under the key of its text. -/
structure Sent where
  key : Str
  time : ℤ

/-- The maps of the router and of the deduplicator, and the clock. The rest records the replies
sent, the last mark of each text, for each thread the replies sent within five minutes before its
notification, and the mark of the text it has looked up, and the messages handed over, with those
replies. -/
structure Shared where
  ids : SharedMap Str Str
  entries : SharedMap Str NotificationReplyRouter.ReplyEntry
  dedup : MessageDeduplicator.State
  now : ℤ
  sent : List Sent
  marks : Str → Option ℤ
  before : ℕ → List Str
  found : ℕ → Option (Str × Option ℤ)
  handed : List (List Str × Str)

namespace Shared

def init (now : ℤ) : Shared := ⟨.empty, .empty, .init, now, [], fun _ ↦ none, fun _ ↦ [], fun _ ↦ none, []⟩

def post (s : Shared) (thread : ℕ) : Shared :=
  { s with
    before := Function.update s.before thread ((s.sent.filter fun r ↦ s.now - r.time ≤ sentTtlMs).map Sent.key) }

def fire (s : Shared) (text : Str) : Shared :=
  { s with sent := s.sent ++ [⟨sentKey text, s.now⟩] }

def mark (s : Shared) (text : Str) (now : ℤ) : Shared :=
  { s with
    dedup := MessageDeduplicator.markSent text now s.dedup
    marks := Function.update s.marks (sentKey text) (some now) }

def find (s : Shared) (thread : ℕ) (text : Str) : Shared :=
  { s with found := Function.update s.found thread (some (sentKey text, s.marks (sentKey text))) }

def forget (s : Shared) (thread : ℕ) : Shared := { s with found := Function.update s.found thread none }

def hand (s : Shared) (thread : ℕ) (text : Str) : Shared :=
  { s with handed := s.handed ++ [(s.before thread, sentKey text)] }

end Shared

def routerAct (thread : ℕ) : (op : NotificationReplyRouter.Op) → NotificationReplyRouter.sig.Resp op → Shared →
    Option (NotificationReplyRouter.sig.Resp op × Shared)
  | .ids op, offer, s => (s.ids.act op offer).map fun (r, ids) ↦ (r, { s with ids })
  | .entries op, offer, s => (s.entries.act op offer).map fun (r, entries) ↦ (r, { s with entries })
  | .dedup (.isNew sender text now), _, s =>
    let (r, dedup) := MessageDeduplicator.isNew sender text now s.dedup
    some (r, { s with dedup })
  | .dedup (.markSent text now), _, s => some ((), s.mark text now)
  | .dedup (.sentTime text), _, s => some (MessageDeduplicator.sentTime text s.dedup, s.find thread text)
  | .fire _ _ text, fired, s => some (fired, if fired then s.fire text else s)
  | .currentTimeMillis, _, s => some (s.now, s)
  | .hasContext, offer, s => some (offer, s)

def act (thread : ℕ) : (op : EchoOp) → echoSig.Resp op → Shared → Option (echoSig.Resp op × Shared)
  | .posted _, _, s => some ((), s.post thread)
  | .elapse, ms, s => some (ms, { s with now := s.now + ms })
  | .listener (.router op), offer, s => routerAct thread op offer s
  | .listener .currentTimeMillis, _, s => some (s.now, s.forget thread)
  | .listener (.hand message), offer, s => some (offer, s.hand thread message.body)
  | .listener _, offer, s => some (offer, s)

/-- Notifications come in, and replies are sent, on any number of threads. -/
def machine (P : Platform) : Machine echoSig Throwable Shared Input where
  act := act
  entry := entry P
  spawned _ := none

abbrev Configuration := Config echoSig Throwable Shared

/-- There is a mark, less than five minutes old. -/
def Shared.InTime (s : Shared) (mark : Option ℤ) : Bool := mark.any fun time ↦ s.now - time < sentTtlMs

/-- When the text of a notification is looked up that was posted within five minutes after a reply
with the same text, that text has been marked, less than five minutes ago; and it still is
when the clock is read. -/
def timely (s : Shared) (thread : ℕ) : EchoOp → Bool
  | .listener (.router (.dedup (.sentTime text))) =>
    sentKey text ∉ s.before thread || s.InTime (s.marks (sentKey text))
  | .listener .currentTimeMillis =>
    (s.found thread).all fun found ↦ found.1 ∉ s.before thread || s.InTime found.2
  | _ => true

def timelyMarks : Guard echoSig Shared Input where
  start _ _ := True
  call s thread op := timely s thread op

/-! What a thread knows -/

/-- Where a thread is: it has found a mark; or its notification is no echo of a reply that was sent
before; or it has read the time for a mark. -/
inductive Stage
  | idle
  | found (key : Str) (time : ℤ)
  | clear (key : Str)
  | timed (now : ℤ)

def disc : Discipline echoSig Stage where
  allow
    | l, .posted _ => l = .idle
    | l, .listener (.router (.dedup (.markSent _ now))) => l = .timed now
    | l, .listener (.hand message) => l = .clear (sentKey message.body)
    | _, _ => True
  may _ _ _ := True
  next
    | _, .listener (.router (.dedup (.sentTime text))), none => .clear (sentKey text)
    | _, .listener (.router (.dedup (.sentTime text))), some time => .found (sentKey text) time
    | .found key time, .listener .currentTimeMillis, now => if now - time < sentTtlMs then .idle else .clear key
    | .idle, .listener (.router .currentTimeMillis), now => .timed now
    | l, _, _ => l

def Known (s : Shared) (thread : ℕ) : Stage → Prop
  | .idle => True
  | .found key time => s.found thread = some (key, some time)
  | .clear key => key ∉ s.before thread
  | .timed now => now ≤ s.now

structure Inv (s : Shared) (ls : List Stage) : Prop where
  known : ∀ i l, ls[i]? = some l → Known s i l
  stored : ∀ key time, s.dedup.sentTexts.get key = some time → s.marks key = some time
  marks : ∀ key time, s.marks key = some time → s.dedup.sentTexts.get key = some time ∨ sentTtlMs < s.now - time
  handed : ∀ x ∈ s.handed, x.2 ∉ x.1

variable {P : Platform} {l l' : Stage} {s s' : Shared} {ls : List Stage} {i : ℕ}

/-! The programs -/

abbrev listening : Discipline AigentikNotificationListener.sig Stage := disc.pull listenerHom

/-- The calls after the check, up to those of the message's own. -/
def Plain : AigentikNotificationListener.Op → Prop
  | .router (.dedup (.sentTime _)) | .router (.dedup (.markSent ..)) | .router .currentTimeMillis | .hand _ => False
  | _ => True

theorem Plain.wp {α : Type} {p : AigentikNotificationListener.Listener α} (hp : p.Calls Plain) {key : Str} :
    p.wp listening (fun _ l ↦ l = .clear key) (.clear key) := by
  refine hp.wp (I := (· = Stage.clear key)) (fun l op hl hop ↦ ?_) rfl
  subst hl
  cases op with
  | router op =>
    cases op with
    | dedup op =>
      cases op with
      | isNew sender body now => exact ⟨trivial, fun _ _ ↦ rfl⟩
      | _ => exact hop.elim
    | currentTimeMillis => exact hop.elim
    | _ => exact ⟨trivial, fun _ _ ↦ rfl⟩
  | hand message => exact hop.elim
  | _ => exact ⟨trivial, fun _ _ ↦ rfl⟩

theorem handIfNew_wp (sbn : StatusBarNotification) (sender text : Str) :
    (AigentikNotificationListener.handIfNew sbn sender text).wp listening (fun _ _ ↦ True) (.clear (sentKey text)) := by
  refine ⟨trivial, fun now _ ↦ ⟨trivial, fun new _ ↦ ?_⟩⟩
  cases new with
  | false => trivial
  | true =>
    refine ⟨trivial, fun contact _ ↦ ?_⟩
    cases contact with
    | error e => trivial
    | ok contact =>
      refine ⟨trivial, fun timestamp _ ↦ ⟨rfl, fun outcome _ ↦ ?_⟩⟩
      cases outcome <;> trivial

theorem register_plain (messageId : Str) (entry : NotificationReplyRouter.ReplyEntry) :
    ((NotificationReplyRouter.register messageId entry).lift AigentikNotificationListener.routerHom).Calls Plain :=
  NotificationReplyRouter.register_lift (fun _ ↦ trivial) (fun _ ↦ trivial) messageId entry

/-- The check lets a text pass only where its notification is no echo. -/
theorem wasSentRecently_wp (text : Str) :
    (AigentikNotificationListener.wasSentRecently text).wp listening
      (fun o l ↦ o = .ok true ∨ o = .ok false ∧ l = .clear (sentKey text)) .idle := by
  refine ⟨trivial, fun found _ ↦ ?_⟩
  cases found with
  | none => exact .inr ⟨rfl, rfl⟩
  | some time =>
    refine ⟨trivial, fun now _ ↦ ?_⟩
    change Except.ok (decide (now - time < sentTtlMs)) = _ ∨ _ ∧ (if now - time < sentTtlMs then Stage.idle else _) = _
    by_cases hrecent : now - time < sentTtlMs
    · exact .inl (congrArg _ (decide_eq_true hrecent))
    · exact .inr ⟨congrArg _ (decide_eq_false hrecent), if_neg hrecent⟩

theorem receive_wp (sbn : StatusBarNotification) (title text : Str) :
    (AigentikNotificationListener.receive P sbn title text).wp listening (fun _ _ ↦ True) .idle := by
  refine (Prog.wp_bind _ _).mpr (Prog.wp_mono (wasSentRecently_wp text) fun o l hl ↦ ?_)
  rcases hl with rfl | ⟨rfl, rfl⟩
  · trivial
  · have hsender : (AigentikNotificationListener.resolveSender P title).Calls Plain :=
      AigentikNotificationListener.resolveSender_calls P (fun _ ↦ trivial) title
    refine (Prog.wp_bind _ _).mpr (Prog.wp_mono (Plain.wp hsender) fun o l hl ↦ ?_)
    subst hl
    cases o with
    | error e => trivial
    | ok sender =>
      refine ⟨trivial, fun _ _ ↦ ?_⟩
      change Prog.wp _ _ ((NotificationReplyRouter.register _ _).lift _ >>= _) _
      refine (Prog.wp_bind _ _).mpr (Prog.wp_mono (Plain.wp (register_plain _ _)) fun o l hl ↦ ?_)
      subst hl
      cases o with
      | error e => trivial
      | ok _ => exact handIfNew_wp sbn sender text

theorem posted_wp (sbn : StatusBarNotification) :
    (AigentikNotificationListener.onNotificationPosted P sbn).wp listening (fun _ _ ↦ True) .idle := by
  rcases AigentikNotificationListener.onNotificationPosted_cases P sbn with h | h | ⟨-, -, next, hnext, h⟩
  · rw [h]
    trivial
  · rw [h]
    exact ⟨trivial, fun _ _ ↦ trivial⟩
  · rw [h]
    refine ⟨trivial, fun enabled _ ↦ ?_⟩
    cases enabled with
    | false => trivial
    | true =>
      rcases hnext with rfl | ⟨title, text, -, -, rfl⟩
      · trivial
      · exact receive_wp sbn title text

theorem fireReply_wp (messageId sbnKey key replyText : Str) (entry : NotificationReplyRouter.ReplyEntry) :
    (NotificationReplyRouter.fireReply messageId sbnKey key replyText entry : Prog _ Throwable Bool).wp
      (disc.pull replyHom) (fun _ _ ↦ True) .idle := by
  refine ⟨trivial, fun context _ ↦ ?_⟩
  cases context with
  | false => trivial
  | true =>
    refine ⟨trivial, fun fired _ ↦ ?_⟩
    cases fired with
    | false => trivial
    | true =>
      exact ⟨trivial, fun now _ ↦ ⟨rfl, fun _ _ ↦ ⟨trivial, fun _ _ ↦ ⟨trivial, fun _ _ ↦ trivial⟩⟩⟩⟩

theorem sendReply_wp (messageId replyText : Str) :
    (NotificationReplyRouter.sendReply messageId replyText : Prog _ Throwable Bool).wp
      (disc.pull replyHom) (fun _ _ ↦ True) .idle := by
  refine ⟨trivial, fun sbnKey _ ↦ ?_⟩
  cases sbnKey with
  | none => trivial
  | some sbnKey =>
    refine ⟨trivial, fun entry _ ↦ ?_⟩
    cases entry with
    | none => trivial
    | some entry =>
      dsimp only [Prog.bind]
      split
      · trivial
      · exact fireReply_wp ..

theorem entry_wp (input : Input) : (entry P input).wp disc (fun _ _ ↦ True) .idle := by
  cases input with
  | posted sbn => exact ⟨rfl, fun _ _ ↦ (Prog.wp_lift _ _).mpr (posted_wp sbn)⟩
  | removed sbn => exact ⟨trivial, fun _ _ ↦ ⟨trivial, fun _ _ ↦ trivial⟩⟩
  | reply messageId replyText =>
    refine (Prog.wp_bind _ _).mpr ((Prog.wp_lift _ _).mpr (Prog.wp_mono (sendReply_wp messageId replyText)
      fun o l _ ↦ ?_))
    cases o <;> trivial
  | elapse => exact ⟨trivial, fun _ _ ↦ trivial⟩

/-! The steps -/

theorem Known.later (h : Known s i l) (hfound : s'.found i = s.found i) (hbefore : s'.before i = s.before i)
    (hnow : s.now ≤ s'.now) : Known s' i l := by
  cases l with
  | idle => trivial
  | found key time => exact hfound.trans h
  | clear key =>
    have hclear : key ∉ s'.before i := hbefore ▸ h
    exact hclear
  | timed now => exact Int.le_trans h hnow

theorem Inv.step (h : Inv s ls) (hfound : ∀ j, j ≠ i → s'.found j = s.found j)
    (hbefore : ∀ j, j ≠ i → s'.before j = s.before j) (hnow : s.now ≤ s'.now) (hown : Known s' i l')
    (hstored : ∀ key time, s'.dedup.sentTexts.get key = some time → s'.marks key = some time)
    (hmarks : ∀ key time, s'.marks key = some time →
      s'.dedup.sentTexts.get key = some time ∨ sentTtlMs < s'.now - time)
    (hhanded : ∀ x ∈ s'.handed, x ∈ s.handed ∨ x.2 ∉ x.1) : Inv s' (ls.set i l' ++ []) := by
  refine ⟨fun j x hx ↦ ?_, hstored, hmarks, fun x hx ↦ (hhanded x hx).elim (h.handed x) id⟩
  rcases getElem?_step hx with ⟨rfl, rfl⟩ | ⟨hne, hx⟩ | ⟨-, hx⟩
  · exact hown
  · exact (h.known j x hx).later (hfound j hne) (hbefore j hne) hnow
  · cases hx

/-- A step that leaves the marks and the messages as they are. -/
theorem Inv.unmarked (h : Inv s ls) (hfound : ∀ j, j ≠ i → s'.found j = s.found j)
    (hbefore : ∀ j, j ≠ i → s'.before j = s.before j) (hown : Known s' i l') (hnow : s'.now = s.now)
    (hsent : s'.dedup.sentTexts = s.dedup.sentTexts) (hmarks : s'.marks = s.marks) (hhanded : s'.handed = s.handed) :
    Inv s' (ls.set i l' ++ []) := by
  refine h.step hfound hbefore (Int.le_of_eq hnow.symm) hown ?_ ?_ fun x hx ↦ .inl (hhanded ▸ hx)
  · rw [hsent, hmarks]
    exact h.stored
  · rw [hsent, hmarks, hnow]
    exact h.marks

/-- A step that changes nothing of interest. -/
theorem Inv.same (h : Inv s ls) (hi : ls[i]? = some l) (hfound : s'.found = s.found) (hbefore : s'.before = s.before)
    (hnow : s'.now = s.now) (hsent : s'.dedup.sentTexts = s.dedup.sentTexts) (hmarks : s'.marks = s.marks)
    (hhanded : s'.handed = s.handed) : Inv s' (ls.set i l ++ []) :=
  h.unmarked (fun j _ ↦ congrFun hfound j) (fun j _ ↦ congrFun hbefore j)
    ((h.known i l hi).later (congrFun hfound i) (congrFun hbefore i) (Int.le_of_eq hnow.symm)) hnow hsent hmarks hhanded

theorem Inv.elapse (h : Inv s ls) (hi : ls[i]? = some l) (ms : ℕ) :
    Inv { s with now := s.now + ms } (ls.set i l ++ []) := by
  have hnow : s.now ≤ s.now + ms := by omega
  refine h.step (fun _ _ ↦ rfl) (fun _ _ ↦ rfl) hnow ((h.known i l hi).later rfl rfl hnow) h.stored
    (fun key time hmark ↦ ?_) fun _ ↦ .inl
  refine (h.marks key time hmark).imp_right fun hold ↦ ?_
  change sentTtlMs < s.now + ms - time
  omega

theorem Inv.mark (h : Inv s ls) (hi : ls[i]? = some l) (text : Str) {now : ℤ} (hnow : now ≤ s.now) :
    Inv (s.mark text now) (ls.set i l ++ []) := by
  refine h.step (fun _ _ ↦ rfl) (fun _ _ ↦ rfl) (Int.le_refl _) ((h.known i l hi).later rfl rfl (Int.le_refl _))
    (fun key time hkey ↦ ?_) (fun key time hmark ↦ ?_) fun _ ↦ .inl
  · rcases MessageDeduplicator.markSent_some hkey with ⟨rfl, rfl⟩ | ⟨hne, hkey⟩
    · exact Function.update_self ..
    · exact (Function.update_of_ne hne _ _).trans (h.stored key time hkey)
  · change Function.update s.marks (sentKey text) (some now) key = some time at hmark
    by_cases hkey : key = sentKey text
    · subst hkey
      rw [Function.update_self] at hmark
      cases hmark
      exact .inl MessageDeduplicator.markSent_self
    · rw [Function.update_of_ne hkey] at hmark
      rcases h.marks key time hmark with hget | hold
      · exact (MessageDeduplicator.markSent_other hkey hget).imp_right fun hold ↦
          Int.lt_of_lt_of_le hold (Int.sub_le_sub_right hnow time)
      · exact .inr hold

/-- A text of which a mark is in time is found in `sentTexts`. -/
theorem Inv.found_of_inTime (h : Inv s ls) {key : Str} (htime : s.InTime (s.marks key) = true) :
    ∃ time, s.dedup.sentTexts.get key = some time := by
  obtain ⟨time, hmark, hrecent⟩ := (Option.any_eq_true _ _).mp htime
  rcases h.marks key time hmark with hget | hold
  · exact ⟨time, hget⟩
  · have hlt : s.now - time < sentTtlMs := of_decide_eq_true hrecent
    omega

theorem Inv.look (h : Inv s ls) (text : Str)
    (htimely : sentKey text ∈ s.before i → s.InTime (s.marks (sentKey text)) = true)
    {found : Option ℤ} (hfound : found = s.dedup.sentTexts.get (sentKey text)) :
    Inv (s.find i text)
      (ls.set i (disc.next l (.listener (.router (.dedup (.sentTime text)))) found) ++ []) := by
  refine h.unmarked (fun j hj ↦ Function.update_of_ne hj _ _) (fun _ _ ↦ rfl) ?_ rfl rfl rfl rfl
  cases found with
  | none =>
    intro hecho
    obtain ⟨time, hget⟩ := h.found_of_inTime (htimely hecho)
    rw [hget] at hfound
    cases hfound
  | some time =>
    change Function.update s.found i (some (sentKey text, s.marks (sentKey text))) i = _
    rw [Function.update_self, h.stored _ _ hfound.symm]

theorem Inv.clock (h : Inv s ls) (hi : ls[i]? = some l)
    (htimely : ∀ x, s.found i = some x → x.1 ∈ s.before i → s.InTime x.2 = true) :
    Inv (s.forget i) (ls.set i (disc.next l (.listener .currentTimeMillis) s.now) ++ []) := by
  refine h.unmarked (fun j hj ↦ Function.update_of_ne hj _ _) (fun _ _ ↦ rfl) ?_ rfl rfl rfl rfl
  have hl : Known s i l := h.known i l hi
  cases l with
  | found key time =>
    change Known _ i (if s.now - time < sentTtlMs then .idle else .clear key)
    split
    · trivial
    · rename_i hold
      exact fun hecho ↦ hold (of_decide_eq_true (htimely _ hl hecho))
  | idle => trivial
  | clear key => exact hl
  | timed now => exact hl

theorem Inv.hand (h : Inv s ls) (hi : ls[i]? = some l) {text : Str} (hl : l = .clear (sentKey text)) :
    Inv (s.hand i text) (ls.set i l ++ []) := by
  subst hl
  have hclear : sentKey text ∉ s.before i := h.known i _ hi
  refine h.step (fun _ _ ↦ rfl) (fun _ _ ↦ rfl) (Int.le_refl _) hclear h.stored h.marks fun x hx ↦ ?_
  rcases List.mem_append.mp hx with hx | hx
  · exact .inl hx
  · rw [List.mem_singleton.mp hx]
    exact .inr hclear

theorem Inv.call {op : EchoOp} {offer r : echoSig.Resp op} (h : Inv s ls) (hi : ls[i]? = some l)
    (hallow : disc.allow l op) (htimely : timely s i op = true) (hact : act i op offer s = some (r, s')) :
    Inv s' (ls.set i (disc.next l op r) ++ []) := by
  have hl : Known s i l := h.known i l hi
  cases op with
  | posted sbn =>
    cases hact
    have hidle : l = .idle := hallow
    subst hidle
    exact h.unmarked (fun _ _ ↦ rfl) (fun j hj ↦ Function.update_of_ne hj _ _) trivial rfl rfl rfl rfl
  | elapse =>
    cases hact
    exact h.elapse hi offer
  | listener op =>
    cases op with
    | router op =>
      cases op with
      | ids op | entries op =>
        obtain ⟨_, -, heq⟩ := Option.map_eq_some_iff.mp hact
        cases heq
        exact h.same hi rfl rfl rfl rfl rfl rfl
      | dedup op =>
        cases op with
        | isNew sender body now =>
          cases hact
          exact h.same hi rfl rfl rfl (MessageDeduplicator.isNew_sentTexts sender) rfl rfl
        | markSent text now =>
          cases hact
          have htimed : l = .timed now := hallow
          subst htimed
          exact h.mark hi text hl
        | sentTime text =>
          cases hact
          exact h.look text (fun hecho ↦ by simpa [timely, hecho] using htimely) rfl
      | fire entry key text =>
        cases hact
        cases offer <;> exact h.same hi rfl rfl rfl rfl rfl rfl
      | currentTimeMillis =>
        cases hact
        cases l with
        | idle => exact h.unmarked (fun _ _ ↦ rfl) (fun _ _ ↦ rfl) (Int.le_refl _) rfl rfl rfl rfl
        | _ => exact h.same hi rfl rfl rfl rfl rfl rfl
      | hasContext =>
        cases hact
        exact h.same hi rfl rfl rfl rfl rfl rfl
    | currentTimeMillis =>
      cases hact
      refine h.clock hi fun x hx hecho ↦ ?_
      simpa [timely, hx, hecho] using htimely
    | hand message =>
      cases hact
      exact h.hand hi hallow
    | _ =>
      cases hact
      exact h.same hi rfl rfl rfl rfl rfl rfl

variable (P)

def outline : Outline (machine P) timelyMarks Stage where
  disc := disc
  final _ := True
  entryLocal _ := .idle
  spawnLocal _ := .idle
  inv := Inv
  entry_wp _ input _ := entry_wp input
  spawn_wp s i op p _ hp := by cases hp
  inv_start s ls input _ h := by
    refine ⟨fun i l hl ↦ ?_, h.stored, h.marks, h.handed⟩
    rw [List.getElem?_append] at hl
    split at hl
    · exact h.known i l hl
    · obtain rfl := List.mem_singleton.mp (List.mem_of_getElem? hl)
      trivial
  inv_call s ls i l op offer r s' hi hallow hG hact h := ⟨trivial, h.call hi hallow hG hact⟩

/-- In every run that meets the condition, no message is handed over whose notification was posted
within five minutes after a reply with the same text. -/
theorem no_echo_handed (now : ℤ) {c : Configuration}
    (h : (machine P).Reachable timelyMarks ⟨.init now, []⟩ c) : ∀ x ∈ c.shared.handed, x.2 ∉ x.1 := by
  have hinit : Inv (.init now) [] := by
    refine ⟨?_, ?_, ?_, by simp [Shared.init]⟩
    · intro i l hl
      cases hl
    · intro key time hkey
      cases hkey
    · intro key time hmark
      cases hmark
  obtain ⟨ls, -, hinv⟩ := (outline P).reachable h (Outline.holds_init _ hinit)
  exact hinv.handed

/-! A reply to one notification, and its echo -/

def quietEcho : (op : EchoOp) → echoSig.Resp op
  | .listener (.router (.ids op)) => quietMap op
  | .listener (.router (.entries op)) => quietMap op
  | .listener (.router (.dedup (.isNew ..))) => true
  | .listener (.router (.dedup (.sentTime _))) => (none : Option ℤ)
  | .listener (.router (.dedup (.markSent ..))) => ()
  | .listener (.router .currentTimeMillis) | .listener .currentTimeMillis => (0 : ℤ)
  | .listener (.router .hasContext) | .listener (.router (.fire ..)) | .listener (.channelIsEnabled _) => true
  | .listener (.hand _) => (.ok () : Except Throwable Unit)
  | .listener (.findContact _) => (.ok none : Except Throwable (Option ContactEngine.Contact))
  | .listener .onGmailNotification | .listener (.resolved ..) => ()
  | .posted _ => ()
  | .elapse => (1000 : ℕ)

def textOf (text : Str) : StatusBarNotification :=
  ⟨"com.google.android.apps.messaging", "k1",
    ⟨false, some ⟨some "Ann", none, some text⟩, some [⟨some [⟨"reply_text"⟩]⟩]⟩⟩

abbrev steps (thread times : ℕ) : List (Label echoSig Input) :=
  List.replicate times (.step thread quietEcho)

abbrev sample := machine asciiPlatform

/-- A message comes in, and the reply to it is sent: `n` calls of `sendReply`. -/
def replied (n : ℕ) : List (Label echoSig Input) :=
  [.start (.posted (textOf "hi".toList))] ++ steps 0 13 ++ [.start (.reply "_hi".toList "ok".toList)] ++ steps 1 n

def echoed (n : ℕ) : List (Label echoSig Input) := [.start (.posted (textOf "ok".toList))] ++ steps 2 n

theorem marked_suppressed : ∃ c, sample.run timely ⟨.init 0, []⟩ (replied 8 ++ echoed 4) = some c ∧
    c.shared.sent.map Sent.key = ["ok".toList] ∧ ∀ x ∈ c.shared.handed, x.2 ∉ x.1 := by
  have h : (sample.run timely ⟨.init 0, []⟩ (replied 8 ++ echoed 4)).map (fun c ↦ c.shared.sent.map Sent.key) =
      some ["ok".toList] := by decide +kernel
  obtain ⟨c, hc, hsent⟩ := Option.map_eq_some_iff.mp h
  refine ⟨c, hc, hsent, no_echo_handed asciiPlatform 0 ?_⟩
  exact Machine.reachable_of_run _ (fun _ _ ↦ trivial) (fun _ _ _ ↦ id) hc

/-- An echo that is checked before the reply is marked is handed over. -/
theorem unmarked_handed : ∃ c, sample.run (fun _ _ _ ↦ true) ⟨.init 0, []⟩ (replied 4 ++ echoed 13) = some c ∧
    c.shared.handed = [([], "hi".toList), (["ok".toList], "ok".toList)] ∧ ¬∀ x ∈ c.shared.handed, x.2 ∉ x.1 := by
  have h : (sample.run (fun _ _ _ ↦ true) ⟨.init 0, []⟩ (replied 4 ++ echoed 13)).map (fun c ↦ c.shared.handed) =
      some [([], "hi".toList), (["ok".toList], "ok".toList)] := by decide +kernel
  obtain ⟨c, hc, hhanded⟩ := Option.map_eq_some_iff.mp h
  refine ⟨c, hc, hhanded, ?_⟩
  rw [hhanded]
  decide

end Aigentik.SelfReplies
