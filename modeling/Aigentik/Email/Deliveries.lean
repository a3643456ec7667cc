import Aigentik.Effects.Sequential
import Aigentik.Email.GmailNotifications
import Aigentik.Email.HistoryCursor

namespace Aigentik.Deliveries

open Strings Effects GmailApiClient GmailHistoryClient EmailRouter EmailMonitor GmailNotifications

abbrev cursor : ℕ → Str := HistoryCursor.Mailbox.cursor

/-- A mailbox to which every message is added once, under an id of its history. -/
structure Mailbox where
  added : Str → Option ℕ
  latest : ℕ
  unread : List Str
  le_latest : ∀ m n, added m = some n → n ≤ latest
  unread_added : ∀ m ∈ unread, (added m).isSome

namespace Mailbox

def read (M : Mailbox) (m : Str) : Mailbox where
  added := M.added
  latest := M.latest
  unread := M.unread.filter (· ≠ m)
  le_latest := M.le_latest
  unread_added x hx := M.unread_added x (List.mem_filter.mp hx).1

/-- Messages come and are read; one that has been handed over does not become unread again. -/
structure Grows (handed : List Str) (M M' : Mailbox) : Prop where
  added : ∀ m n, M.added m = some n → M'.added m = some n
  latest : M.latest ≤ M'.latest
  read : ∀ m ∈ handed, m ∈ M'.unread → m ∈ M.unread

/-- What Gmail answers: the unread messages, the present labels, and the history after a cursor. -/
def Serves (M : Mailbox) : (op : MailOp) → mailSig.Resp op → Prop
  | .listUnread _, .ok emails =>
    (emails.map ParsedEmail.gmailId).Nodup ∧ ∀ email ∈ emails, email.gmailId ∈ M.unread
  | .getMessage m, .ok (some raw) => hasLabel raw.labelIds "UNREAD" = true → m ∈ M.unread
  | .historyList _ startHistoryId, .ok page =>
    (∀ h, page.historyId = some h → h = cursor M.latest) ∧
      ∀ start, startHistoryId = cursor start →
        ∀ message ∈ (page.history.getD []).flatMap HistoryEntry.added, ∀ m, message.id = some m →
          ∃ n, M.added m = some n ∧ start < n
  | .profile _, .ok (some historyId) => historyId = cursor M.latest
  | _, _ => True

end Mailbox

/-- The mailbox and the stored cursor. The rest records the messages that were handed over, and
whether the notification being handled has got a new cursor. -/
structure State where
  mailbox : Mailbox
  prefs : Option Str
  cached : Option Str
  handed : List Str
  advanced : Bool

namespace State

def Stored (s : State) : (op : MailOp) → mailSig.Resp op → Prop
  | .prefsGet, r => r = s.prefs
  | .cachedGet, r => r = s.cached
  | _, _ => True

def after (s : State) : (op : MailOp) → mailSig.Resp op → State
  | .hand message, _ => { s with handed := s.handed ++ [message.id] }
  | .markAsRead gmailId, .ok true => { s with mailbox := s.mailbox.read gmailId }
  | .historyList .., .ok page => { s with advanced := page.historyId.isSome }
  | .prefsPut historyId, _ => { s with prefs := some historyId }
  | .cachedPut historyId, _ => { s with cached := historyId }
  | _, _ => s

/-- Where the notification gets no new cursor, its messages are handed over without an exception
and are then marked as read. -/
def Settles (s : State) : (op : MailOp) → mailSig.Resp op → Prop
  | .hand _, r => s.advanced = true ∨ r = .ok ()
  | .markAsRead gmailId, r => s.advanced = true ∨ gmailId ∉ s.handed ∨ r = .ok true
  | _, _ => True

end State

def reacts : Reacts mailSig State := fun op s r s' ↦ ∃ M, s.mailbox.Grows s.handed M ∧ M.Serves op r ∧
  s.Stored op r ∧ s' = State.after { s with mailbox := M } op r

def settling : Reacts mailSig State := fun op s r s' ↦ reacts op s r s' ∧ s.Settles op r

inductive Event
  | notification (signedIn : Bool)
  | primeHistoryId
  deriving DecidableEq

variable (P : Platform)

def Event.run : Event → Mail Unit
  | .notification true => fetch P
  | .notification false => return
  | .primeHistoryId => do
    let _ ← GmailHistoryClient.primeHistoryId
    return

/-- An event is handled to its end. -/
def step (R : Reacts mailSig State) :
    List (Done Event Throwable Unit) × State → Event → Except Throwable Unit → State → Prop
  | (_, s), x, o, s' => (x.run P).Runs R { s with advanced := false } o s'

variable {P} {s s' s'' : State} {M : Mailbox} {ids ids' ids'' : List Str} {m : Str} {passed passed' : ℕ → Prop}
  {n : ℕ} {but : Option Str}

/-! What has been handed over is read, or the cursor is past it -/

structure Settled (passed : ℕ → Prop) (but : Option Str) (s : State) : Prop where
  nodup : s.handed.Nodup
  settled : ∀ m ∈ s.handed, ∃ n, s.mailbox.added m = some n ∧
    (m ∉ s.mailbox.unread ∨ passed n ∨ but = some m)

/-- What a part of the program leaves when it hands over no other messages than these. -/
structure Turn (ids : List Str) (s s' : State) : Prop where
  prefs : s'.prefs = s.prefs
  cached : s'.cached = s.cached
  advanced : s'.advanced = s.advanced
  added : ∀ m n, s.mailbox.added m = some n → s'.mailbox.added m = some n
  read : ∀ m ∈ s.handed, m ∈ s'.mailbox.unread → m ∈ s.mailbox.unread
  kept : ∀ m ∈ s.handed, m ∈ s'.handed
  handed : ∀ m ∈ s'.handed, m ∈ s.handed ∨ m ∈ ids

namespace Turn

theorem trans (h : Turn ids s s') (h' : Turn ids s' s'') : Turn ids s s'' where
  prefs := h'.prefs.trans h.prefs
  cached := h'.cached.trans h.cached
  advanced := h'.advanced.trans h.advanced
  added m n hm := h'.added m n (h.added m n hm)
  read m hm hunread := h.read m hm (h'.read m (h.kept m hm) hunread)
  kept m hm := h'.kept m (h.kept m hm)
  handed m hm := (h'.handed m hm).elim (h.handed m) .inr

theorem mono (h : Turn ids s s') (hids : ∀ m ∈ ids, m ∈ ids') : Turn ids' s s' :=
  { h with handed := fun m hm ↦ (h.handed m hm).imp_right (hids m) }

theorem refl (s : State) : Turn ids s s :=
  ⟨rfl, rfl, rfl, fun _ _ ↦ id, fun _ _ ↦ id, fun _ ↦ id, fun _ ↦ .inl⟩

theorem grows (h : s.mailbox.Grows s.handed M) : Turn ids s { s with mailbox := M } :=
  ⟨rfl, rfl, rfl, h.added, h.read, fun _ ↦ id, fun _ ↦ .inl⟩

end Turn

namespace Settled

theorem grows (hs : Settled passed but s) (h : s.mailbox.Grows s.handed M) :
    Settled passed but { s with mailbox := M } := by
  refine ⟨hs.nodup, fun m hm ↦ ?_⟩
  obtain ⟨n, hadded, hsettled⟩ := hs.settled m hm
  exact ⟨n, h.added m n hadded, hsettled.imp_left fun hread hunread ↦ hread (h.read m hm hunread)⟩

theorem all (hs : Settled passed but s) (h : ∀ n ≤ s.mailbox.latest, passed' n) : Settled passed' but s := by
  refine ⟨hs.nodup, fun m hm ↦ ?_⟩
  obtain ⟨n, hadded, -⟩ := hs.settled m hm
  exact ⟨n, hadded, .inr (.inl (h n (s.mailbox.le_latest m n hadded)))⟩

theorem except (hs : Settled passed none s) : Settled passed but s := by
  refine ⟨hs.nodup, fun m hm ↦ ?_⟩
  obtain ⟨n, hadded, hsettled⟩ := hs.settled m hm
  exact ⟨n, hadded, hsettled.imp_right (.imp_right fun h ↦ by cases h)⟩

theorem hand (hs : Settled passed none s) (hnew : m ∉ s.handed) (hadded : s.mailbox.added m = some n) :
    Settled passed (some m) { s with handed := s.handed ++ [m] } := by
  refine ⟨?_, fun x hx ↦ ?_⟩
  · rw [List.nodup_append]
    refine ⟨hs.nodup, by simp, fun x hx y hy ↦ ?_⟩
    rw [List.mem_singleton.mp hy]
    exact fun heq ↦ hnew (heq ▸ hx)
  · rcases List.mem_append.mp hx with hx | hx
    · exact hs.except.settled x hx
    · rw [List.mem_singleton.mp hx]
      exact ⟨n, hadded, .inr (.inr rfl)⟩

theorem pass (hs : Settled passed (some m) s) (hadded : s.mailbox.added m = some n) (hn : passed n) :
    Settled passed none s := by
  refine ⟨hs.nodup, fun x hx ↦ ?_⟩
  obtain ⟨k, hk, hread | hpassed | hbut⟩ := hs.settled x hx
  · exact ⟨k, hk, .inl hread⟩
  · exact ⟨k, hk, .inr (.inl hpassed)⟩
  · cases hbut
    exact ⟨n, hadded, .inr (.inl hn)⟩

theorem unhanded (hs : Settled passed (some m) s) (hm : m ∉ s.handed) : Settled passed none s := by
  refine ⟨hs.nodup, fun x hx ↦ ?_⟩
  obtain ⟨k, hk, hread | hpassed | hbut⟩ := hs.settled x hx
  · exact ⟨k, hk, .inl hread⟩
  · exact ⟨k, hk, .inr (.inl hpassed)⟩
  · cases hbut
    exact absurd hx hm

theorem mark (hs : Settled passed (some m) s) : Settled passed none { s with mailbox := s.mailbox.read m } := by
  refine ⟨hs.nodup, fun x hx ↦ ?_⟩
  obtain ⟨k, hk, hsettled⟩ := hs.settled x hx
  refine ⟨k, hk, ?_⟩
  rcases hsettled with hread | hpassed | hbut
  · exact .inl fun hunread ↦ hread (List.mem_filter.mp hunread).1
  · exact .inr (.inl hpassed)
  · cases hbut
    exact .inl fun hunread ↦ of_decide_eq_true (List.mem_filter.mp hunread).2 rfl

end Settled

def Reads (op : MailOp) : Prop := ∀ s r, State.after s op r = s

theorem Settled.reading {op : MailOp} {r : mailSig.Resp op} (hs : Settled passed but s) (hreads : Reads op)
    (hr : settling op s r s') : Settled passed but s' ∧ Turn [] s s' := by
  obtain ⟨⟨M, hgrows, -, -, rfl⟩, -⟩ := hr
  rw [hreads]
  exact ⟨hs.grows hgrows, .grows hgrows⟩

theorem reading_must {α : Type} {p : Mail α} (hp : p.Calls Reads) (hs : Settled passed but s) :
    p.Must settling (fun _ s' ↦ Settled passed but s' ∧ Turn [] s s') s := by
  refine hp.must (I := fun s' ↦ Settled passed but s' ∧ Turn [] s s') (fun op t r t' hreads ht hr ↦ ?_) ⟨hs, .refl s⟩
  obtain ⟨ht', hturn⟩ := ht.1.reading hreads hr
  exact ⟨ht', ht.2.trans hturn⟩

section Round

variable {email : ParsedEmail}

/-- The message may be handed over now, and without a new cursor it must then be read. -/
structure Due (passed : ℕ → Prop) (m : Str) (s : State) : Prop where
  settled : Settled passed none s
  fresh : m ∉ s.handed
  added : ∃ n, s.mailbox.added m = some n ∧ (s.advanced = true → passed n)

theorem Due.turn (h : Due passed m s) (hother : m ∉ ids) (hs : Settled passed none s') (hturn : Turn ids s s') :
    Due passed m s' := by
  obtain ⟨n, hadded, hpassed⟩ := h.added
  refine ⟨hs, fun hm ↦ ?_, n, hturn.added m n hadded, fun hadvanced ↦ hpassed (hturn.advanced ▸ hadvanced)⟩
  exact (hturn.handed m hm).elim h.fresh hother

/-- After a part that may hand the message over: it is still to be read, or all is settled. -/
def Handed (passed : ℕ → Prop) (m : Str) (s : State) : Except Throwable Unit → State → Prop :=
  Prog.exits (fun _ s' ↦ Settled passed (some m) s' ∧ Turn [m] s s')
    fun _ s' ↦ Settled passed none s' ∧ Turn [m] s s'

theorem hand_must {message : Message} (hid : message.id = m) (hdue : Due passed m s) :
    (mailAttempt (mail (.hand message))).Must settling (Handed passed m s) s := by
  subst hid
  intro r _ h'
  obtain ⟨⟨M, hgrows, -, -, rfl⟩, hr⟩ := h'
  obtain ⟨n, hadded, hpassed⟩ := hdue.added
  have hs := (hdue.settled.grows hgrows).hand hdue.fresh (hgrows.added _ n hadded)
  have hturn : Turn [message.id] s { s with mailbox := M, handed := s.handed ++ [message.id] } :=
    ⟨rfl, rfl, rfl, hgrows.added, hgrows.read, fun _ ↦ List.mem_append_left _, fun _ ↦ List.mem_append.mp⟩
  cases r with
  | ok _ => exact ⟨hs, hturn⟩
  | error _ =>
    have hadvanced : s.advanced = true := hr.resolve_right fun h ↦ by cases h
    exact ⟨hs.pass (hgrows.added _ n hadded) (hpassed hadvanced), hturn⟩

theorem Handed.of_turn {o : Except Throwable Unit} (hturn : Turn [] s s') (h : Handed passed m s' o s'') :
    Handed passed m s o s'' := by
  cases o <;> exact ⟨h.1, (hturn.mono (by simp)).trans h.2⟩

theorem store_hand_must {κ ν : Type} {f : (mapSig κ ν).Hom EmailRouter.sig} (key : κ) (value : ν)
    {message : Message} (hid : message.id = m) (hdue : Due passed m s) :
    (((storeCapped key value).lift f).lift routerHom >>= fun _ ↦ mailAttempt (mail (.hand message))).Must settling
      (Handed passed m s) s := by
  have hcalls : (((storeCapped key value : Prog _ Throwable Unit).lift f).lift routerHom).Calls Reads :=
    Prog.calls_lift (fun _ _ _ ↦ rfl) _
  refine (Prog.must_bind _ _).mpr ((reading_must hcalls hdue.settled).mono fun o t ht ↦ ?_)
  cases o with
  | ok _ => exact (hand_must hid (hdue.turn List.not_mem_nil ht.1 ht.2)).mono fun _ _ ↦ .of_turn ht.2
  | error _ => exact ⟨ht.1, ht.2.mono (by simp)⟩

theorem processEmail_must (hdue : Due passed email.gmailId s) :
    (processEmail P email).Must settling (Handed passed email.gmailId s) s := by
  have skipped {t : State} (ht : Settled passed none t ∧ Turn [] s t) : Handed passed email.gmailId s (.ok ()) t :=
    ⟨ht.1.except, ht.2.mono (by simp)⟩
  unfold processEmail
  split
  · intro enabled t ht
    replace ht := hdue.settled.reading (fun _ _ ↦ rfl) ht
    cases enabled with
    | false => exact skipped ht
    | true =>
      cases hparse : parseGoogleVoiceEmail email with
      | none => exact skipped ht
      | some gvm =>
        intro now u hu
        replace hu := ht.1.reading (fun _ _ ↦ rfl) hu
        have hid := buildGVoiceMessage_id hparse now
        exact (store_hand_must _ _ hid ((hdue.turn List.not_mem_nil ht.1 ht.2).turn List.not_mem_nil hu.1 hu.2)).mono
          fun _ _ ↦ .of_turn (ht.2.trans hu.2)
  · intro enabled t ht
    replace ht := hdue.settled.reading (fun _ _ ↦ rfl) ht
    cases enabled with
    | false => exact skipped ht
    | true =>
      intro now u hu
      replace hu := ht.1.reading (fun _ _ ↦ rfl) hu
      exact (store_hand_must _ _ rfl ((hdue.turn List.not_mem_nil ht.1 ht.2).turn List.not_mem_nil hu.1 hu.2)).mono
        fun _ _ ↦ .of_turn (ht.2.trans hu.2)

theorem processAndMark_must (hdue : Due passed email.gmailId s) : (processAndMark P email).Must settling
    (fun _ s' ↦ Settled passed none s' ∧ Turn [email.gmailId] s s') s := by
  refine (Prog.must_bind _ _).mpr ((processEmail_must hdue).mono fun o t ht ↦ ?_)
  cases o with
  | error _ => exact ht
  | ok _ =>
    obtain ⟨ht, hturn⟩ := ht
    intro r _ h
    obtain ⟨⟨M, hgrows, -, -, rfl⟩, hr⟩ := h
    obtain ⟨n, hadded, hpassed⟩ := hdue.added
    have hleft : Settled passed (some email.gmailId) { t with mailbox := M } := ht.grows hgrows
    have hturn' : Turn [email.gmailId] s { t with mailbox := M } := hturn.trans (.grows hgrows)
    match r with
    | .ok true =>
      refine ⟨hleft.mark, hturn'.trans ⟨rfl, rfl, rfl, fun _ _ ↦ id, fun m _ hm ↦ ?_, fun _ ↦ id, fun _ ↦ .inl⟩⟩
      exact (List.mem_filter.mp hm).1
    | .ok false | .error _ =>
      have hsettled : Settled passed none { t with mailbox := M } := by
        rcases hr with hadvanced | hunhanded | hmarked
        · exact hleft.pass (hturn'.added _ n hadded) (hpassed (hturn.advanced ▸ hadvanced))
        · exact hleft.unhanded hunhanded
        · cases hmarked
      exact ⟨hsettled, hturn'⟩

/-- Of the messages in a response, one that has been handed over is read. -/
structure Waiting (passed : ℕ → Prop) (ids : List Str) (s : State) : Prop where
  nodup : ids.Nodup
  read : ∀ m ∈ ids, m ∈ s.handed → m ∉ s.mailbox.unread
  added : ∀ m ∈ ids, ∃ n, s.mailbox.added m = some n ∧ (s.advanced = true → passed n)

theorem Waiting.turn (h : Waiting passed ids s) (hother : ∀ m ∈ ids, m ∉ ids') (hturn : Turn ids' s s') :
    Waiting passed ids s' := by
  refine ⟨h.nodup, fun m hm hhanded hunread ↦ ?_, fun m hm ↦ ?_⟩
  · have hhanded' : m ∈ s.handed := (hturn.handed m hhanded).resolve_right (hother m hm)
    exact h.read m hm hhanded' (hturn.read m hhanded' hunread)
  · obtain ⟨n, hadded, hpassed⟩ := h.added m hm
    exact ⟨n, hturn.added m n hadded, fun hadvanced ↦ hpassed (hturn.advanced ▸ hadvanced)⟩

theorem Waiting.tail (h : Waiting passed (m :: ids) s) : (∀ x ∈ ids, x ∉ [m]) ∧ Waiting passed ids s := by
  obtain ⟨hm, hnodup⟩ := List.nodup_cons.mp h.nodup
  refine ⟨fun x hx hxm ↦ hm (List.mem_singleton.mp hxm ▸ hx), hnodup, fun x hx ↦ ?_, fun x hx ↦ ?_⟩
  · exact h.read x (List.mem_cons_of_mem _ hx)
  · exact h.added x (List.mem_cons_of_mem _ hx)

/-- A round of a loop, or the whole loop. Its exceptions end in it. -/
def Rounds (passed : ℕ → Prop) (ids : List Str) (s : State) : Except Throwable Unit → State → Prop :=
  Prog.exits (fun _ s' ↦ Settled passed none s' ∧ Turn ids s s') fun _ _ ↦ False

theorem processNew_must {ownEmail : Str} (hs : Settled passed none s) (hread : m ∈ s.handed → m ∉ s.mailbox.unread)
    (hadded : ∃ n, s.mailbox.added m = some n ∧ (s.advanced = true → passed n)) :
    (processNew P ownEmail m).Must settling (Rounds passed [m] s) s := by
  refine (Prog.must_tryCatch _ _).mpr ?_
  intro r _ h
  obtain ⟨⟨M, hgrows, hserves, -, rfl⟩, -⟩ := h
  have hs' : Settled passed none { s with mailbox := M } := hs.grows hgrows
  have hturn : Turn [m] s { s with mailbox := M } := .grows hgrows
  match r with
  | .error _ => exact ⟨hs', hturn⟩
  | .ok none => exact ⟨hs', hturn⟩
  | .ok (some raw) =>
    change (if (!(raw.parsed P m).isUnread) = true then Prog.ret ()
      else if P.equalsIgnoreCase (raw.parsed P m).fromEmail ownEmail = true then Prog.ret ()
      else processAndMark P (raw.parsed P m)).Must _ _ _
    split
    · exact ⟨hs', hturn⟩
    · rename_i hunread
      split
      · exact ⟨hs', hturn⟩
      · have hM : m ∈ M.unread := hserves (by rwa [Bool.not_eq_true, Bool.not_eq_false'] at hunread)
        obtain ⟨n, hadded, hpassed⟩ := hadded
        have hdue : Due passed m { s with mailbox := M } :=
          ⟨hs', fun hm ↦ hread hm (hgrows.read m hm hM), n, hgrows.added m n hadded, hpassed⟩
        refine (@processAndMark_must P _ _ (raw.parsed P m) hdue).mono fun o t ht ↦ ?_
        cases o <;> exact ⟨ht.1, hturn.trans ht.2⟩

theorem Rounds.of_turn {o : Except Throwable Unit} (hids : ∀ m ∈ ids, m ∈ ids') (hids' : ∀ m ∈ ids'', m ∈ ids')
    (hturn : Turn ids s s') (h : Rounds passed ids'' s' o s'') : Rounds passed ids' s o s'' := by
  cases o with
  | error _ => exact h
  | ok _ => exact ⟨h.1, (hturn.mono hids).trans (h.2.mono hids')⟩

theorem processEach_must {ownEmail : Str} (hs : Settled passed none s) (hids : Waiting passed ids s) :
    (processEach P ownEmail ids).Must settling (Rounds passed ids s) s := by
  induction ids generalizing s with
  | nil => exact ⟨hs, .refl s⟩
  | cons m ids ih =>
    refine (Prog.must_bind _ _).mpr ((processNew_must hs (hids.read m List.mem_cons_self)
      (hids.added m List.mem_cons_self)).mono fun o t ht ↦ ?_)
    cases o with
    | error _ => exact ht.elim
    | ok _ =>
      obtain ⟨ht, hturn⟩ := ht
      obtain ⟨hother, htail⟩ := hids.tail
      exact (ih ht (htail.turn hother hturn)).mono fun _ _ ↦
        .of_turn (by simp) (fun _ ↦ List.mem_cons_of_mem _) hturn

theorem processNewEmails_must (hs : Settled passed none s) (hids : Waiting passed ids s) :
    (processNewEmails P ids).Must settling (Rounds passed ids s) s := by
  unfold processNewEmails
  split
  · exact ⟨hs, .refl s⟩
  · intro own t ht
    obtain ⟨ht, hturn⟩ := hs.reading (fun _ _ ↦ rfl) ht
    exact (processEach_must ht (hids.turn (fun _ _ ↦ List.not_mem_nil) hturn)).mono fun _ _ ↦
      .of_turn (by simp) (fun _ ↦ id) hturn

theorem processListed_must {ownEmail : Str} (hdue : Due passed email.gmailId s) :
    (processListed P ownEmail email).Must settling (Rounds passed [email.gmailId] s) s := by
  unfold processListed
  split
  · exact ⟨hdue.settled, .refl s⟩
  · refine (Prog.must_tryCatch _ _).mpr ((processAndMark_must hdue).mono fun o t ht ↦ ?_)
    cases o <;> exact ht

theorem processEachListed_must {ownEmail : Str} {emails : List ParsedEmail} (hs : Settled passed none s)
    (hnodup : (emails.map ParsedEmail.gmailId).Nodup) (hdue : ∀ email ∈ emails, Due passed email.gmailId s) :
    (processEachListed P ownEmail emails).Must settling (Rounds passed (emails.map ParsedEmail.gmailId) s) s := by
  induction emails generalizing s with
  | nil => exact ⟨hs, .refl s⟩
  | cons email emails ih =>
    refine (Prog.must_bind _ _).mpr ((processListed_must (hdue email List.mem_cons_self)).mono fun o t ht ↦ ?_)
    cases o with
    | error _ => exact ht.elim
    | ok _ =>
      obtain ⟨ht, hturn⟩ := ht
      obtain ⟨hnew, hnodup⟩ := List.nodup_cons.mp hnodup
      refine (ih ht hnodup fun e he ↦ ?_).mono fun _ _ ↦ .of_turn (by simp) (fun _ ↦ List.mem_cons_of_mem _) hturn
      refine (hdue e (List.mem_cons_of_mem _ he)).turn (fun hid ↦ hnew ?_) ht hturn
      exact List.mem_singleton.mp hid ▸ List.mem_map_of_mem he

end Round

/-! The cursor -/

/-- The cursor is past the history id. -/
def Past (historyId : Option Str) (n : ℕ) : Prop := ∃ k, historyId = some (cursor k) ∧ n ≤ k

structure Inv (s : State) : Prop where
  settled : Settled (Past s.prefs) none s
  cursor : ∀ historyId, s.prefs = some historyId → ∃ k, historyId = cursor k

theorem Inv.turn (h : Inv s) (hs : Settled (Past s.prefs) none s') (hturn : Turn ids s s') : Inv s' := by
  obtain ⟨-, hcursor⟩ := h
  rw [← hturn.prefs] at hs hcursor
  exact ⟨hs, hcursor⟩

theorem Inv.reading (h : Inv s) {op : MailOp} {r : mailSig.Resp op} (hreads : Reads op)
    (hr : settling op s r s') : Inv s' ∧ Turn [] s s' :=
  ⟨h.turn (h.settled.reading hreads hr).1 (h.settled.reading hreads hr).2, (h.settled.reading hreads hr).2⟩

theorem saveHistoryId_must {k : ℕ} (hcached : s.cached = s.prefs) (hs : Settled (Past (some (cursor k))) none s) :
    (saveHistoryId (cursor k)).Must settling (fun _ ↦ Inv) s := by
  intro r _ h
  obtain ⟨⟨M, hgrows, -, hr, rfl⟩, -⟩ := h
  obtain rfl : r = s.cached := hr
  dsimp only [Prog.bind]
  split
  · rename_i hsame
    rw [hcached] at hsame
    have hs' := hs.grows hgrows
    rw [← hsame] at hs'
    exact ⟨hs', fun historyId hid ↦ ⟨k, Option.some.inj (hid.symm.trans hsame)⟩⟩
  · rintro _ _ ⟨⟨M', hgrows', -, -, rfl⟩, -⟩ _ _ ⟨⟨M'', hgrows'', -, -, rfl⟩, -⟩
    have hs' := ((hs.grows hgrows).grows hgrows').grows hgrows''
    exact ⟨⟨hs'.nodup, hs'.settled⟩, fun historyId hid ↦ ⟨k, (Option.some.inj hid).symm⟩⟩

theorem loadHistoryId_must (h : Inv s) : loadHistoryId.Must settling
    (Prog.exits (fun r t ↦ r = t.prefs ∧ t.cached = t.prefs ∧ t.advanced = s.advanced ∧ Inv t) fun _ _ ↦ False) s := by
  rintro r _ ⟨⟨M, hgrows, -, hr, rfl⟩, -⟩ _ _ ⟨⟨M', hgrows', -, -, rfl⟩, -⟩ r' _ ⟨⟨M'', hgrows'', -, hr', rfl⟩, -⟩
  obtain rfl : r = s.prefs := hr
  obtain rfl : r' = s.prefs := hr'
  have hs := ((h.settled.grows hgrows).grows hgrows').grows hgrows''
  exact ⟨rfl, rfl, rfl, ⟨hs.nodup, hs.settled⟩, h.cursor⟩

theorem primeHistoryId_must (h : Inv s) : primeHistoryId.Must settling (fun _ ↦ Inv) s := by
  refine (Prog.must_bind _ _).mpr ((loadHistoryId_must h).mono fun o t ht ↦ ?_)
  cases o with
  | error _ => exact ht.elim
  | ok _ =>
    obtain ⟨-, hcached, -, ht⟩ := ht
    intro cached _ h'
    obtain ⟨⟨M, hgrows, -, hr, rfl⟩, -⟩ := h'
    have hM : Inv { t with mailbox := M } := ⟨ht.settled.grows hgrows, ht.cursor⟩
    cases cached with
    | some _ => exact hM
    | none =>
      intro token u hread
      obtain ⟨hu, hturn⟩ := hM.reading (fun _ _ ↦ rfl) hread
      match token with
      | .error _ => exact hu
      | .ok none => exact hu
      | .ok (some token) =>
        intro answer _ h'
        obtain ⟨⟨M', hgrows', hserves, -, rfl⟩, -⟩ := h'
        have hM' : Inv { u with mailbox := M' } := ⟨hu.settled.grows hgrows', hu.cursor⟩
        match answer with
        | .failed => exact hM'
        | .code _ => exact hM'
        | .ok none => exact hM'
        | .ok (some historyId) =>
          obtain rfl : historyId = cursor M'.latest := hserves
          have hsame : u.cached = u.prefs := (hturn.cached.trans hcached).trans hturn.prefs.symm
          have hpast : Settled (Past (some (cursor M'.latest))) none { u with mailbox := M' } :=
            hM'.settled.all fun n hn ↦ ⟨M'.latest, rfl, hn⟩
          change (saveHistoryId (cursor M'.latest) >>= fun _ ↦ Prog.ret PrimeResult.primedFromApi).Must settling
            (fun _ ↦ Inv) { u with mailbox := M' }
          have hsaved := @saveHistoryId_must { u with mailbox := M' } _ hsame hpast
          refine (Prog.must_bind _ _).mpr (hsaved.mono fun o v hv ↦ ?_)
          cases o <;> exact hv

theorem nodup_eraseDups (ids : List Str) : ids.eraseDups.Nodup := by
  induction hlength : ids.length using Nat.strong_induction_on generalizing ids with
  | _ length ih =>
    cases ids with
    | nil => simp
    | cons m ids =>
      rw [List.eraseDups_cons, List.nodup_cons]
      refine ⟨by simp, ih _ ?_ _ rfl⟩
      have hle := List.length_filter_le (fun x ↦ !x == m) ids
      rw [List.length_cons] at hlength
      omega

theorem message_of_newIds {page : HistoryPage} (hm : m ∈ newIds page) :
    ∃ message ∈ (page.history.getD []).flatMap HistoryEntry.added, message.id = some m := by
  rw [newIds, List.mem_eraseDups, List.mem_filterMap] at hm
  obtain ⟨message, hmessage, hid⟩ := hm
  refine ⟨message, hmessage, ?_⟩
  unfold unreadInboxId at hid
  split at hid
  · exact hid
  · cases hid

/-- The messages of a page may be handed over, and the new cursor is past them. -/
theorem page_waiting {startHistoryId token : Str} {page : HistoryPage} (h : Inv s)
    (hprefs : s.prefs = some startHistoryId) (hadvanced : s.advanced = page.historyId.isSome)
    (hserves : s.mailbox.Serves (.historyList token startHistoryId) (.ok page)) :
    ∃ k, page.historyId.getD startHistoryId = cursor k ∧ Settled (Past (some (cursor k))) none s ∧
      Waiting (Past (some (cursor k))) (newIds page) s := by
  obtain ⟨hlatest, hadded⟩ := hserves
  have hread (m : Str) (hm : m ∈ newIds page) (hhanded : m ∈ s.handed) : m ∉ s.mailbox.unread := by
    obtain ⟨message, hmessage, hid⟩ := message_of_newIds hm
    obtain ⟨n, hn, hread | ⟨k, hk, hle⟩ | hbut⟩ := h.settled.settled m hhanded
    · exact hread
    · obtain ⟨n', hn', hlt⟩ := hadded k (Option.some.inj (hprefs.symm.trans hk)) message hmessage m hid
      rw [hn] at hn'
      cases hn'
      omega
    · cases hbut
  have hnew (m : Str) (hm : m ∈ newIds page) : ∃ n, s.mailbox.added m = some n := by
    obtain ⟨start, hstart⟩ := h.cursor startHistoryId hprefs
    obtain ⟨message, hmessage, hid⟩ := message_of_newIds hm
    obtain ⟨n, hn, -⟩ := hadded start hstart message hmessage m hid
    exact ⟨n, hn⟩
  cases hpage : page.historyId with
  | some historyId =>
    have hpast (n : ℕ) (hn : n ≤ s.mailbox.latest) : Past (some (cursor s.mailbox.latest)) n := ⟨_, rfl, hn⟩
    refine ⟨s.mailbox.latest, hlatest historyId hpage, h.settled.all hpast, nodup_eraseDups _, hread, fun m hm ↦ ?_⟩
    obtain ⟨n, hn⟩ := hnew m hm
    exact ⟨n, hn, fun _ ↦ hpast n (s.mailbox.le_latest m n hn)⟩
  | none =>
    obtain ⟨start, hstart⟩ := h.cursor startHistoryId hprefs
    refine ⟨start, hstart, ?_, nodup_eraseDups _, hread, fun m hm ↦ ?_⟩
    · rw [← hstart, ← hprefs]
      exact h.settled
    · obtain ⟨n, hn⟩ := hnew m hm
      rw [hpage] at hadvanced
      exact ⟨n, hn, fun htrue ↦ by rw [htrue] at hadvanced; cases hadvanced⟩

theorem processFromHistory_must {startHistoryId : Str} (h : Inv s) (hprefs : s.prefs = some startHistoryId)
    (hcached : s.cached = s.prefs) : (processFromHistory P startHistoryId).Must settling (fun _ ↦ Inv) s := by
  have prime {t : State} (ht : Inv t) :
      (primeHistoryId >>= fun _ ↦ Prog.ret ()).Must settling (fun _ ↦ Inv) t := by
    refine (Prog.must_bind _ _).mpr ((primeHistoryId_must ht).mono fun o u hu ↦ ?_)
    cases o <;> exact hu
  intro token t hread
  obtain ⟨ht, hturn⟩ := h.reading (fun _ _ ↦ rfl) hread
  rcases token with _ | _ | token
  · exact ht
  · exact prime ht
  · intro answer _ h'
    obtain ⟨⟨M, hgrows, hserves, -, rfl⟩, -⟩ := h'
    cases answer with
    | code _ => exact prime ⟨ht.settled.grows hgrows, ht.cursor⟩
    | failed => exact prime ⟨ht.settled.grows hgrows, ht.cursor⟩
    | ok page =>
      have hs := ht.settled.grows hgrows
      have hpage : Inv { t with mailbox := M, advanced := page.historyId.isSome } := ⟨⟨hs.nodup, hs.settled⟩, ht.cursor⟩
      change (if page.historyId = none ∧ newIds page = [] then primeHistoryId >>= fun _ ↦ Prog.ret ()
        else processNewEmails P (newIds page) >>= fun _ ↦ saveHistoryId (page.historyId.getD startHistoryId)).Must
          settling (fun _ ↦ Inv) { t with mailbox := M, advanced := page.historyId.isSome }
      split
      · exact prime hpage
      · obtain ⟨k, hk, hsettled, hids⟩ := page_waiting hpage (hturn.prefs.trans hprefs) rfl hserves
        refine (Prog.must_bind _ _).mpr ((processNewEmails_must hsettled hids).mono fun o u hu ↦ ?_)
        cases o with
        | error _ => exact hu.elim
        | ok _ =>
          obtain ⟨hu, hturn'⟩ := hu
          have hsame : t.cached = t.prefs := (hturn.cached.trans hcached).trans hturn.prefs.symm
          change (saveHistoryId (page.historyId.getD startHistoryId)).Must settling (fun _ ↦ Inv) u
          rw [hk]
          exact saveHistoryId_must ((hturn'.cached.trans hsame).trans hturn'.prefs.symm) hu

theorem processUnread_must (h : Inv s) (hprefs : s.prefs = none) (hadvanced : s.advanced = false) :
    (processUnread P).Must settling (fun _ ↦ Inv) s := by
  intro listed _ h'
  obtain ⟨⟨M, hgrows, hserves, -, rfl⟩, -⟩ := h'
  have hM : Inv { s with mailbox := M } := ⟨h.settled.grows hgrows, h.cursor⟩
  match listed with
  | .error _ => exact hM
  | .ok [] => exact hM
  | .ok (email :: emails) =>
    intro own t hread
    obtain ⟨ht, hturn⟩ := hM.reading (fun _ _ ↦ rfl) hread
    obtain ⟨hnodup, hunread⟩ := hserves
    refine (processEachListed_must ht.settled hnodup fun e he ↦ ?_).mono fun o u hu ↦ ?_
    · obtain ⟨n, hn⟩ := Option.isSome_iff_exists.mp (M.unread_added _ (hunread e he))
      have hdue : Due (Past t.prefs) e.gmailId { s with mailbox := M } := by
        refine ⟨hturn.prefs ▸ hM.settled, fun hhanded ↦ ?_, n, hn, fun htrue ↦ ?_⟩
        · obtain ⟨_, -, hread | ⟨k, hk, -⟩ | hbut⟩ := hM.settled.settled _ hhanded
          · exact hread (hunread e he)
          · cases hprefs.symm.trans hk
          · cases hbut
        · cases hadvanced.symm.trans htrue
      exact hdue.turn List.not_mem_nil ht.settled hturn
    · cases o with
      | error _ => exact hu.elim
      | ok _ => exact ht.turn hu.1 hu.2

theorem fetch_must (h : Inv s) (hadvanced : s.advanced = false) :
    (fetch P).Must settling (fun _ ↦ Inv) s := by
  refine (Prog.must_bind _ _).mpr ((loadHistoryId_must h).mono fun o t ht ↦ ?_)
  cases o with
  | error _ => exact ht.elim
  | ok stored =>
    obtain ⟨hstored, hcached, hsame, ht⟩ := ht
    cases stored with
    | some startHistoryId => exact processFromHistory_must ht hstored.symm hcached
    | none => exact processUnread_must ht hstored.symm (hsame.trans hadvanced)

/-- Whatever fails, in every sequence of events that keeps to the condition no message is handed
over twice. -/
theorem dispatched_once (s s' : State) (h : List (Done Event Throwable Unit)) (hhanded : s.handed = [])
    (hprefs : ∀ historyId, s.prefs = some historyId → ∃ k, historyId = cursor k)
    (hs : Serial (step P settling) s h s') : s'.handed.Nodup := by
  have hinit : Inv s := by
    refine ⟨⟨?_, fun m hm ↦ ?_⟩, hprefs⟩
    · rw [hhanded]
      exact List.nodup_nil
    · rw [hhanded] at hm
      cases hm
  refine (hs.invariant (I := fun _ ↦ Inv) hinit fun _ t x o t' ht hstep ↦ ?_).settled.nodup
  have hstart : Inv { t with advanced := false } := ⟨⟨ht.settled.nodup, ht.settled.settled⟩, ht.cursor⟩
  have hmust : (x.run P).Must settling (fun _ ↦ Inv) { t with advanced := false } := by
    match x with
    | .notification true => exact fetch_must hstart rfl
    | .notification false => exact hstart
    | .primeHistoryId =>
      refine (Prog.must_bind _ _).mpr ((primeHistoryId_must hstart).mono fun o u hu ↦ ?_)
      cases o <;> exact hu
  exact hmust.of_runs hstep

/-! A mailbox with one unread message, and no cursor yet -/

def inbox : Mailbox where
  added m := if m = "m1".toList then some 1 else none
  latest := 1
  unread := ["m1".toList]
  le_latest m n hn := by
    split at hn <;> cases hn
    exact le_rfl
  unread_added m hm := by
    rw [List.mem_singleton.mp hm, if_pos rfl]
    rfl

def State.init : State := ⟨inbox, none, none, [], false⟩

def email : ParsedEmail := HistoryCursor.hello.parsed asciiPlatform "m1"

/-- The answers of a world in which only marking a message as read may fail. -/
def answer (marked : Bool) (s : State) : (op : MailOp) → mailSig.Resp op
  | .prefsGet => s.prefs
  | .cachedGet => s.cached
  | .listUnread _ => (.ok (if email.gmailId ∈ s.mailbox.unread then [email] else []) : Except Throwable _)
  | .markAsRead _ => (.ok marked : Except Throwable Bool)
  | op => quietMail op

def sem (marked : Bool) (op : MailOp) (s : State) : mailSig.Resp op × State :=
  (answer marked s op, s.after op (answer marked s op))

theorem reacts_sem (marked : Bool) (op : MailOp) (s : State) :
    reacts op s (sem marked op s).1 (sem marked op s).2 := by
  have hserves : s.mailbox.Serves op (answer marked s op) := by
    cases op with
    | listUnread =>
      simp only [answer, Mailbox.Serves]
      split <;> simp [*]
    | _ => trivial
  refine ⟨s.mailbox, ⟨fun _ _ ↦ id, le_rfl, fun _ _ ↦ id⟩, hserves, ?_, rfl⟩
  cases op <;> trivial

theorem settling_sem (op : MailOp) (s : State) : settling op s (sem true op s).1 (sem true op s).2 := by
  refine ⟨reacts_sem true op s, ?_⟩
  cases op with
  | hand => exact .inr rfl
  | markAsRead => exact .inr (.inr rfl)
  | _ => trivial

def notified (marked : Bool) : ℕ → State
  | 0 => .init
  | n + 1 => (((Event.notification true).run asciiPlatform).exec (sem marked)
      { notified marked n with advanced := false }).2

theorem marked_dispatched_once : ∃ h s', Serial (step asciiPlatform settling) .init h s' ∧
    h.map Prod.fst = [.notification true, .notification true] ∧ s'.handed = ["m1".toList] ∧ s'.handed.Nodup := by
  have hrun (n : ℕ) := Prog.runs_exec (C := fun _ ↦ True) (fun op s _ ↦ settling_sem op s)
    ((Event.notification true).run asciiPlatform) { notified true n with advanced := false } fun _ _ ↦ trivial
  have hstart : Serial (step asciiPlatform settling) .init [] .init := .init
  have hs := (hstart.next (hrun 0)).next (hrun 1)
  refine ⟨_, notified true 2, hs, rfl, by decide +kernel, dispatched_once _ _ _ rfl (fun _ h ↦ ?_) hs⟩
  cases h

/-- A message that could not be marked as read is handed over by the next notification again. -/
theorem dispatched_twice : ∃ h s', Serial (step asciiPlatform reacts) .init h s' ∧
    h.map Prod.fst = [.notification true, .notification true] ∧ s'.handed = ["m1".toList, "m1".toList] ∧
      ¬s'.handed.Nodup := by
  have hrun (n : ℕ) := Prog.runs_exec (C := fun _ ↦ True) (fun op s _ ↦ reacts_sem false op s)
    ((Event.notification true).run asciiPlatform) { notified false n with advanced := false } fun _ _ ↦ trivial
  have hstart : Serial (step asciiPlatform reacts) .init [] .init := .init
  have hs := (hstart.next (hrun 0)).next (hrun 1)
  have hhanded : (notified false 2).handed = ["m1".toList, "m1".toList] := by decide +kernel
  refine ⟨_, notified false 2, hs, rfl, hhanded, ?_⟩
  rw [hhanded]
  decide

end Aigentik.Deliveries
