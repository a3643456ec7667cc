import Aigentik.Effects.History
import Aigentik.Email.EmailMonitor

namespace Aigentik.HistoryCursor

open Strings Effects GmailApiClient GmailHistoryClient EmailRouter EmailMonitor

structure Record where
  historyId : ℕ
  added : List HistoryMessage

/-- The history of a mailbox, up to its latest id. -/
structure Mailbox where
  records : List Record
  latest : ℕ
  le_latest : ∀ r ∈ records, r.historyId ≤ latest

namespace Mailbox

variable (M : Mailbox) (start : ℕ)

def cursor (historyId : ℕ) : Str := Nat.toDigits 10 historyId

/-- The records after a cursor that concern the inbox. -/
def after : List Record :=
  M.records.filter fun r ↦
    start < r.historyId && r.added.any fun message ↦ hasLabel message.labelIds "INBOX"

/-- The first page of `history.list`. -/
def page : HistoryPage where
  historyId := some (cursor M.latest)
  history := some (((M.after start).take 20).map fun r ↦ ⟨some (r.added.map some)⟩)

def OnePage : Prop := (M.after start).length ≤ 20

/-- A successful `history.list` answers with the first page. -/
def Serves : (op : MailOp) → mailSig.Resp op → Prop
  | .historyList _ startHistoryId, .ok page => startHistoryId = cursor start → page = M.page start
  | _, _ => True

variable {M start}

theorem mem_newIds {r : Record} {message : HistoryMessage} {msgId : Str} (hone : M.OnePage start)
    (hr : r ∈ M.records) (hlt : start < r.historyId) (hm : message ∈ r.added)
    (hinbox : hasLabel message.labelIds "INBOX" = true)
    (hunread : hasLabel message.labelIds "UNREAD" = true) (hid : message.id = some msgId) :
    msgId ∈ newIds (M.page start) := by
  have hafter : r ∈ M.after start := by
    refine List.mem_filter.mpr ⟨hr, ?_⟩
    simp only [Bool.and_eq_true, decide_eq_true_eq, List.any_eq_true]
    exact ⟨hlt, message, hm, hinbox⟩
  have htake : (M.after start).take 20 = M.after start := List.take_of_length_le hone
  rw [newIds, List.mem_eraseDups, List.mem_filterMap]
  refine ⟨message, List.mem_flatMap.mpr ⟨⟨some (r.added.map some)⟩, ?_, ?_⟩, ?_⟩
  · simp only [page, htake, Option.getD_some]
    exact List.mem_map_of_mem hafter
  · simpa [HistoryEntry.added] using hm
  · rw [unreadInboxId, hinbox, hunread]
    exact hid

end Mailbox

variable (P : Platform)

/-- What `processEmail` has done with an e-mail, by its calls: a disabled channel,
a Google Voice mail that does not parse, or a message for the engine. -/
def Dispatched (email : ParsedEmail) (es : List (Event mailSig)) : Prop :=
  (isGoogleVoiceText email.subject = true ∧ ⟨.channelIsEnabled .gvoice, false⟩ ∈ es) ∨
  (isGoogleVoiceText email.subject = false ∧ ⟨.channelIsEnabled .email, false⟩ ∈ es) ∨
  (isGoogleVoiceText email.subject = true ∧ parseGoogleVoiceEmail email = none) ∨
  ∃ message answer, ⟨.hand message, answer⟩ ∈ es ∧ message.id = email.gmailId

/-- What has become of a listed message: it could not be fetched, it was read
already, it is the owner's own, or it was dispatched. -/
def Outcome (ownEmail msgId : Str) (answer : Except Throwable (Option RawEmail))
    (es : List (Event mailSig)) : Prop :=
  match answer with
  | .error _ | .ok none => True
  | .ok (some raw) =>
    let email := raw.parsed P msgId
    email.isUnread = false ∨ P.equalsIgnoreCase email.fromEmail ownEmail = true ∨ Dispatched email es

/-- The calls so far contain a fetch of the message and what followed. -/
def Settled (msgId : Str) (h : List (Event mailSig)) : Prop :=
  ∃ ownEmail answer pre es post, h = pre ++ ⟨.getMessage msgId, answer⟩ :: es ++ post ∧
    ⟨.getSignedInEmail, ownEmail⟩ ∈ pre ∧ Outcome P (ownEmail.getD []) msgId answer es

variable {P}

theorem Dispatched.append {email : ParsedEmail} {es es' : List (Event mailSig)}
    (h : Dispatched email es) : Dispatched email (es ++ es') := by
  rcases h with h | h | h | ⟨message, answer, hmem, hid⟩
  · exact .inl ⟨h.1, List.mem_append_left _ h.2⟩
  · exact .inr (.inl ⟨h.1, List.mem_append_left _ h.2⟩)
  · exact .inr (.inr (.inl h))
  · exact .inr (.inr (.inr ⟨message, answer, List.mem_append_left _ hmem, hid⟩))

theorem Settled.append {msgId : Str} {h h' : List (Event mailSig)} (hs : Settled P msgId h) :
    Settled P msgId (h ++ h') := by
  obtain ⟨ownEmail, answer, pre, es, post, rfl, hown, hout⟩ := hs
  exact ⟨ownEmail, answer, pre, es, post ++ h', by simp, hown, hout⟩

/-- Every call but the one that saves the cursor. -/
def KeepsCursor : MailOp → Prop
  | .prefsPut _ => False
  | _ => True

section Loop

variable {allow : List (Event mailSig) → MailOp → Prop}
  {may : List (Event mailSig) → (op : MailOp) → mailSig.Resp op → Prop}
  (hallow : ∀ g op, KeepsCursor op → allow g op)

include hallow

theorem store_wp {κ ν : Type} {f : (mapSig κ ν).Hom EmailRouter.sig} (key : κ) (value : ν)
    (g : List (Event mailSig)) :
    (((storeCapped key value).lift f).lift routerHom).wp (.history allow may)
      (Prog.exits (fun _ g' ↦ g <+: g') fun (_ : Throwable) _ ↦ False) g := by
  have hcalls : (((storeCapped key value : Prog _ Throwable Unit).lift f).lift routerHom).Calls
      KeepsCursor := Prog.calls_lift (fun _ ↦ trivial) _
  refine hcalls.wp_total (storeCapped_total key value).lift.lift (fun g' op hpre hop ↦ ?_) List.prefix_rfl
  exact ⟨hallow g' op hop, fun _ _ ↦ hpre.trans (List.prefix_append g' _)⟩

theorem hand_wp {email : ParsedEmail} {message : Message} (hid : message.id = email.gmailId)
    {g g' : List (Event mailSig)} (hpre : g <+: g') :
    (mailAttempt (mail (.hand message))).wp (.history allow may)
      (fun _ g'' ↦ ∃ es, g'' = g ++ es ∧ Dispatched email es) g' := by
  obtain ⟨es, rfl⟩ := hpre
  refine ⟨hallow _ _ trivial, fun answer _ ↦ ?_⟩
  have hmem : (⟨.hand message, answer⟩ : Event mailSig) ∈ es ++ [⟨.hand message, answer⟩] := by simp
  have hout : ∃ es', g ++ es ++ [⟨.hand message, answer⟩] = g ++ es' ∧ Dispatched email es' :=
    ⟨_, List.append_assoc .., .inr (.inr (.inr ⟨message, answer, hmem, hid⟩))⟩
  cases answer <;> exact hout

theorem store_hand_wp {κ ν : Type} {f : (mapSig κ ν).Hom EmailRouter.sig} (key : κ) (value : ν)
    {email : ParsedEmail} {message : Message} (hid : message.id = email.gmailId)
    {g g' : List (Event mailSig)} (hpre : g <+: g') :
    (((storeCapped key value).lift f).lift routerHom >>= fun _ ↦
      mailAttempt (mail (.hand message))).wp (.history allow may)
      (fun _ g'' ↦ ∃ es, g'' = g ++ es ∧ Dispatched email es) g' := by
  refine (Prog.wp_bind _ _).mpr (Prog.wp_mono (store_wp hallow key value g') fun o g'' ho ↦ ?_)
  cases o with
  | ok _ => exact hand_wp hallow hid (hpre.trans ho)
  | error _ => exact ho.elim

theorem processEmail_wp (email : ParsedEmail) (g : List (Event mailSig)) :
    (processEmail P email).wp (.history allow may)
      (fun _ g' ↦ ∃ es, g' = g ++ es ∧ Dispatched email es) g := by
  have hpre (e e' : Event mailSig) : g <+: g ++ [e] ++ [e'] :=
    (List.prefix_append g _).trans (List.prefix_append _ _)
  unfold processEmail
  split
  · rename_i hsubject
    refine ⟨hallow _ _ trivial, fun enabled _ ↦ ?_⟩
    cases enabled with
    | false => exact ⟨_, rfl, .inl ⟨hsubject, by simp⟩⟩
    | true =>
      cases hparse : parseGoogleVoiceEmail email with
      | none => exact ⟨_, rfl, .inr (.inr (.inl ⟨hsubject, hparse⟩))⟩
      | some gvm =>
        exact ⟨hallow _ _ trivial, fun now _ ↦ store_hand_wp hallow _ _ (buildGVoiceMessage_id hparse now) (hpre _ _)⟩
  · rename_i hsubject
    rw [Bool.not_eq_true] at hsubject
    refine ⟨hallow _ _ trivial, fun enabled _ ↦ ?_⟩
    cases enabled with
    | false => exact ⟨_, rfl, .inr (.inl ⟨hsubject, by simp⟩)⟩
    | true => exact ⟨hallow _ _ trivial, fun now _ ↦ store_hand_wp hallow _ _ rfl (hpre _ _)⟩

theorem processAndMark_wp (email : ParsedEmail) (g : List (Event mailSig)) :
    (processAndMark P email).wp (.history allow may)
      (fun _ g' ↦ ∃ es, g' = g ++ es ∧ Dispatched email es) g := by
  refine (Prog.wp_bind _ _).mpr (Prog.wp_mono (processEmail_wp hallow email g) fun o g' hout ↦ ?_)
  cases o with
  | error e => exact hout
  | ok _ =>
    obtain ⟨es, rfl, hes⟩ := hout
    refine ⟨hallow _ _ trivial, fun answer _ ↦ ?_⟩
    have hout : ∃ es', g ++ es ++ [⟨.markAsRead email.gmailId, answer⟩] = g ++ es' ∧
        Dispatched email es' := ⟨_, List.append_assoc .., hes.append⟩
    cases answer <;> exact hout

theorem processNew_wp (ownEmail msgId : Str) (g : List (Event mailSig)) :
    (processNew P ownEmail msgId).wp (.history allow may)
      (Prog.exits (fun _ g' ↦ ∃ answer es, g' = g ++ ⟨.getMessage msgId, answer⟩ :: es ∧
        Outcome P ownEmail msgId answer es) fun _ _ ↦ False) g := by
  refine (Prog.wp_tryCatch _ _).mpr ⟨hallow _ _ trivial, fun answer _ ↦ ?_⟩
  match answer with
  | .error e => exact ⟨_, [], rfl, trivial⟩
  | .ok none => exact ⟨_, [], rfl, trivial⟩
  | .ok (some raw) =>
    change (if (!(raw.parsed P msgId).isUnread) = true then Prog.ret ()
      else if P.equalsIgnoreCase (raw.parsed P msgId).fromEmail ownEmail = true then Prog.ret ()
      else processAndMark P (raw.parsed P msgId)).wp _ _ _
    split
    · rename_i hread
      exact ⟨_, [], rfl, .inl (by simpa using hread)⟩
    · split
      · rename_i hown
        exact ⟨_, [], rfl, .inr (.inl hown)⟩
      · refine Prog.wp_mono (processAndMark_wp hallow (raw.parsed P msgId) _) fun o g' hout ↦ ?_
        obtain ⟨es, rfl, hes⟩ := hout
        have hsettled : ∃ answer' es', g ++ [⟨.getMessage msgId, .ok (some raw)⟩] ++ es =
            g ++ ⟨.getMessage msgId, answer'⟩ :: es' ∧ Outcome P ownEmail msgId answer' es' :=
          ⟨.ok (some raw), es, by simp, .inr (.inr hes)⟩
        cases o <;> exact hsettled

theorem processEach_wp {own : Option Str} (msgIds : List Str) {g : List (Event mailSig)}
    (hown : ⟨.getSignedInEmail, own⟩ ∈ g) :
    (processEach P (own.getD []) msgIds).wp (.history allow may)
      (Prog.exits (fun _ g' ↦ g <+: g' ∧ ∀ msgId ∈ msgIds, Settled P msgId g') fun _ _ ↦ False) g := by
  induction msgIds generalizing g with
  | nil => exact ⟨List.prefix_rfl, by simp⟩
  | cons msgId rest ih =>
    refine (Prog.wp_bind _ _).mpr (Prog.wp_mono (processNew_wp hallow _ msgId g) fun o g' hout ↦ ?_)
    cases o with
    | error _ => exact hout.elim
    | ok _ =>
      obtain ⟨answer, es, rfl, hes⟩ := hout
      have hfirst : Settled P msgId (g ++ ⟨.getMessage msgId, answer⟩ :: es) :=
        ⟨own, answer, g, es, [], by simp, hown, hes⟩
      refine Prog.wp_mono (ih (List.mem_append_left _ hown)) fun o g' hrest ↦ ?_
      cases o with
      | error _ => exact hrest.elim
      | ok _ =>
        obtain ⟨⟨tail, rfl⟩, hrest⟩ := hrest
        refine ⟨⟨⟨.getMessage msgId, answer⟩ :: es ++ tail, by simp⟩, fun id hid ↦ ?_⟩
        rcases List.mem_cons.mp hid with rfl | hid
        · exact hfirst.append
        · exact hrest id hid

theorem processNewEmails_wp (msgIds : List Str) (g : List (Event mailSig)) :
    (processNewEmails P msgIds).wp (.history allow may)
      (Prog.exits (fun _ g' ↦ g <+: g' ∧ ∀ msgId ∈ msgIds, Settled P msgId g') fun _ _ ↦ False) g := by
  unfold processNewEmails
  split
  · rename_i hnil
    exact ⟨List.prefix_rfl, by simp [hnil]⟩
  · refine ⟨hallow _ _ trivial, fun own _ ↦ ?_⟩
    refine Prog.wp_mono (@processEach_wp _ _ _ hallow own msgIds _ (by simp [Discipline.history]))
      fun o g' hout ↦ ?_
    cases o with
    | error _ => exact hout
    | ok _ => exact ⟨(List.prefix_append g _).trans hout.1, hout.2⟩

end Loop

variable (P) (M : Mailbox) (start : ℕ)

/-- The mailbox has listed what came after the cursor, in this run. -/
def Listed (h : List (Event mailSig)) : Prop :=
  ∃ token, ⟨.historyList token (Mailbox.cursor start), .ok (M.page start)⟩ ∈ h

/-- A cursor saved after a listing is the latest one, and every unread inbox
message that it passes is settled. -/
def Passes (h : List (Event mailSig)) (op : MailOp) : Prop :=
  ∀ historyId, op = .prefsPut historyId → Listed M start h →
    historyId = Mailbox.cursor M.latest ∧
    ∀ r ∈ M.records, start < r.historyId → r.historyId ≤ M.latest →
      ∀ message ∈ r.added, ∀ msgId, message.id = some msgId →
        hasLabel message.labelIds "INBOX" = true → hasLabel message.labelIds "UNREAD" = true →
        Settled P msgId h

variable {P M start}

theorem passes_of_keepsCursor {h : List (Event mailSig)} {op : MailOp} (hop : KeepsCursor op) :
    Passes P M start h op := by
  intro historyId heq
  subst heq
  exact hop.elim

variable {may : List (Event mailSig) → (op : MailOp) → mailSig.Resp op → Prop}

/-- Without a listing nothing is promised of the cursor. -/
theorem unlisted_wp {α : Type} {p : Mail α} (hp : p.Calls CursorCall) {g : List (Event mailSig)}
    (hg : ¬Listed M start g) :
    p.wp (.history (Passes P M start) may) (fun _ g' ↦ ¬Listed M start g') g := by
  refine hp.wp (fun g' op hg' hop ↦ ⟨fun _ _ hlisted ↦ absurd hlisted hg', fun r _ ↦ ?_⟩) hg
  intro h
  obtain ⟨token, hmem⟩ := h
  rcases List.mem_append.mp hmem with hmem | hmem
  · exact hg' ⟨token, hmem⟩
  · have heq := List.mem_singleton.mp hmem
    obtain rfl : _ = op := congrArg Sigma.fst heq
    exact hop

theorem saveHistoryId_wp {g : List (Event mailSig)}
    (hg : ∀ message r msgId, r ∈ M.records → start < r.historyId → message ∈ r.added →
      message.id = some msgId → hasLabel message.labelIds "INBOX" = true →
      hasLabel message.labelIds "UNREAD" = true → Settled P msgId g) :
    (saveHistoryId (Mailbox.cursor M.latest)).wp (.history (Passes P M start) may)
      (fun _ _ ↦ True) g := by
  refine ⟨passes_of_keepsCursor trivial, fun cached _ ↦ ?_⟩
  change (if cached = some _ then Prog.ret () else _ : Mail Unit).wp _ _ _
  split
  · trivial
  · refine ⟨passes_of_keepsCursor trivial, fun _ _ ↦ ⟨fun historyId hid _ ↦ ?_, fun _ _ ↦ trivial⟩⟩
    refine ⟨(MailOp.prefsPut.inj hid).symm, fun r hr hlt _ message hm msgId hmid hin hun ↦ ?_⟩
    exact (hg message r msgId hr hlt hm hmid hin hun).append.append

theorem processFromHistory_wp (hone : M.OnePage start) :
    (processFromHistory P (Mailbox.cursor start)).wp
      (.history (Passes P M start) fun _ ↦ M.Serves start) (fun _ _ ↦ True) [] := by
  have prime {g : List (Event mailSig)} (hg : ¬Listed M start g) :
      (primeHistoryId >>= fun _ ↦ Prog.ret ()).wp
        (.history (Passes P M start) fun _ ↦ M.Serves start) (fun _ _ ↦ True) g := by
    have hcalls : (primeHistoryId >>= fun _ ↦ Prog.ret () : Mail Unit).Calls CursorCall :=
      primeHistoryId_calls.bind fun _ ↦ trivial
    exact Prog.wp_mono (unlisted_wp hcalls hg) fun _ _ _ ↦ trivial
  refine ⟨passes_of_keepsCursor trivial, fun token _ ↦ ?_⟩
  rcases token with _ | _ | token
  · trivial
  · exact prime (by simp [Listed, Discipline.history])
  · refine ⟨passes_of_keepsCursor trivial, fun answer hserve ↦ ?_⟩
    cases answer with
    | code _ => exact prime (by simp [Listed, Discipline.history])
    | failed => exact prime (by simp [Listed, Discipline.history])
    | ok page =>
      obtain rfl : page = M.page start := hserve rfl
      change (processNewEmails P (newIds (M.page start)) >>= fun _ ↦
        saveHistoryId (Mailbox.cursor M.latest)).wp _ _ _
      refine (Prog.wp_bind _ _).mpr (Prog.wp_mono (processNewEmails_wp (fun _ _ ↦ passes_of_keepsCursor) _ _)
        fun o g hout ↦ ?_)
      cases o with
      | error _ => exact hout.elim
      | ok _ =>
        refine saveHistoryId_wp fun message r msgId hr hlt hm hid hin hun ↦ ?_
        exact hout.2 msgId (Mailbox.mem_newIds hone hr hlt hm hin hun hid)

/-- In every run on a mailbox whose news fits on one page, the cursor passes
settled messages only. -/
theorem cursor_passes_settled {A : Answers mailSig} (hone : M.OnePage start)
    (hserves : Along (fun _ e ↦ M.Serves start e.1 e.2) []
      ((processFromHistory P (Mailbox.cursor start)).events A [])) :
    Along (fun h e ↦ Passes P M start h e.1) []
      ((processFromHistory P (Mailbox.cursor start)).events A []) :=
  (Prog.along_of_wp (processFromHistory_wp hone) hserves).1

/-! A mailbox with one new message -/

def unread : HistoryMessage := ⟨some "m1".toList, some ["INBOX".toList, "UNREAD".toList]⟩

def oneNew : Mailbox := ⟨[⟨6, [unread]⟩], 7, by decide⟩

def hello : RawEmail :=
  ⟨[(some "From".toList, some "Ann <ann@example.com>".toList), (some "Subject".toList, some "hi".toList)],
    some "t1".toList, some ["INBOX".toList, "UNREAD".toList], "hello"⟩

/-- The mailbox lists its message, and answers its fetch as given. -/
def world (fetched : Option RawEmail) : Answers mailSig
  | _, .getFreshToken => (.ok (some "token".toList) : Except Throwable (Option Str))
  | _, .historyList .. => HttpAnswer.ok (oneNew.page 5)
  | _, .getSignedInEmail => some "owner@example.com".toList
  | _, .getMessage _ => (.ok fetched : Except Throwable (Option RawEmail))
  | _, op => quietMail op

theorem world_serves (fetched : Option RawEmail) {α : Type} (p : Mail α) :
    Along (fun _ e ↦ oneNew.Serves 5 e.1 e.2) [] (p.events (world fetched) []) := by
  refine (Prog.along_answers (world fetched) p []).mono fun h e he ↦ ?_
  obtain ⟨op, answer⟩ := e
  obtain rfl : answer = world fetched h op := he
  cases op <;> first | trivial | exact fun _ ↦ rfl

theorem new_message_settled : oneNew.OnePage 5 ∧
    MailOp.prefsPut "7" ∈ (processFromHistory asciiPlatform "5").called (world (some hello)) [] ∧
    Along (fun h e ↦ Passes asciiPlatform oneNew 5 h e.1) []
      ((processFromHistory asciiPlatform (Mailbox.cursor 5)).events (world (some hello)) []) := by
  have hone : oneNew.OnePage 5 := by
    unfold Mailbox.OnePage
    decide
  exact ⟨hone, by decide +kernel, cursor_passes_settled hone (world_serves _ _)⟩

/-- The cursor passes a message whose fetch failed; it is never handed over. -/
theorem cursor_passes_unfetched :
    (processFromHistory asciiPlatform "5").called (world none) [] =
      [.getFreshToken, .historyList "token" "5", .getSignedInEmail, .getMessage "m1", .cachedGet,
        .cachedPut (some "7".toList), .prefsPut "7"] ∧
    (∃ r ∈ oneNew.records, 5 < r.historyId ∧ r.historyId ≤ 7 ∧ unread ∈ r.added) ∧
    ∀ message, MailOp.hand message ∉ (processFromHistory asciiPlatform "5").called (world none) [] := by
  have hcalled : (processFromHistory asciiPlatform "5").called (world none) [] =
      [.getFreshToken, .historyList "token" "5", .getSignedInEmail, .getMessage "m1", .cachedGet,
        .cachedPut (some "7".toList), .prefsPut "7"] := by decide +kernel
  refine ⟨hcalled, ⟨_, List.mem_singleton.mpr rfl, by decide⟩, fun message ↦ ?_⟩
  rw [hcalled]
  simp

end Aigentik.HistoryCursor
