import Aigentik.Core.MessageEngine
import Aigentik.Effects.History
import Aigentik.Effects.Layers
import Aigentik.Email.GmailNotifications

namespace Aigentik.MarkedRead

open Strings Effects AdminAuthManager MessageEngine GmailApiClient GmailHistoryClient
  EmailRouter EmailMonitor GmailNotifications

/-- The calls of a fetch and of the engine's entry. `receive` changes nothing: it marks where
`onMessageReceived` is called. -/
inductive PassOp
  | mail (op : MailOp)
  | engine (op : EngineOp)
  | receive (message : Message)
  deriving DecidableEq

abbrev passSig : Sig where
  Op := PassOp
  Resp
    | .mail op => mailSig.Resp op
    | .engine op => engineSig.Resp op
    | .receive _ => Unit

abbrev engineHom : engineSig.Hom passSig where
  op := .engine
  resp _ := .refl _

variable (P : Platform) (cfg : EngineConfig)

def layer : (op : MailOp) → Prog passSig Empty (mailSig.Resp op)
  | .hand message =>
    .call (S := passSig) (.receive message) fun _ ↦ ((onMessageReceived P cfg message).lift engineHom).catching
  | op => .call (S := passSig) (.mail op) .ret

def fetchPass : Prog passSig Throwable Unit := (fetch P).subst (layer P cfg)

/-- The e-mail that the engine has got since the channel of one was checked last, and whether
that has passed the pause check. -/
structure Receipt where
  gmailId : Option Str
  accepted : Bool
  deriving DecidableEq

def Receipt.after (c : Receipt) : (op : PassOp) → passSig.Resp op → Receipt
  | .mail (.channelIsEnabled _), _ => ⟨none, false⟩
  | .receive message, _ => ⟨some message.id, false⟩
  | .engine (.sync .isPaused), paused => { c with accepted := !paused }
  | _, _ => c

def receipt (h : List (Event passSig)) : Receipt := h.foldl (fun c e ↦ c.after e.1 e.2) ⟨none, false⟩

/-- An e-mail is marked as read only when the engine has just accepted it. -/
def Marks (h : List (Event passSig)) (e : Event passSig) : Prop :=
  ∀ gmailId, e.1 = .mail (.markAsRead gmailId) → receipt h = ⟨some gmailId, true⟩

def OnlyAccepted (es : List (Event passSig)) : Prop := Along Marks [] es

def PassOp.marked : PassOp → Option Str
  | .mail (.markAsRead gmailId) => some gmailId
  | _ => none

theorem marked_eq {op : PassOp} {gmailId : Str} : op.marked = some gmailId ↔ op = .mail (.markAsRead gmailId) := by
  cases op with
  | mail op => cases op <;> simp [PassOp.marked]
  | _ => simp [PassOp.marked]

instance (h : List (Event passSig)) (e : Event passSig) : Decidable (Marks h e) :=
  decidable_of_iff (∀ gmailId ∈ e.1.marked, receipt h = ⟨some gmailId, true⟩)
    (forall_congr' fun _ ↦ imp_congr_left marked_eq)

instance (es : List (Event passSig)) : Decidable (OnlyAccepted es) := inferInstanceAs (Decidable (Along Marks [] es))

def Parses (email : ParsedEmail) : Prop :=
  isGoogleVoiceText email.subject = true → (parseGoogleVoiceEmail email).isSome

/-- The channel is on, the engine is not paused, and an e-mail of someone else's that is a Google
Voice text parses. -/
def Fine (ownEmail : Str) : (op : PassOp) → passSig.Resp op → Prop
  | .mail (.channelIsEnabled _), enabled => enabled = true
  | .engine (.sync .isPaused), paused => paused = false
  | .mail (.getMessage gmailId), .ok (some raw) => (raw.parsed P gmailId).isUnread = true →
    P.equalsIgnoreCase (raw.parsed P gmailId).fromEmail ownEmail = false → Parses (raw.parsed P gmailId)
  | .mail (.listUnread _), .ok emails =>
    ∀ email ∈ emails, P.equalsIgnoreCase email.fromEmail ownEmail = false → Parses email
  | _, _ => True

/-! Calls that neither check nor mark anything -/

def Neutral : PassOp → Prop
  | .mail (.channelIsEnabled _) | .mail .getSignedInEmail | .mail (.getMessage _) | .mail (.listUnread _)
  | .mail (.markAsRead _) | .mail (.hand _) | .engine (.sync .isPaused) | .receive _ => False
  | _ => True

variable {P cfg} {ownEmail : Str} {X X' : Prop} {h es es' : List (Event passSig)} {email : ParsedEmail}

theorem Neutral.fine {op : PassOp} (hop : Neutral op) (c : Receipt) (r : passSig.Resp op) :
    c.after op r = c ∧ Fine P ownEmail op r := by
  cases op with
  | mail op => cases op <;> first | exact ⟨rfl, trivial⟩ | exact hop.elim
  | engine op =>
    cases op with
    | auth _ => exact ⟨rfl, trivial⟩
    | act _ => exact ⟨rfl, trivial⟩
    | sync op => cases op <;> first | exact ⟨rfl, trivial⟩ | exact hop.elim
  | receive _ => exact hop.elim

/-- The receipt after further events. -/
def Receipt.run (c : Receipt) (es : List (Event passSig)) : Receipt := es.foldl (fun c e ↦ c.after e.1 e.2) c

theorem receipt_append (h es : List (Event passSig)) : receipt (h ++ es) = (receipt h).run es :=
  List.foldl_append

theorem run_cons (c : Receipt) (e : Event passSig) (es : List (Event passSig)) :
    c.run (e :: es) = (c.after e.1 e.2).run es := rfl

theorem run_neutral (hes : ∀ e ∈ es, Neutral e.1) (c : Receipt) : c.run es = c := by
  induction es with
  | nil => rfl
  | cons e es ih =>
    rw [run_cons, (@Neutral.fine asciiPlatform [] _ (hes e List.mem_cons_self) c e.2).1]
    exact ih fun e' he' ↦ hes e' (List.mem_cons_of_mem _ he')

/-- A part of a fetch in which e-mails are marked as they should be just when all is fine and
`X` holds, whatever has happened before. -/
structure Good (P : Platform) (ownEmail : Str) (X : Prop) (es : List (Event passSig)) : Prop where
  marks : ∀ h, Along Marks h es ↔ (∀ e ∈ es, Fine P ownEmail e.1 e.2) ∧ X
  own : ∀ e ∈ es, e.1 ≠ .mail .getSignedInEmail

theorem Good.append (hes : Good P ownEmail X es) (hes' : Good P ownEmail X' es') :
    Good P ownEmail (X ∧ X') (es ++ es') := by
  refine ⟨fun h ↦ ?_, fun e he ↦ (List.mem_append.mp he).elim (hes.own e) (hes'.own e)⟩
  rw [along_append, hes.marks, hes'.marks, List.forall_mem_append]
  exact and_and_and_comm

theorem Good.congr (hes : Good P ownEmail X es) (hX : X ↔ X') : Good P ownEmail X' es :=
  ⟨fun h ↦ (hes.marks h).trans (and_congr_right fun _ ↦ hX), hes.own⟩

theorem good_unmarked (hfine : ∀ e ∈ es, Fine P ownEmail e.1 e.2) (hX : X)
    (hunmarked : ∀ e ∈ es, ∀ gmailId, e.1 ≠ .mail (.markAsRead gmailId))
    (hown : ∀ e ∈ es, e.1 ≠ .mail .getSignedInEmail) : Good P ownEmail X es := by
  refine ⟨fun h ↦ iff_of_true (fun pre e post heq gmailId hop ↦ ?_) ⟨hfine, hX⟩, hown⟩
  exact absurd hop (hunmarked e (by simp [heq]) gmailId)

theorem Neutral.ne {op : PassOp} (hop : Neutral op) :
    (∀ gmailId, op ≠ .mail (.markAsRead gmailId)) ∧ op ≠ .mail .getSignedInEmail := by
  constructor
  · intro gmailId heq
    subst heq
    exact hop
  · intro heq
    subst heq
    exact hop

theorem good_neutral (hes : ∀ e ∈ es, Neutral e.1) : Good P ownEmail True es :=
  good_unmarked (fun e he ↦ ((hes e he).fine ⟨none, false⟩ e.2).2) trivial (fun e he ↦ (hes e he).ne.1)
    fun e he ↦ (hes e he).ne.2

theorem Good.cons {e : Event passSig} (hes : Good P ownEmail X es)
    (hunmarked : ∀ gmailId, e.1 ≠ .mail (.markAsRead gmailId)) (hown : e.1 ≠ .mail .getSignedInEmail)
    (hX : X ↔ Fine P ownEmail e.1 e.2 ∧ X') : Good P ownEmail X' (e :: es) := by
  refine ⟨fun h ↦ ?_, List.forall_mem_cons.mpr ⟨hown, hes.own⟩⟩
  have hmarks : Marks h e := fun gmailId hop ↦ absurd hop (hunmarked gmailId)
  rw [along_cons, hes.marks, List.forall_mem_cons, hX]
  constructor
  · intro h'
    obtain ⟨-, hfine, he, hX'⟩ := h'
    exact ⟨⟨he, hfine⟩, hX'⟩
  · intro h'
    obtain ⟨⟨he, hfine⟩, hX'⟩ := h'
    exact ⟨hmarks, hfine, he, hX'⟩

/-! What becomes of one e-mail -/

/-- What processing an e-mail can come to. -/
inductive Processed (email : ParsedEmail) : Except Throwable Unit → List (Event passSig) → Prop
  | disabled (channel : ChannelManager.Channel) :
      Processed email (.ok ()) [⟨.mail (.channelIsEnabled channel), false⟩]
  | unparsed (hparse : ¬Parses email) : Processed email (.ok ()) [⟨.mail (.channelIsEnabled .gvoice), true⟩]
  | paused {channel : ChannelManager.Channel} {message : Message} {stores : List (Event passSig)}
      (hstores : ∀ e ∈ stores, Neutral e.1) : Processed email (.ok ())
        (⟨.mail (.channelIsEnabled channel), true⟩ :: stores ++
          [⟨.receive message, ()⟩, ⟨.engine (.sync .isPaused), true⟩])
  | accepted {channel : ChannelManager.Channel} {message : Message} {stores rest : List (Event passSig)}
      {o : Except Throwable Unit} (hparse : Parses email) (hid : message.id = email.gmailId)
      (hstores : ∀ e ∈ stores, Neutral e.1) (hrest : ∀ e ∈ rest, Neutral e.1) : Processed email o
        (⟨.mail (.channelIsEnabled channel), true⟩ :: stores ++
          ⟨.receive message, ()⟩ :: ⟨.engine (.sync .isPaused), false⟩ :: rest)

theorem own_marked (hown : ∀ e ∈ es, e.1 ≠ .mail .getSignedInEmail) (answer : Except Throwable Bool) :
    ∀ e ∈ es ++ [(⟨.mail (.markAsRead email.gmailId), answer⟩ : Event passSig)], e.1 ≠ .mail .getSignedInEmail := by
  intro e he
  rcases List.mem_append.mp he with he | he
  · exact hown e he
  · rw [List.mem_singleton.mp he]
    intro hop
    cases hop

theorem good_marked (hfine : ∀ e ∈ es, Fine P ownEmail e.1 e.2) (hX : X)
    (hunmarked : ∀ e ∈ es, ∀ gmailId, e.1 ≠ .mail (.markAsRead gmailId))
    (hown : ∀ e ∈ es, e.1 ≠ .mail .getSignedInEmail)
    (hreceipt : ∀ c : Receipt, c.run es = ⟨some email.gmailId, true⟩) (answer : Except Throwable Bool) :
    Good P ownEmail X (es ++ [⟨.mail (.markAsRead email.gmailId), answer⟩]) := by
  refine ⟨fun h ↦ iff_of_true (along_append.mpr ⟨?_, along_cons.mpr ⟨fun gmailId hop ↦ ?_, along_nil⟩⟩) ⟨?_, hX⟩,
    own_marked hown answer⟩
  · exact ((good_unmarked hfine hX hunmarked hown).marks h).mpr ⟨hfine, hX⟩
  · cases hop
    rw [receipt_append, hreceipt]
  · refine List.forall_mem_append.mpr ⟨hfine, fun e he ↦ ?_⟩
    rw [List.mem_singleton.mp he]
    trivial

theorem good_not_accepted (hreceipt : ∀ c : Receipt, c.run es ≠ ⟨some email.gmailId, true⟩)
    (hX : (∀ e ∈ es, Fine P ownEmail e.1 e.2) → ¬X) (hown : ∀ e ∈ es, e.1 ≠ .mail .getSignedInEmail)
    (answer : Except Throwable Bool) : Good P ownEmail X (es ++ [⟨.mail (.markAsRead email.gmailId), answer⟩]) := by
  refine ⟨fun h ↦ iff_of_false (fun halong ↦ ?_) fun hfine ↦ ?_, own_marked hown answer⟩
  · exact hreceipt _ (receipt_append h es ▸ halong es _ [] rfl _ rfl)
  · exact hX (fun e he ↦ hfine.1 e (List.mem_append_left _ he)) hfine.2

/-- The events from the channel check to the pause check, and after it. -/
theorem run_received {channel : ChannelManager.Channel} {message : Message} {stores rest : List (Event passSig)}
    {paused : Bool} (hstores : ∀ e ∈ stores, Neutral e.1) (hrest : ∀ e ∈ rest, Neutral e.1) (c : Receipt) :
    c.run (⟨.mail (.channelIsEnabled channel), true⟩ :: stores ++
      ⟨.receive message, ()⟩ :: ⟨.engine (.sync .isPaused), paused⟩ :: rest) = ⟨some message.id, !paused⟩ := by
  have happend (es es' : List (Event passSig)) : c.run (es ++ es') = (c.run es).run es' := List.foldl_append
  simp only [happend, run_cons, run_neutral hstores, run_neutral hrest]
  rfl

/-- Of these only the pause check may not be fine. -/
theorem received_cases {channel : ChannelManager.Channel} {message : Message} {stores rest : List (Event passSig)}
    {paused : Bool} (hstores : ∀ e ∈ stores, Neutral e.1) (hrest : ∀ e ∈ rest, Neutral e.1) {e : Event passSig}
    (he : e ∈ ⟨.mail (.channelIsEnabled channel), true⟩ :: stores ++
      ⟨.receive message, ()⟩ :: ⟨.engine (.sync .isPaused), paused⟩ :: rest) :
    (paused = false → Fine P ownEmail e.1 e.2) ∧ (∀ gmailId, e.1 ≠ .mail (.markAsRead gmailId)) ∧
      e.1 ≠ .mail .getSignedInEmail := by
  have neutral {e : Event passSig} (he : Neutral e.1) : (paused = false → Fine P ownEmail e.1 e.2) ∧
      (∀ gmailId, e.1 ≠ .mail (.markAsRead gmailId)) ∧ e.1 ≠ .mail .getSignedInEmail :=
    ⟨fun _ ↦ (he.fine ⟨none, false⟩ e.2).2, he.ne⟩
  simp only [List.cons_append, List.mem_cons, List.mem_append] at he
  rcases he with rfl | he | rfl | rfl | he
  · exact ⟨fun _ ↦ rfl, by simp, by simp⟩
  · exact neutral (hstores e he)
  · exact ⟨fun _ ↦ trivial, by simp, by simp⟩
  · exact ⟨id, by simp, by simp⟩
  · exact neutral (hrest e he)

theorem Processed.error {x : Throwable} (h : Processed email (.error x) es) : Good P ownEmail (Parses email) es := by
  cases h with
  | accepted hparse hid hstores hrest =>
    exact good_unmarked (fun e he ↦ (received_cases hstores hrest he).1 rfl) hparse
      (fun e he ↦ (@received_cases P ownEmail _ _ _ _ _ hstores hrest e he).2.1)
      fun e he ↦ (@received_cases P ownEmail _ _ _ _ _ hstores hrest e he).2.2

theorem Processed.ok (h : Processed email (.ok ()) es) (answer : Except Throwable Bool) :
    Good P ownEmail (Parses email) (es ++ [⟨.mail (.markAsRead email.gmailId), answer⟩]) := by
  cases h with
  | disabled channel =>
    refine good_not_accepted (fun c hc ↦ ?_) (fun hfine ↦ ?_) (by simp) answer
    · cases hc
    · cases hfine _ List.mem_cons_self
  | unparsed hparse =>
    refine good_not_accepted (fun c hc ↦ ?_) (fun _ ↦ hparse) (by simp) answer
    cases hc
  | @paused channel message stores hstores =>
    have hnil : ∀ e ∈ ([] : List (Event passSig)), Neutral e.1 := by simp
    refine good_not_accepted (fun c hc ↦ ?_) (fun hfine ↦ ?_)
      (fun e he ↦ (@received_cases P ownEmail _ _ _ _ _ hstores hnil e he).2.2) answer
    · rw [run_received hstores hnil] at hc
      cases congrArg Receipt.accepted hc
    · have hmem : (⟨.engine (.sync .isPaused), true⟩ : Event passSig) ∈
          (⟨.mail (.channelIsEnabled channel), true⟩ :: stores ++
            [⟨.receive message, ()⟩, ⟨.engine (.sync .isPaused), true⟩] : List (Event passSig)) := by simp
      cases hfine _ hmem
  | accepted hparse hid hstores hrest =>
    refine good_marked (fun e he ↦ (received_cases hstores hrest he).1 rfl) hparse
      (fun e he ↦ (@received_cases P ownEmail _ _ _ _ _ hstores hrest e he).2.1)
      (fun e he ↦ (@received_cases P ownEmail _ _ _ _ _ hstores hrest e he).2.2) (fun c ↦ ?_) answer
    rw [run_received hstores hrest, hid]
    rfl

section Runs

abbrev anyRun : Discipline passSig (List (Event passSig)) := .history (fun _ _ ↦ True) fun _ _ _ ↦ True

variable {g : List (Event passSig)}

theorem neutral_wp {α : Type} {p : Mail α} (hp : p.Calls fun op ↦ Neutral (.mail op)) (g : List (Event passSig)) :
    (p.subst (layer P cfg)).wp anyRun (fun _ g' ↦ ∃ es, g' = g ++ es ∧ ∀ e ∈ es, Neutral e.1) g := by
  refine hp.wp_subst (fun g' op hg' hop ↦ ?_) ⟨[], by simp⟩
  obtain ⟨es, rfl, hes⟩ := hg'
  have hcall : (Prog.call (S := passSig) (.mail op) .ret : Prog passSig Empty _).wp anyRun
      (fun _ g' ↦ ∃ es, g' = g ++ es ∧ ∀ e ∈ es, Neutral e.1) (g ++ es) := by
    refine ⟨trivial, fun r _ ↦ ⟨es ++ [⟨.mail op, r⟩], List.append_assoc .., List.forall_mem_append.mpr ⟨hes, ?_⟩⟩⟩
    intro e he
    rw [List.mem_singleton.mp he]
    exact hop
  cases op <;> first | exact hcall | exact hop.elim

/-- Every call of the engine but the pause check. -/
def Unpausing (op : EngineOp) : Prop := op ≠ .sync .isPaused

theorem Unpausing.neutral {op : EngineOp} (hop : Unpausing op) : Neutral (.engine op) := by
  cases op with
  | auth _ => trivial
  | act _ => trivial
  | sync op => cases op <;> trivial

theorem logIn_calls (message : Message) (creds : AdminCredentials) : (logIn P message creds).Calls Unpausing := by
  have act (p : Act Unit) : (liftAct p).Calls Unpausing := Prog.calls_lift (fun _ hop ↦ by cases hop) p
  have auth (p : Auth Bool) : (liftAuth p).Calls Unpausing := Prog.calls_lift (fun _ hop ↦ by cases hop) p
  refine (auth _).bind fun ok ↦ ?_
  split
  · split
    · exact act _
    · exact ⟨by simp [Unpausing], fun _ ↦ trivial⟩
  · exact act _

theorem enqueue_calls (message : Message) : (enqueue cfg message).Calls Unpausing := by
  have auth (p : Auth Bool) : (liftAuth p).Calls Unpausing := Prog.calls_lift (fun _ hop ↦ by cases hop) p
  refine (auth _).bind fun active ↦ ?_
  cases active <;> exact ⟨by simp [Unpausing], fun _ ↦ trivial⟩

/-- After its pause check `onMessageReceived` makes neutral calls only. -/
theorem onMessageReceived_wp (message : Message) (g : List (Event passSig)) :
    ((onMessageReceived P cfg message).lift engineHom).wp anyRun (fun o g' ↦
      (o = .ok () ∧ g' = g ++ [⟨.engine (.sync .isPaused), true⟩]) ∨
        ∃ rest, g' = g ++ ⟨.engine (.sync .isPaused), false⟩ :: rest ∧ ∀ e ∈ rest, Neutral e.1) g := by
  refine ⟨trivial, fun paused _ ↦ ?_⟩
  cases paused with
  | true => exact .inl ⟨rfl, rfl⟩
  | false =>
    refine Prog.wp_mono (Prog.Calls.wp_history (Prog.Calls.lift (C := Unpausing) ?_ fun _ ↦ Unpausing.neutral) _)
      fun o g' hg' ↦ ?_
    · change Prog.Calls _ (ite _ _ _)
      split
      · exact ⟨by simp [Unpausing], fun _ ↦ trivial⟩
      · split
        · exact logIn_calls _ _
        · exact enqueue_calls _
    · obtain ⟨rest, rfl, hrest⟩ := hg'
      exact .inr ⟨rest, List.append_assoc .., hrest⟩

/-- An e-mail whose channel is on is stored and handed over. -/
theorem store_hand_wp {κ ν : Type} {f : (mapSig κ ν).Hom EmailRouter.sig} (key : κ) (value : ν)
    {channel : ChannelManager.Channel} {message : Message} {now : ℤ} (hparse : Parses email)
    (hid : message.id = email.gmailId) (g : List (Event passSig)) :
    ((((storeCapped key value).lift f).lift routerHom >>= fun _ ↦ mailAttempt (mail (.hand message))).subst
      (layer P cfg)).wp anyRun (fun o g' ↦ ∃ es, g' = g ++ es ∧ Processed email o es)
      (g ++ [⟨.mail (.channelIsEnabled channel), true⟩] ++ [⟨.mail .currentTimeMillis, now⟩]) := by
  have hcalls : (((storeCapped key value : Prog _ Throwable Unit).lift f).lift routerHom).Calls
      fun op ↦ Neutral (.mail op) := Prog.calls_lift (fun _ ↦ trivial) _
  have htotal : ((((storeCapped key value : Prog _ Throwable Unit).lift f).lift routerHom).subst (layer P cfg)).Total :=
    (storeCapped_total key value).lift.lift.subst
  rw [Prog.subst_bind]
  refine (Prog.wp_bind _ _).mpr (Prog.wp_mono (htotal.wp (neutral_wp hcalls _)) fun o g' hg' ↦ ?_)
  cases o with
  | error _ => exact hg'.elim
  | ok _ =>
    obtain ⟨stores, rfl, hstores⟩ := hg'
    have hall : ∀ e ∈ (⟨.mail .currentTimeMillis, now⟩ :: stores : List (Event passSig)), Neutral e.1 :=
      List.forall_mem_cons.mpr ⟨trivial, hstores⟩
    refine (Prog.wp_subst_call _ _).mpr ⟨trivial, fun _ _ ↦ (Prog.wp_catching _).mpr ?_⟩
    refine Prog.wp_mono (onMessageReceived_wp message _) fun o g' hg' ↦ ?_
    rcases hg' with ⟨rfl, rfl⟩ | ⟨rest, rfl, hrest⟩
    · exact ⟨_, by simp [Discipline.history], @Processed.paused email channel message _ hall⟩
    · have hes : ∃ es, g ++ [⟨.mail (.channelIsEnabled channel), true⟩] ++ [⟨.mail .currentTimeMillis, now⟩] ++
          stores ++ [⟨.receive message, ()⟩] ++ ⟨.engine (.sync .isPaused), false⟩ :: rest = g ++ es ∧
            Processed email o es :=
        ⟨_, by simp, @Processed.accepted email channel message _ _ _ hparse hid hall hrest⟩
      cases o <;> exact hes

theorem processEmail_wp (email : ParsedEmail) (g : List (Event passSig)) :
    ((processEmail P email).subst (layer P cfg)).wp anyRun (fun o g' ↦
      ∃ es, g' = g ++ es ∧ Processed email o es) g := by
  unfold processEmail
  split
  · rename_i hsubject
    refine ⟨trivial, fun enabled _ ↦ ?_⟩
    cases enabled with
    | false => exact ⟨_, rfl, .disabled .gvoice⟩
    | true =>
      cases hparse : parseGoogleVoiceEmail email with
      | none => exact ⟨_, rfl, .unparsed fun h ↦ by simpa [hparse] using h hsubject⟩
      | some gvm =>
        exact ⟨trivial, fun now _ ↦ store_hand_wp _ _ (fun _ ↦ by simp [hparse]) (buildGVoiceMessage_id hparse now) g⟩
  · rename_i hsubject
    refine ⟨trivial, fun enabled _ ↦ ?_⟩
    cases enabled with
    | false => exact ⟨_, rfl, .disabled .email⟩
    | true => exact ⟨trivial, fun now _ ↦ store_hand_wp _ _ (fun h ↦ absurd h hsubject) rfl g⟩

theorem processAndMark_wp (email : ParsedEmail) (g : List (Event passSig)) :
    ((processAndMark P email).subst (layer P cfg)).wp anyRun
      (fun _ g' ↦ ∃ es, g' = g ++ es ∧ Good P ownEmail (Parses email) es) g := by
  rw [processAndMark, Prog.subst_bind]
  refine (Prog.wp_bind _ _).mpr (Prog.wp_mono (processEmail_wp email g) fun o g' hg' ↦ ?_)
  obtain ⟨es, rfl, hes⟩ := hg'
  cases o with
  | error _ => exact ⟨es, rfl, hes.error⟩
  | ok _ =>
    refine ⟨trivial, fun answer _ ↦ ?_⟩
    have hmarked : ∃ es', g ++ es ++ [⟨.mail (.markAsRead email.gmailId), answer⟩] = g ++ es' ∧
        Good P ownEmail (Parses email) es' := ⟨_, List.append_assoc .., hes.ok answer⟩
    cases answer <;> exact hmarked

/-- A message that is not fetched, read already or the owner's own. -/
theorem good_passed {e : Event passSig} (hfine : Fine P ownEmail e.1 e.2)
    (hunmarked : ∀ gmailId, e.1 ≠ .mail (.markAsRead gmailId)) (hown : e.1 ≠ .mail .getSignedInEmail) :
    Good P ownEmail True [e] :=
  (good_neutral (by simp)).cons hunmarked hown (iff_of_true trivial ⟨hfine, trivial⟩)

theorem processNew_wp (msgId : Str) (g : List (Event passSig)) :
    ((processNew P ownEmail msgId).subst (layer P cfg)).wp anyRun
      (fun _ g' ↦ ∃ es, g' = g ++ es ∧ Good P ownEmail True es) g := by
  have passed {answer : Except Throwable (Option RawEmail)}
      (hfine : Fine P ownEmail (.mail (.getMessage msgId)) answer) :
      ∃ es, g ++ [⟨.mail (.getMessage msgId), answer⟩] = g ++ es ∧ Good P ownEmail True es :=
    ⟨_, rfl, good_passed hfine (by simp) (by simp)⟩
  rw [processNew, Prog.subst_tryCatch]
  refine (Prog.wp_tryCatch _ _).mpr ⟨trivial, fun answer _ ↦ ?_⟩
  match answer with
  | .error _ => exact passed trivial
  | .ok none => exact passed trivial
  | .ok (some raw) =>
    change (Prog.subst (layer P cfg) (if (!(raw.parsed P msgId).isUnread) = true then Prog.ret ()
      else if P.equalsIgnoreCase (raw.parsed P msgId).fromEmail ownEmail = true then Prog.ret ()
      else processAndMark P (raw.parsed P msgId))).wp _ _ _
    split
    · rename_i hread
      exact passed fun hunread ↦ by simp [hunread] at hread
    · rename_i hunread
      split
      · rename_i hown
        exact passed fun _ hother ↦ by simp [hown] at hother
      · rename_i hother
        have hX : Parses (raw.parsed P msgId) ↔
            Fine P ownEmail (.mail (.getMessage msgId)) (.ok (some raw)) ∧ True := by
          rw [and_true]
          refine ⟨fun hparses _ _ ↦ hparses, fun hfine ↦ hfine (by simpa using hunread) (by simpa using hother)⟩
        refine Prog.wp_mono (@processAndMark_wp P cfg ownEmail (raw.parsed P msgId) _) fun o g' hg' ↦ ?_
        obtain ⟨es, rfl, hes⟩ := hg'
        have hgood : ∃ es', g ++ [⟨.mail (.getMessage msgId), .ok (some raw)⟩] ++ es = g ++ es' ∧
            Good P ownEmail True es' := ⟨_, List.append_assoc .., hes.cons (by simp) (by simp) hX⟩
        cases o <;> exact hgood

theorem processEach_wp (msgIds : List Str) (g : List (Event passSig)) :
    ((processEach P ownEmail msgIds).subst (layer P cfg)).wp anyRun
      (fun _ g' ↦ ∃ es, g' = g ++ es ∧ Good P ownEmail True es) g := by
  induction msgIds generalizing g with
  | nil => exact ⟨[], by simp, good_neutral (by simp)⟩
  | cons msgId rest ih =>
    rw [processEach, Prog.subst_bind]
    refine (Prog.wp_bind _ _).mpr (Prog.wp_mono (processNew_wp msgId g) fun o g' hg' ↦ ?_)
    obtain ⟨es, rfl, hes⟩ := hg'
    cases o with
    | error _ => exact ⟨es, rfl, hes⟩
    | ok _ =>
      refine Prog.wp_mono (ih (g ++ es)) fun o g' hg' ↦ ?_
      obtain ⟨es', rfl, hes'⟩ := hg'
      exact ⟨es ++ es', List.append_assoc .., (hes.append hes').congr (iff_of_eq (and_true True))⟩

/-- An e-mail of someone else's has to parse. -/
def Due (P : Platform) (ownEmail : Str) (email : ParsedEmail) : Prop :=
  P.equalsIgnoreCase email.fromEmail ownEmail = false → Parses email

theorem processListed_wp (email : ParsedEmail) (g : List (Event passSig)) :
    ((processListed P ownEmail email).subst (layer P cfg)).wp anyRun
      (fun _ g' ↦ ∃ es, g' = g ++ es ∧ Good P ownEmail (Due P ownEmail email) es) g := by
  rw [processListed, Prog.subst_tryCatch]
  refine (Prog.wp_tryCatch _ _).mpr ?_
  split
  · rename_i hown
    refine ⟨[], by simp, (good_neutral (by simp)).congr (iff_of_true trivial fun hother ↦ ?_)⟩
    simp [hown] at hother
  · rename_i hother
    have hX : Parses email ↔ Due P ownEmail email := ⟨fun hparses _ ↦ hparses, fun hdue ↦ hdue (by simpa using hother)⟩
    refine Prog.wp_mono (@processAndMark_wp P cfg ownEmail email g) fun o g' hg' ↦ ?_
    obtain ⟨es, rfl, hes⟩ := hg'
    cases o <;> exact ⟨es, rfl, hes.congr hX⟩

theorem processEachListed_wp (emails : List ParsedEmail) (g : List (Event passSig)) :
    ((processEachListed P ownEmail emails).subst (layer P cfg)).wp anyRun
      (fun _ g' ↦ ∃ es, g' = g ++ es ∧ Good P ownEmail (∀ email ∈ emails, Due P ownEmail email) es) g := by
  induction emails generalizing g with
  | nil => exact ⟨[], by simp, (good_neutral (by simp)).congr (by simp)⟩
  | cons email rest ih =>
    have htotal : (processListed P ownEmail email).Total := Prog.total_tryCatch fun _ ↦ trivial
    rw [processEachListed, Prog.subst_bind]
    refine (Prog.wp_bind _ _).mpr (Prog.wp_mono (htotal.subst.wp (processListed_wp email g)) fun o g' hg' ↦ ?_)
    cases o with
    | error _ => exact hg'.elim
    | ok _ =>
      obtain ⟨es, rfl, hes⟩ := hg'
      refine Prog.wp_mono (ih (g ++ es)) fun o g' hg' ↦ ?_
      obtain ⟨es', rfl, hes'⟩ := hg'
      exact ⟨es ++ es', List.append_assoc .., (hes.append hes').congr List.forall_mem_cons.symm⟩

/-! A whole fetch -/

/-- In these events e-mails are marked as they should be just when all is fine. -/
def Lawful (P : Platform) (es : List (Event passSig)) : Prop :=
  OnlyAccepted es ↔ ∀ own, ⟨.mail .getSignedInEmail, own⟩ ∈ es → ∀ e ∈ es, Fine P (own.getD []) e.1 e.2

theorem lawful_of_unmarked (hunmarked : ∀ e ∈ es, ∀ gmailId, e.1 ≠ .mail (.markAsRead gmailId))
    (hown : ∀ e ∈ es, e.1 ≠ .mail .getSignedInEmail) : Lawful P es := by
  refine iff_of_true (fun pre e post heq gmailId hop ↦ ?_) fun own hmem ↦ absurd rfl (hown _ hmem)
  exact absurd hop (hunmarked e (by simp [heq]) gmailId)

/-- The e-mails are processed once the owner's address is known. -/
theorem lawful_of_good {own : Option Str} (hunmarked : ∀ e ∈ es, ∀ gmailId, e.1 ≠ .mail (.markAsRead gmailId))
    (hown : ∀ e ∈ es, e.1 ≠ .mail .getSignedInEmail) (hfine : X ↔ ∀ e ∈ es, Fine P (own.getD []) e.1 e.2)
    (hes' : Good P (own.getD []) X es') : Lawful P (es ++ ⟨.mail .getSignedInEmail, own⟩ :: es') := by
  have hsole (own' : Option Str) (hmem : (⟨.mail .getSignedInEmail, own'⟩ : Event passSig) ∈
      es ++ ⟨.mail .getSignedInEmail, own⟩ :: es') : own' = own := by
    rcases List.mem_append.mp hmem with hmem | hmem
    · exact absurd rfl (hown _ hmem)
    · rcases List.mem_cons.mp hmem with heq | hmem
      · cases heq
        rfl
      · exact absurd rfl (hes'.own _ hmem)
  have hmem : (⟨.mail .getSignedInEmail, own⟩ : Event passSig) ∈ es ++ ⟨.mail .getSignedInEmail, own⟩ :: es' := by simp
  have hpre : Along Marks [] es := fun pre e post heq gmailId hop ↦ absurd hop (hunmarked e (by simp [heq]) gmailId)
  have hask (h : List (Event passSig)) : Marks h ⟨.mail .getSignedInEmail, own⟩ := fun gmailId hop ↦ by cases hop
  rw [Lawful, OnlyAccepted, along_append, along_cons, hes'.marks]
  constructor
  · intro h' own' hown'
    obtain ⟨-, -, hpost, hX⟩ := h'
    rw [hsole own' hown']
    exact List.forall_mem_append.mpr ⟨hfine.mp hX, List.forall_mem_cons.mpr ⟨trivial, hpost⟩⟩
  · intro hall
    obtain ⟨hfirst, hrest⟩ := List.forall_mem_append.mp (hall own hmem)
    exact ⟨hpre, hask _, (List.forall_mem_cons.mp hrest).2, hfine.mpr hfirst⟩

theorem lawful_of_neutral (hes : ∀ e ∈ es, Neutral e.1) : Lawful P es :=
  lawful_of_unmarked (fun e he ↦ (hes e he).ne.1) fun e he ↦ (hes e he).ne.2

theorem CursorCall.neutral {op : MailOp} (hop : CursorCall op) : Neutral (.mail op) := by
  cases op <;> trivial

theorem lawful_neutral_wp {α : Type} {p : Mail α} (hp : p.Calls CursorCall) {g : List (Event passSig)}
    (hg : ∀ e ∈ g, Neutral e.1) : (p.subst (layer P cfg)).wp anyRun (fun _ g' ↦ Lawful P g') g := by
  refine Prog.wp_mono (neutral_wp (hp.mono fun _ ↦ CursorCall.neutral) g) fun o g' hg' ↦ ?_
  obtain ⟨es, rfl, hes⟩ := hg'
  exact lawful_of_neutral (List.forall_mem_append.mpr ⟨hg, hes⟩)

theorem getNewInboxMessageIds_calls (startHistoryId : Str) :
    (getNewInboxMessageIds startHistoryId).Calls fun op ↦ Neutral (.mail op) := by
  refine ⟨trivial, fun token ↦ ?_⟩
  match token with
  | .error _ => trivial
  | .ok none => trivial
  | .ok (some token) =>
    refine ⟨trivial, fun answer ↦ ?_⟩
    cases answer <;> trivial

theorem processNewEmails_wp (msgIds : List Str) (historyId : Str) {g : List (Event passSig)}
    (hg : ∀ e ∈ g, Neutral e.1) : ((processNewEmails P msgIds >>= fun _ ↦ saveHistoryId historyId).subst
      (layer P cfg)).wp anyRun (fun _ g' ↦ Lawful P g') g := by
  by_cases hids : msgIds = []
  · rw [processNewEmails, if_pos hids]
    exact lawful_neutral_wp (saveHistoryId_calls historyId) hg
  · rw [processNewEmails, if_neg hids]
    refine ⟨trivial, fun own _ ↦ ?_⟩
    change Prog.wp anyRun _ ((processEach P (own.getD []) msgIds >>= fun _ ↦ saveHistoryId historyId).subst _) _
    rw [Prog.subst_bind]
    refine (Prog.wp_bind _ _).mpr (Prog.wp_mono ((processEach_total P _ msgIds).subst.wp
      (@processEach_wp P cfg (own.getD []) msgIds _)) fun o g' hg' ↦ ?_)
    cases o with
    | error _ => exact hg'.elim
    | ok _ =>
      obtain ⟨es, rfl, hes⟩ := hg'
      refine Prog.wp_mono (neutral_wp ((saveHistoryId_calls historyId).mono fun _ ↦ CursorCall.neutral) _)
        fun o g' hg' ↦ ?_
      obtain ⟨es', rfl, hes'⟩ := hg'
      have hlawful := lawful_of_good (fun e he ↦ (hg e he).ne.1) (fun e he ↦ (hg e he).ne.2)
        (iff_of_true ⟨trivial, trivial⟩ fun e he ↦ ((hg e he).fine ⟨none, false⟩ e.2).2)
          (hes.append (good_neutral hes'))
      simpa [Discipline.history] using hlawful

theorem processFromHistory_wp (startHistoryId : Str) {g : List (Event passSig)} (hg : ∀ e ∈ g, Neutral e.1) :
    ((processFromHistory P startHistoryId).subst (layer P cfg)).wp anyRun (fun _ g' ↦ Lawful P g') g := by
  rw [processFromHistory, Prog.subst_bind]
  refine (Prog.wp_bind _ _).mpr (Prog.wp_mono (neutral_wp (getNewInboxMessageIds_calls startHistoryId) g)
    fun o g' hg' ↦ ?_)
  obtain ⟨es, rfl, hes⟩ := hg'
  have hall : ∀ e ∈ g ++ es, Neutral e.1 := List.forall_mem_append.mpr ⟨hg, hes⟩
  cases o with
  | error _ => exact lawful_of_neutral hall
  | ok news =>
    obtain ⟨msgIds, updatedHistoryId⟩ := news
    change Prog.wp anyRun _ ((if updatedHistoryId = none ∧ msgIds = [] then primeHistoryId >>= fun _ ↦ Prog.ret ()
      else processNewEmails P msgIds >>= fun _ ↦ saveHistoryId (updatedHistoryId.getD startHistoryId) :
        Mail Unit).subst (layer P cfg)) _
    have hprime : (primeHistoryId >>= fun _ ↦ Prog.ret () : Mail Unit).Calls CursorCall :=
      primeHistoryId_calls.bind fun _ ↦ trivial
    split
    · exact lawful_neutral_wp hprime hall
    · exact processNewEmails_wp msgIds _ hall

theorem processUnread_wp {g : List (Event passSig)} (hg : ∀ e ∈ g, Neutral e.1) :
    ((processUnread P).subst (layer P cfg)).wp anyRun (fun _ g' ↦ Lawful P g') g := by
  refine ⟨trivial, fun listed _ ↦ ?_⟩
  have hne (e : Event passSig) (he : e ∈ g ++ [⟨.mail (.listUnread 3), listed⟩]) :
      (∀ gmailId, e.1 ≠ .mail (.markAsRead gmailId)) ∧ e.1 ≠ .mail .getSignedInEmail := by
    rcases List.mem_append.mp he with he | he
    · exact (hg e he).ne
    · rw [List.mem_singleton.mp he]
      exact ⟨by simp, by simp⟩
  have hquiet : Lawful P (g ++ [⟨.mail (.listUnread 3), listed⟩]) :=
    lawful_of_unmarked (fun e he ↦ (hne e he).1) fun e he ↦ (hne e he).2
  rcases listed with _ | _ | ⟨email, rest⟩
  · exact hquiet
  · exact hquiet
  · refine ⟨trivial, fun own _ ↦ ?_⟩
    refine Prog.wp_mono (@processEachListed_wp P cfg (own.getD []) (email :: rest) _) fun o g' hg' ↦ ?_
    obtain ⟨es, rfl, hes⟩ := hg'
    have hfine : (∀ x ∈ email :: rest, Due P (own.getD []) x) ↔
        ∀ e ∈ g ++ [⟨.mail (.listUnread 3), .ok (email :: rest)⟩], Fine P (own.getD []) e.1 e.2 := by
      rw [List.forall_mem_append, List.forall_mem_singleton]
      exact ⟨fun hdue ↦ ⟨fun e he ↦ ((hg e he).fine ⟨none, false⟩ e.2).2, hdue⟩, And.right⟩
    have hlawful := lawful_of_good (fun e he ↦ (hne e he).1) (fun e he ↦ (hne e he).2) hfine hes
    simpa [Discipline.history] using hlawful

theorem fetchPass_wp : (fetchPass P cfg).wp anyRun (fun _ g' ↦ Lawful P g') [] := by
  rw [fetchPass, fetch, Prog.subst_bind]
  refine (Prog.wp_bind _ _).mpr (Prog.wp_mono (neutral_wp (loadHistoryId_calls.mono fun _ ↦ CursorCall.neutral) [])
    fun o g' hg' ↦ ?_)
  obtain ⟨es, rfl, hes⟩ := hg'
  cases o with
  | error _ => exact lawful_of_neutral hes
  | ok stored =>
    cases stored with
    | some startHistoryId => exact processFromHistory_wp startHistoryId hes
    | none => exact processUnread_wp hes

end Runs

/-- In every fetch, by either path and whatever the world answers, only accepted e-mails are
marked as read just when each channel check and each pause check lets the e-mail through and
every Google Voice text that is processed parses. -/
theorem only_accepted_iff (P : Platform) (cfg : EngineConfig) (A : Answers passSig) :
    OnlyAccepted ((fetchPass P cfg).events A []) ↔
      ∀ own, ⟨.mail .getSignedInEmail, own⟩ ∈ (fetchPass P cfg).events A [] →
        ∀ e ∈ (fetchPass P cfg).events A [], Fine P (own.getD []) e.1 e.2 := by
  have hmay : Along (fun h e ↦ anyRun.may h e.1 e.2) [] ((fetchPass P cfg).events A []) :=
    fun _ _ _ _ ↦ trivial
  exact (Prog.along_of_wp fetchPass_wp hmay).2

/-! A paused agent -/

def hello : ParsedEmail where
  messageId := "m1"
  gmailId := "m1"
  fromEmail := "ann@example.com"
  fromName := "Ann"
  subject := "hi"
  body := "hello"

def world (paused : Bool) : Answers passSig
  | _, .mail (.listUnread _) => (.ok [hello] : Except Throwable (List ParsedEmail))
  | _, .mail op => quietMail op
  | _, .engine (.sync .isPaused) => paused
  | _, .engine op => quiet op
  | _, .receive _ => ()

/-- The e-mail is handed over, the engine ignores it, and it is marked as read all the same. -/
theorem paused_marked : (fetchPass asciiPlatform ⟨[], "Owner", "Aigentik"⟩).called (world true) [] =
      [.mail .prefsGet, .mail (.cachedPut none), .mail .cachedGet, .mail (.listUnread 3), .mail .getSignedInEmail,
        .mail (.channelIsEnabled .email), .mail .currentTimeMillis,
        .mail (.router (.emailContext (.put "ann@example.com".toList hello))), .mail (.router (.emailContext .size)),
        .receive (buildEmailMessage hello 0), .engine (.sync .isPaused), .mail (.markAsRead "m1".toList)] ∧
    ¬OnlyAccepted ((fetchPass asciiPlatform ⟨[], "Owner", "Aigentik"⟩).events (world true) []) := by
  exact ⟨by decide +kernel, by decide +kernel⟩

end Aigentik.MarkedRead
