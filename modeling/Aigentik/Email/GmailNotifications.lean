import Aigentik.Effects.Pool
import Aigentik.Email.EmailMonitor

namespace Aigentik.GmailNotifications

open Strings Effects GmailHistoryClient EmailMonitor

/-- The calls of a notification and of the fetch that it launches. A notification is given
with its e-mail. `arrive` and `posted` are the mailbox's; `begin` and `finish` change
nothing: they mark where a fetch starts and ends. -/
inductive MonitorOp
  | arrive (msgId : Str)
  | posted (msgId : Str)
  | isSignedIn
  | compareAndSet (msgId : Str)
  | launch (msgId : Str)
  | begin
  | finish
  | mail (op : MailOp)
  | release
  | releaseInHandler

abbrev monitorSig : Sig where
  Op := MonitorOp
  Resp
    | .isSignedIn | .compareAndSet _ => Bool
    | .mail op => mailSig.Resp op
    | _ => Unit

abbrev mailHom : mailSig.Hom monitorSig where
  op := .mail
  resp _ := .refl _

abbrev Monitor := Prog monitorSig Throwable

def monitor (op : MonitorOp) : Monitor Unit := Prog.call (S := monitorSig) op fun _ ↦ .ret ()

def isSignedIn : Monitor Bool := Prog.perform (S := monitorSig) .isSignedIn

def compareAndSet (msgId : Str) : Monitor Bool := Prog.perform (S := monitorSig) (.compareAndSet msgId)

variable (P : Platform)

/-- The history, or the unread e-mails where there is no cursor. -/
def fetch : Mail Unit := do
  match ← loadHistoryId with
  | some storedHistoryId => processFromHistory P storedHistoryId
  | none => processUnread P

/-- `try`/`finally` around a fetch, and the exception handler of the scope around both. -/
def fetchCoroutine : Monitor Unit :=
  (do
    monitor .begin
    ((fetch P).lift mailHom).tryFinally (do
      monitor .finish
      monitor .release)).tryCatch fun _ ↦ monitor .releaseInHandler

def onGmailNotification (msgId : Str) : Monitor Unit := do
  if ← isSignedIn then
    if ← compareAndSet msgId then monitor (.launch msgId)
    else return ()
  else return ()

/-- E-mails arrive, and Gmail posts notifications of e-mails that have arrived. -/
inductive Input
  | arrival (msgId : Str)
  | notification (msgId : Str)
  deriving DecidableEq

def entry : Input → Monitor Unit
  | .arrival msgId => monitor (.arrive msgId)
  | .notification msgId => do
    monitor (.posted msgId)
    onGmailNotification msgId

def spawned : MonitorOp → Option (Monitor Unit)
  | .launch _ => some (fetchCoroutine P)
  | _ => none

/-- The flag. The rest records the threads whose fetch is in progress, the e-mails that have
arrived and how many had when each thread began, the e-mails with a notification while signed
in and those whose notification has launched a fetch, and the number of e-mails that some fetch
has started after and then listed. -/
structure Shared where
  isProcessing : Bool
  running : List ℕ
  arrived : List Str
  began : ℕ → ℕ
  notified : List Str
  launched : List Str
  covered : ℕ

def Shared.init : Shared := ⟨false, [], [], fun _ ↦ 0, [], [], 0⟩

/-- A listing that answers. -/
def lists : (op : MailOp) → mailSig.Resp op → Bool
  | .historyList .., .ok _ => true
  | .listUnread _, .ok _ => true
  | _, _ => false

/-- A fetch has listed the e-mails, and has thereby seen all that had arrived when it began. -/
def Shared.list (s : Shared) (thread : ℕ) : Shared := { s with covered := max s.covered (s.began thread) }

/-- What the mail account answers, of what it may answer. -/
def act (answers : (op : MailOp) → mailSig.Resp op → Bool) (thread : ℕ) :
    (op : MonitorOp) → monitorSig.Resp op → Shared → Option (monitorSig.Resp op × Shared)
  | .arrive msgId, _, s =>
    if msgId ∈ s.arrived then none else some ((), { s with arrived := s.arrived ++ [msgId] })
  | .posted msgId, _, s => if msgId ∈ s.arrived then some ((), s) else none
  | .isSignedIn, signedIn, s => some (signedIn, s)
  | .compareAndSet msgId, _, s => some (!s.isProcessing,
      { s with
        isProcessing := true
        notified := s.notified ++ [msgId]
        launched := if s.isProcessing then s.launched else s.launched ++ [msgId] })
  | .launch _, _, s => some ((), s)
  | .begin, _, s => some ((), { s with
      running := thread :: s.running, began := Function.update s.began thread s.arrived.length })
  | .finish, _, s => some ((), { s with running := s.running.filter (· ≠ thread) })
  | .mail op, r, s => if answers op r then some (r, if lists op r then s.list thread else s) else none
  | .release, _, s | .releaseInHandler, _, s => some ((), { s with isProcessing := false })

theorem act_mail {answers : (op : MailOp) → mailSig.Resp op → Bool} {thread : ℕ} {op : MailOp}
    {offer r : mailSig.Resp op} {s s' : Shared} (h : act answers thread (.mail op) offer s = some (r, s')) :
    answers op r = true ∧ s' = if lists op r then s.list thread else s := by
  change (if answers op offer = true then some (offer, if lists op offer then s.list thread else s) else none) = _ at h
  obtain ⟨hanswers, heq⟩ := Option.ite_none_right_eq_some.mp h
  cases heq
  exact ⟨hanswers, rfl⟩

/-- Any number of arrivals and notifications, with the fetches that they launch. -/
def machine (answers : (op : MailOp) → mailSig.Resp op → Bool) :
    Machine monitorSig Throwable Shared Input where
  act := act answers
  entry := entry
  spawned := spawned P

abbrev Configuration := Config monitorSig Throwable Shared

/-! Runs along given labels, with an account whose first listing runs out of memory -/

def quietMonitor (listing : Except Throwable (List GmailApiClient.ParsedEmail)) :
    (op : MonitorOp) → monitorSig.Resp op
  | .isSignedIn => true
  | .compareAndSet _ => false
  | .mail (.listUnread _) => listing
  | .mail op => quietMail op
  | .arrive _ | .posted _ | .launch _ | .begin | .finish | .release | .releaseInHandler => ()

abbrev calls (listing : Except Throwable (List GmailApiClient.ParsedEmail)) (thread times : ℕ) :
    List (Label monitorSig Input) := List.replicate times (.step thread (quietMonitor listing))

/-! The stages of a thread -/

/-- Where a thread is: it has the e-mail of its notification, it has won the flag, and its
fetch may have listed the e-mails. -/
inductive Stage
  | idle
  | posted (msgId : Str)
  | won (msgId : Str)
  | launched (msgId : Str)
  | fetching (msgId : Str) (listed : Bool)
  | finished

def Stage.holds : Stage → Bool
  | .idle | .posted _ => false
  | .won _ | .launched _ | .fetching .. | .finished => true

def Stage.isFetching : Stage → Bool
  | .fetching .. => true
  | _ => false

def Stage.list : Stage → Stage
  | .fetching msgId _ => .fetching msgId true
  | l => l

def Stage.begin : Stage → Stage
  | .launched msgId => .fetching msgId false
  | l => l

/-- A fetch may end where `ends` says, with an exception only if `handles` says so. -/
def disc (answers : (op : MailOp) → mailSig.Resp op → Bool) (handles : Prop) (ends : Bool → Prop) :
    Discipline monitorSig Stage where
  allow
    | l, .launch msgId => l = .won msgId
    | l, .begin => ∃ msgId, l = .launched msgId
    | l, .mail _ => l.isFetching = true
    | l, .finish => ∃ msgId listed, l = .fetching msgId listed ∧ ends listed
    | l, .release => l = .finished
    | l, .releaseInHandler => handles ∧ l = .idle
    | l, .compareAndSet msgId => l = .posted msgId
    | l, .isSignedIn => ∃ msgId, l = .posted msgId
    | l, .arrive _ | l, .posted _ => l = .idle
  may
    | _, .mail op, r => answers op r = true
    | _, _, _ => True
  next
    | _, .posted msgId, _ => .posted msgId
    | _, .compareAndSet msgId, won => if won then .won msgId else .idle
    | _, .launch _, _ => .idle
    | l, .begin, _ => l.begin
    | _, .finish, _ => .finished
    | _, .release, _ => .idle
    | l, .mail op, r => if lists op r then l.list else l
    | l, _, _ => l

def spawnStage : MonitorOp → Stage
  | .launch msgId => .launched msgId
  | _ => .idle

variable {P} {answers : (op : MailOp) → mailSig.Resp op → Bool} {handles : Prop} {ends : Bool → Prop}

theorem onGmailNotification_wp (msgId : Str) :
    (onGmailNotification msgId).wp (disc answers handles ends) (fun _ _ ↦ True) (.posted msgId) := by
  refine ⟨⟨msgId, rfl⟩, fun signedIn _ ↦ ?_⟩
  cases signedIn with
  | false => trivial
  | true =>
    refine ⟨rfl, fun won _ ↦ ?_⟩
    cases won with
    | false => trivial
    | true => exact ⟨rfl, fun _ _ ↦ trivial⟩

theorem entry_wp (x : Input) : (entry x).wp (disc answers handles ends) (fun _ _ ↦ True) .idle := by
  cases x with
  | arrival msgId => exact ⟨rfl, fun _ _ ↦ trivial⟩
  | notification msgId => exact ⟨rfl, fun _ _ ↦ onGmailNotification_wp msgId⟩

/-- What is left to show is how a fetch ends. -/
theorem fetchCoroutine_wp {msgId : Str}
    (hfetch : ((fetch P).lift mailHom).wp (disc answers handles ends)
      (Prog.exits (fun _ l ↦ ∃ listed, l = .fetching msgId listed ∧ ends listed)
        fun _ l ↦ handles ∧ ∃ listed, l = .fetching msgId listed ∧ ends listed) (.fetching msgId false)) :
    (fetchCoroutine P).wp (disc answers handles ends) (fun _ _ ↦ True) (.launched msgId) := by
  refine (Prog.wp_tryCatch _ _).mpr ⟨⟨msgId, rfl⟩, fun _ _ ↦ (Prog.wp_tryFinally _ _).mpr ?_⟩
  refine Prog.wp_mono hfetch fun o l hl ↦ ?_
  cases o with
  | ok _ =>
    obtain ⟨listed, rfl, hends⟩ := hl
    exact ⟨⟨msgId, listed, rfl, hends⟩, fun _ _ ↦ ⟨rfl, fun _ _ ↦ trivial⟩⟩
  | error e =>
    obtain ⟨hhandles, listed, rfl, hends⟩ := hl
    exact ⟨⟨msgId, listed, rfl, hends⟩, fun _ _ ↦ ⟨rfl, fun _ _ ↦ ⟨⟨hhandles, rfl⟩, fun _ _ ↦ trivial⟩⟩⟩

end Aigentik.GmailNotifications
