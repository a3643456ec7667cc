import Aigentik.Core.MessageEngine
import Aigentik.Effects.History

namespace Aigentik.Admission

open Strings Effects AdminAuthManager MessageEngine

variable (P : Platform) (cfg : EngineConfig) (stackDepth : ℕ)

abbrev Log := List (Event engineSig)

/-- Some run of a coroutine launched by `onMessageReceived message` enters
`handleAdminCommand` for `handled`. -/
def Enters (A : Answers engineSig) (message handled : Message) : Prop :=
  ∃ task B h, .sync (.launch task) ∈ (onMessageReceived P cfg message).called A [] ∧
    .sync (.begin .admin handled) ∈ (coroutine P cfg stackDepth task).called B h

/-- The message has a login header that matches the settings read. -/
def LoggedIn (log : Log) (message : Message) : Prop :=
  ∃ creds ownerName storedHash, parseAdminMessage P message.body = some creds ∧
    ⟨.auth .ownerName, ownerName⟩ ∈ log ∧ ⟨.auth .adminPasswordHash, storedHash⟩ ∈ log ∧
    credentialsMatch P creds ownerName storedHash

/-- The key had a session, and the clock had not reached its end. -/
def InSession (log : Log) (key : Str) : Prop :=
  ∃ lastAuth now, ⟨.auth (.sessionGet key), some lastAuth⟩ ∈ log ∧
    ⟨.auth .currentTimeMillis, now⟩ ∈ log ∧ now - lastAuth < SESSION_TIMEOUT_MS

/-- The message a task hands to `handleAdminCommand`. -/
def adminMessage : Task → Option Message
  | .login message | .queued message true => some message
  | .queued _ false => none

/-- The only handler of admin commands a task enters is the one it is for. -/
def EntersFor (task : Task) : EngineOp → Prop
  | .sync (.begin .admin handled) => adminMessage task = some handled
  | _ => True

theorem bracket_calls {C : EngineOp → Prop} {handler : Handler} {message : Message}
    {body : Engine Unit} (hb : C (.sync (.begin handler message))) (hbody : body.Calls C)
    (hf : C (.sync (.finish handler))) : (bracket handler message body).Calls C :=
  ⟨hb, fun _ ↦ hbody.tryFinally ⟨hf, fun _ ↦ trivial⟩⟩

theorem handle_calls {task : Task} {message : Message} {isAdmin : Bool}
    (h : isAdmin → adminMessage task = some message) :
    (handle P cfg stackDepth message isAdmin).Calls (EntersFor task) := by
  cases isAdmin with
  | true =>
    refine bracket_calls (h rfl) ((handleAdminCommand_calls ..).mono ?_) trivial
    rintro (op | op | op) hop <;> cases op <;> trivial
  | false => exact bracket_calls trivial (Prog.calls_lift (fun _ ↦ trivial) _) trivial

theorem coroutine_calls (task : Task) :
    (coroutine P cfg stackDepth task).Calls (EntersFor task) := by
  cases task with
  | login message => exact handle_calls P cfg stackDepth fun _ ↦ rfl
  | queued message isAdmin =>
    have h : (handle P cfg stackDepth message isAdmin).Calls (EntersFor (.queued message isAdmin)) :=
      handle_calls P cfg stackDepth fun hadmin ↦ by rw [hadmin]; rfl
    exact ⟨trivial, fun _ ↦ .tryFinally ⟨trivial, fun _ ↦ h.tryFinally ⟨trivial, fun _ ↦ trivial⟩⟩
      ⟨trivial, fun _ ↦ trivial⟩⟩

/-- What the calls before a launch say about the message handed over. -/
def Justified (message : Message) (log : Log) : EngineOp → Prop
  | .sync (.launch task) => ∀ handled, adminMessage task = some handled →
      handled.channel = message.channel ∧ handled.sender = message.sender ∧
        (message.channel = .chat ∨ LoggedIn P log message ∨ InSession log message.sender ∨
          isAdminNumber cfg message.sender)
  | _ => True

abbrev disc (message : Message) : Discipline engineSig Log :=
  .history (Justified P cfg message) fun _ _ _ ↦ True

theorem act_wp {message : Message} {log : Log} (p : Act Unit) :
    (liftAct p).wp (disc P cfg message) (fun _ _ ↦ True) log :=
  Prog.Calls.wp_allowed (C := fun op : EngineOp ↦ ∃ o, op = .act o) (Prog.calls_lift (fun o ↦ ⟨o, rfl⟩) p)
    (by rintro l _ ⟨o, rfl⟩; trivial)

theorem authenticate_wp {message : Message} {creds : AdminCredentials} {log : Log}
    (h : parseAdminMessage P message.body = some creds) :
    (liftAuth (authenticate P creds message.sender)).wp (disc P cfg message)
      (Prog.exits (fun (ok : Bool) log' ↦ ok → LoggedIn P log' message) fun _ _ ↦ True) log := by
  rw [liftAuth, Prog.wp_lift]
  refine ⟨trivial, fun ownerName _ ↦ ⟨trivial, fun storedHash _ ↦ ?_⟩⟩
  simp only [Prog.bind]
  split
  · refine ⟨trivial, fun now _ ↦ ⟨trivial, fun _ _ _ ↦ ?_⟩⟩
    exact ⟨creds, ownerName, storedHash, h, by simp [disc, Discipline.history, Discipline.pull],
      by simp [disc, Discipline.history, Discipline.pull], ‹_›⟩
  · intro hok
    cases hok

theorem hasActiveSession_wp {message : Message} {log : Log} :
    (liftAuth (hasActiveSession message.sender)).wp (disc P cfg message)
      (Prog.exits (fun (active : Bool) log' ↦ active → InSession log' message.sender) fun _ _ ↦ True) log := by
  rw [liftAuth, Prog.wp_lift]
  refine ⟨trivial, fun lastAuth _ ↦ ?_⟩
  cases lastAuth with
  | none => exact nofun
  | some lastAuth =>
    refine ⟨trivial, fun now _ ↦ ?_⟩
    simp only [Prog.bind]
    split
    · refine ⟨trivial, fun now' _ ↦ ⟨trivial, fun _ _ _ ↦ ?_⟩⟩
      exact ⟨lastAuth, now, by simp [disc, Discipline.history, Discipline.pull],
        by simp [disc, Discipline.history, Discipline.pull], ‹_›⟩
    · exact ⟨trivial, fun _ _ ↦ nofun⟩

theorem logIn_wp {message : Message} {creds : AdminCredentials} {log : Log}
    (h : parseAdminMessage P message.body = some creds) :
    (logIn P message creds).wp (disc P cfg message) (fun _ _ ↦ True) log := by
  rw [logIn, Prog.wp_bind]
  refine Prog.wp_mono (authenticate_wp P cfg h) ?_
  intro h' log' hok
  rcases h' with e | ok
  · trivial
  · simp only [Prog.exits_ok]
    split
    · split
      · exact act_wp P cfg _
      · refine ⟨?_, fun _ _ ↦ trivial⟩
        intro handled h'
        cases h'
        exact ⟨rfl, rfl, .inr (.inl (hok ‹_›))⟩
    · exact act_wp P cfg _

theorem enqueue_wp {message : Message} {log : Log} :
    (enqueue cfg message).wp (disc P cfg message) (fun _ _ ↦ True) log := by
  rw [enqueue, Prog.wp_bind]
  refine Prog.wp_mono (hasActiveSession_wp P cfg) ?_
  intro h log' hactive
  rcases h with e | active
  · trivial
  · cases active with
    | true =>
      refine ⟨?_, fun _ _ ↦ trivial⟩
      intro handled h
      cases h
      exact ⟨rfl, rfl, .inr (.inr (.inl (hactive rfl)))⟩
    | false =>
      refine ⟨?_, fun _ _ ↦ trivial⟩
      cases hn : isAdminNumber cfg message.sender with
      | true =>
        intro handled h
        cases h
        exact ⟨rfl, rfl, .inr (.inr (.inr hn))⟩
      | false => exact nofun

theorem onMessageReceived_wp (message : Message) (log : Log) :
    (onMessageReceived P cfg message).wp (disc P cfg message) (fun _ _ ↦ True) log := by
  refine ⟨trivial, fun paused _ ↦ ?_⟩
  simp only [Prog.bind]
  split
  · trivial
  · split
    · rename_i hchat
      refine ⟨?_, fun _ _ ↦ trivial⟩
      intro handled h
      cases h
      exact ⟨rfl, rfl, .inl hchat⟩
    · split
      · exact logIn_wp P cfg ‹_›
      · exact enqueue_wp P cfg

theorem justified_of_launch {A : Answers engineSig} {message handled : Message} {task : Task}
    (hl : .sync (.launch task) ∈ (onMessageReceived P cfg message).called A [])
    (ht : adminMessage task = some handled) :
    ∃ pre post, (onMessageReceived P cfg message).events A [] = pre ++ post ∧
      handled.channel = message.channel ∧ handled.sender = message.sender ∧
        (message.channel = .chat ∨ LoggedIn P pre message ∨ InSession pre message.sender ∨
          isAdminNumber cfg message.sender) := by
  obtain ⟨⟨op, r⟩, hmem, rfl⟩ := List.mem_map.mp hl
  obtain ⟨pre, post, heq⟩ := List.append_of_mem hmem
  have hwp := onMessageReceived_wp P cfg message []
  have hall := (Prog.along_of_wp (A := A) hwp fun _ _ _ _ ↦ trivial).1
  have hj := hall pre _ post heq handled ht
  exact ⟨pre, _, heq, by simpa using hj⟩

/-- The three ways into `handleAdminCommand`, with the senders that may be taken
for the admin number given by `same`. -/
def Admitted (same : Str → Str → Prop) (log : Log) (message : Message) : Prop :=
  LoggedIn P log message ∨ InSession log message.sender ∨
    (digits cfg.adminNumber ≠ [] ∧ PhoneNormalizer.looksLikePhoneNumber message.sender ∧
      same message.sender cfg.adminNumber)

def SameNumber (sender adminNumber : Str) : Prop := PhoneNormalizer.toE164 P sender = adminNumber

def SameLastTen (sender adminNumber : Str) : Prop :=
  PhoneNormalizer.lastTen sender = PhoneNormalizer.lastTen adminNumber

theorem LoggedIn.mono {log log' : Log} {message : Message} (h : LoggedIn P log message)
    (hs : log ⊆ log') : LoggedIn P log' message := by
  obtain ⟨creds, ownerName, storedHash, hp, ho, hh, hm⟩ := h
  exact ⟨creds, ownerName, storedHash, hp, hs ho, hs hh, hm⟩

theorem InSession.mono {log log' : Log} {key : Str} (h : InSession log key) (hs : log ⊆ log') :
    InSession log' key := by
  obtain ⟨lastAuth, now, hg, ht, hlt⟩ := h
  exact ⟨lastAuth, now, hs hg, hs ht, hlt⟩

/-- Who is treated as the admin outside the chat. Senders that are no phone
number, and an admin number without digits, are covered where the compared
digits differ. -/
theorem admin_entered_only_if {A : Answers engineSig} {message handled : Message}
    (hE : Enters P cfg stackDepth A message handled) (hchannel : handled.channel ≠ .chat)
    (hcmp : (PhoneNormalizer.looksLikePhoneNumber message.sender ∧ digits cfg.adminNumber ≠ []) ∨
      ¬SameLastTen message.sender cfg.adminNumber) :
    handled.sender = message.sender ∧
      Admitted P cfg SameLastTen ((onMessageReceived P cfg message).events A []) message := by
  obtain ⟨task, B, h, hl, hb⟩ := hE
  obtain ⟨e, he, heop⟩ := List.mem_map.mp hb
  have hfor := (coroutine_calls P cfg stackDepth task).mem_events he
  rw [heop] at hfor
  obtain ⟨pre, post, heq, hch, hsender, hj⟩ := justified_of_launch P cfg hl hfor
  have hsub : pre ⊆ (onMessageReceived P cfg message).events A [] := by simp [heq]
  refine ⟨hsender, ?_⟩
  rcases hj with hchat | hlogin | hsession | hnumber
  · exact absurd (hch.trans hchat) hchannel
  · exact .inl (hlogin.mono P hsub)
  · exact .inr (.inl (hsession.mono hsub))
  · have hsame : SameLastTen message.sender cfg.adminNumber :=
      beq_iff_eq.mp (Bool.and_eq_true_iff.mp hnumber).2
    obtain ⟨hphone, hdigit⟩ := hcmp.resolve_right (not_not_intro hsame)
    exact .inr (.inr ⟨hdigit, hphone, hsame⟩)

def usConfig : EngineConfig := ⟨"+16502530000", "Owner", "Aigentik"⟩

def text (sender body : String) : Message :=
  ⟨"m", .notification, sender, none, body, [], [], 0, []⟩

theorem admin_entered_from_own_number :
    (text "(650) 253-0000" "status").sender = (text "(650) 253-0000" "status").sender ∧
      Admitted asciiPlatform usConfig SameLastTen
        ((onMessageReceived asciiPlatform usConfig (text "(650) 253-0000" "status")).events
          (fun _ ↦ quiet) []) (text "(650) 253-0000" "status") :=
  admin_entered_only_if asciiPlatform usConfig 1
    ⟨.queued (text "(650) 253-0000" "status") true, fun _ ↦ quiet, [], by decide +kernel,
      by decide +kernel⟩ (by decide) (.inl ⟨by decide +kernel, by decide +kernel⟩)

/-- A number of another country with the admin's last ten digits. -/
theorem foreign_number_enters :
    Enters asciiPlatform usConfig 1 (fun _ ↦ quiet) (text "+446502530000" "status")
        (text "+446502530000" "status") ∧
      (text "+446502530000" "status").channel ≠ .chat ∧
      ¬Admitted asciiPlatform usConfig (SameNumber asciiPlatform)
        ((onMessageReceived asciiPlatform usConfig (text "+446502530000" "status")).events
          (fun _ ↦ quiet) []) (text "+446502530000" "status") := by
  refine ⟨⟨.queued (text "+446502530000" "status") true, fun _ ↦ quiet, [], by decide +kernel,
    by decide +kernel⟩, by decide, ?_⟩
  intro h
  rcases h with ⟨creds, _, _, hparse, -⟩ | ⟨lastAuth, _, hget, -⟩ | ⟨-, -, hsame⟩
  · have : parseAdminMessage asciiPlatform (text "+446502530000" "status").body = none := by
      decide +kernel
    simp [this] at hparse
  · have hnone : some lastAuth = none := Prog.answer_of_mem (S := engineSig) quiet hget
    cases hnone
  · revert hsame
    unfold SameNumber
    decide +kernel

end Aigentik.Admission
