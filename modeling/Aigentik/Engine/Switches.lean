import Aigentik.Engine.PipelineRules

namespace Aigentik.Switches

open Strings Effects MessageEngine EmailMonitor Pipeline
open ChannelManager (Channel)

/-- The calls of the pipeline, and the setter of `isPaused`. -/
inductive SwitchOp
  | system (op : SystemOp)
  | setPaused (paused : Bool)

abbrev switchSig : Sig where
  Op := SwitchOp
  Resp
    | .system op => systemSig.Resp op
    | .setPaused _ => Unit

abbrev systemHom : systemSig.Hom switchSig where
  op := .system
  resp _ := .refl _

abbrev Switching := Prog switchSig Throwable

/-- What arrives, and what the owner switches. -/
inductive Input
  | arrival (input : Pipeline.Input)
  | enable (channel : Channel)
  | disable (channel : Channel)
  | setPaused (paused : Bool)

variable (P : Platform) (cfg : EngineConfig) (stackDepth : ℕ)

def call (op : SwitchOp) : Switching Unit := Prog.call (S := switchSig) op fun _ ↦ .ret ()

def entry : Input → Switching Unit
  | .arrival input => (Pipeline.entry P cfg input).lift systemHom
  | .enable channel => call (.system (.engine (.act (.channelEnable channel))))
  | .disable channel => call (.system (.engine (.act (.channelDisable channel))))
  | .setPaused paused => call (.setPaused paused)

def spawned : SwitchOp → Option (Switching Unit)
  | .system op => (Pipeline.spawned P cfg stackDepth op).map (Prog.lift systemHom)
  | .setPaused _ => none

/-- A switch, with the time at which it was turned last. -/
structure Gate where
  on : Bool
  since : ℕ

namespace Gate

def set (g : Gate) (on : Bool) (now : ℕ) : Gate := if g.on = on then g else ⟨on, now⟩

/-- If the switch is off, then the time is before that. -/
def Before (g : Gate) (time : ℕ) : Prop := g.on = false → time < g.since

theorem before_of_on {g : Gate} (h : g.on = true) (time : ℕ) : g.Before time := by
  intro hoff
  rw [h] at hoff
  cases hoff

theorem Before.set {g : Gate} {time now : ℕ} (h : g.Before time) (hlt : time < now) (on : Bool) :
    (g.set on now).Before time := by
  unfold Gate.set
  split
  · exact h
  · exact fun _ ↦ hlt

end Gate

/-- A public message that was given to the queue, with the channel that was checked for it, and
the times of that check and of the pause check. -/
structure Admission where
  message : Message
  channel : Channel
  checked : ℕ
  unpaused : ℕ

/-- The switches over the pipeline's state. The rest records when each thread last found a channel
on and the engine not paused, the messages admitted, and the messages for which the model was asked
for an automatic reply, each with the time. -/
structure Shared where
  system : Pipeline.Shared
  now : ℕ
  channels : Channel → Gate
  active : Gate
  checked : ℕ → Channel × ℕ
  unpaused : ℕ → ℕ
  admitted : List Admission
  generated : List (Message × ℕ)

namespace Shared

def init (enabled : Channel → Bool) (paused : Bool) : Shared :=
  ⟨.init, 1, fun channel ↦ ⟨enabled channel, 0⟩, ⟨!paused, 0⟩, fun _ ↦ (.sms, 0), fun _ ↦ 0, [], []⟩

def answer (s : Shared) : (op : SystemOp) → systemSig.Resp op → systemSig.Resp op
  | .mail (.channelIsEnabled channel), _ | .listener (.channelIsEnabled channel), _
  | .engine (.act (.channelIsEnabled channel)), _ => (s.channels channel).on
  | .engine (.sync .isPaused), _ => !s.active.on
  | _, offer => offer

def pass (s : Shared) (thread : ℕ) (channel : Channel) : Shared :=
  { s with checked := Function.update s.checked thread (channel, s.now), now := s.now + 1 }

def unpause (s : Shared) (thread : ℕ) : Shared :=
  { s with unpaused := Function.update s.unpaused thread s.now, now := s.now + 1 }

def setChannel (s : Shared) (channel : Channel) (on : Bool) : Shared :=
  { s with channels := Function.update s.channels channel ((s.channels channel).set on s.now), now := s.now + 1 }

def setActive (s : Shared) (on : Bool) : Shared := { s with active := s.active.set on s.now, now := s.now + 1 }

def enqueue (s : Shared) (thread : ℕ) (message : Message) : Shared :=
  { s with admitted := s.admitted ++ [⟨message, (s.checked thread).1, (s.checked thread).2, s.unpaused thread⟩] }

/-- The model is asked for the reply to the public message that the thread handles. -/
def generate (s : Shared) (thread : ℕ) : Shared :=
  match s.system.handling thread with
  | some (.publicMessage, message) => { s with generated := s.generated ++ [(message, s.now)] }
  | _ => s

def note (s : Shared) (thread : ℕ) : (op : SystemOp) → systemSig.Resp op → Shared
  | .mail (.channelIsEnabled channel), true | .listener (.channelIsEnabled channel), true => s.pass thread channel
  | .engine (.sync .isPaused), false => s.unpause thread
  | .engine (.sync (.launch (.queued message false))), _ => s.enqueue thread message
  | .engine (.act (.channelEnable channel)), _ => s.setChannel channel true
  | .engine (.act (.channelDisable channel)), _ => s.setChannel channel false
  | .engine (.act (.complete _)), _ => s.generate thread
  | _, _ => s

end Shared

def act (thread : ℕ) : (op : SwitchOp) → switchSig.Resp op → Shared → Option (switchSig.Resp op × Shared)
  | .setPaused paused, _, s => some ((), s.setActive !paused)
  | .system op, offer, s => (Pipeline.act P thread op (s.answer op offer) s.system).map fun (r, system) ↦
    (r, { s.note thread op r with system })

/-- Any number of e-mails, notifications and turns of the switches. -/
def machine : Machine switchSig Throwable Shared Input where
  act := act P
  entry := entry P cfg
  spawned := spawned P cfg stackDepth

abbrev Configuration := Config switchSig Throwable Shared

/-! The stages of a thread -/

/-- Where a thread is: it has found its channel on, and the engine not paused; or it is to
answer a public message, or answers it. -/
inductive Stage
  | idle
  | checked
  | received
  | queued (message : Message)
  | answering (message : Message)

def Stage.Knows : Stage → Handler → Message → Prop
  | .answering message, .publicMessage, m => m = message
  | _, .publicMessage, _ => False
  | _, .admin, _ => True

def Stage.pass : Stage → Stage
  | .idle => .checked
  | l => l

def Stage.receive : Stage → Stage
  | .checked => .received
  | l => l

def disc : Discipline systemSig Stage where
  allow
    | l, .engine (.sync (.launch (.queued _ false))) => l = .received
    | l, .engine (.sync (.begin .publicMessage message)) => l = .queued message
    | _, _ => True
  may _ _ _ := True
  next
    | l, .mail (.channelIsEnabled _), enabled | l, .listener (.channelIsEnabled _), enabled =>
      if enabled then l.pass else l
    | l, .engine (.sync .isPaused), paused => if paused then l else l.receive
    | _, .engine (.sync (.begin .publicMessage message)), _ => .answering message
    | _, .engine (.sync (.finish _)), _ => .idle
    | l, _, _ => l

def waiting : Handler → Message → Stage
  | .publicMessage, message => .queued message
  | .admin, _ => .idle

variable {P cfg stackDepth} {l : Stage} {m : Message}

/-- Every call that neither queues a public message nor enters or leaves a handler. -/
def Quiet : SystemOp → Prop
  | .engine (.sync (.launch (.queued _ false))) | .engine (.sync (.begin ..)) | .engine (.sync (.finish _)) => False
  | _ => True

theorem quiet_next {op : SystemOp} (hop : Quiet op) :
    disc.allow l op ∧ ∀ r, disc.next l op r = l ∨ disc.next l op r = l.pass ∨ disc.next l op r = l.receive := by
  have stays (h : disc.allow l op) (hnext : ∀ r, disc.next l op r = l) :
      disc.allow l op ∧ ∀ r, disc.next l op r = l ∨ disc.next l op r = l.pass ∨ disc.next l op r = l.receive :=
    ⟨h, fun r ↦ .inl (hnext r)⟩
  rcases op with op | op | op
  · rcases op with op | op | op
    · exact stays trivial fun _ ↦ rfl
    · exact stays trivial fun _ ↦ rfl
    · cases op with
      | launch task =>
        match task with
        | .login _ => exact stays trivial fun _ ↦ rfl
        | .queued _ true => exact stays trivial fun _ ↦ rfl
        | .queued _ false => exact hop.elim
      | isPaused => exact ⟨trivial, fun paused ↦ by cases paused <;> simp [disc]⟩
      | begin | finish => exact hop.elim
      | _ => exact stays trivial fun _ ↦ rfl
  · cases op with
    | channelIsEnabled channel => exact ⟨trivial, fun enabled ↦ by cases enabled <;> simp [disc]⟩
    | _ => exact stays trivial fun _ ↦ rfl
  · cases op with
    | channelIsEnabled channel => exact ⟨trivial, fun enabled ↦ by cases enabled <;> simp [disc]⟩
    | _ => exact stays trivial fun _ ↦ rfl

def Stage.Checked (l : Stage) : Prop := l = .checked ∨ l = .received

theorem quiet_keeps {I : Stage → Prop} (hI : ∀ l, I l → I l.pass ∧ I l.receive) {op : SystemOp} (hop : Quiet op) :
    Keeps disc I op := by
  intro l hl
  obtain ⟨hallow, hnext⟩ := quiet_next (l := l) hop
  refine ⟨hallow, fun r _ ↦ ?_⟩
  rcases hnext r with h | h | h <;> rw [h]
  · exact hl
  · exact (hI l hl).1
  · exact (hI l hl).2

theorem keeps_answering {op : SystemOp} (hop : Quiet op) : Keeps disc (· = .answering m) op :=
  quiet_keeps (fun l hl ↦ by subst hl; exact ⟨rfl, rfl⟩) hop

theorem keeps_received {op : SystemOp} (hop : Quiet op) : Keeps disc (· = .received) op :=
  quiet_keeps (fun l hl ↦ by subst hl; exact ⟨rfl, rfl⟩) hop

theorem keeps_checked {op : SystemOp} (hop : Quiet op) : Keeps disc Stage.Checked op := by
  refine quiet_keeps (fun l hl ↦ ?_) hop
  rcases hl with rfl | rfl
  · exact ⟨.inl rfl, .inr rfl⟩
  · exact ⟨.inr rfl, .inr rfl⟩

theorem keeps_any {op : SystemOp} (hop : Quiet op) : Keeps disc (fun _ ↦ True) op :=
  quiet_keeps (fun _ _ ↦ ⟨trivial, trivial⟩) hop

theorem keepsReplies {I : Stage → Prop} (hI : ∀ l, I l → I l.pass ∧ I l.receive) : KeepsReplies disc I where
  route _ _ := quiet_keeps hI trivial
  send _ _ := quiet_keeps hI trivial

theorem keeps_entryCall {message : Message} {op : EngineOp} (hop : EntryCall message op) :
    Keeps disc (· = .received) (.engine op) := by
  rcases op with op | op | op
  · exact keeps_received trivial
  · exact keeps_received trivial
  · cases op with
    | launch task =>
      match task with
      | .login _ => exact keeps_received trivial
      | .queued _ true => exact keeps_received trivial
      | .queued _ false => exact fun l hl ↦ ⟨hl, fun _ _ ↦ hl⟩
    | isPaused => exact keeps_received trivial
    | _ => exact hop.elim

/-- Where the channel has been checked, a message may be handed over. -/
theorem receive_wp (message : Message) (hl : l.Checked) :
    (receive P cfg message).wp disc (fun _ ↦ Stage.Checked) l := by
  have hrest := (onMessageReceived_calls P cfg message).2 false
  refine ⟨trivial, fun paused _ ↦ ?_⟩
  cases paused with
  | true => exact hl
  | false =>
    have hreceived : disc.next l (.engine (.sync .isPaused)) false = .received := by
      rcases hl with rfl | rfl <;> rfl
    rw [hreceived]
    have hI : ∀ l, l = Stage.received → l.pass = .received ∧ l.receive = .received := by
      intro l heq
      subst heq
      exact ⟨rfl, rfl⟩
    refine Prog.wp_mono (hrest.wp_subst (I := (· = Stage.received)) (fun l op hl hop ↦ ?_) rfl) fun _ _ hl ↦ .inr hl
    exact engineLayer_wp (keepsReplies hI) (keeps_entryCall hop) hl

theorem mail_wp {α : Type} (p : Mail α) (hl : l.Checked) :
    (p.subst (mailLayer P cfg)).wp disc (fun _ ↦ Stage.Checked) l := by
  refine Prog.wp_subst p (fun l op hl ↦ ?_) hl
  cases op with
  | hand message => exact (Prog.wp_catching _).mpr (receive_wp message hl)
  | _ => exact call_wp (keeps_checked trivial) hl

theorem listener_wp {α : Type} (p : AigentikNotificationListener.Listener α) (hl : l.Checked) :
    (p.subst (listenerLayer P cfg)).wp disc (fun _ ↦ Stage.Checked) l := by
  refine Prog.wp_subst p (fun l op hl ↦ ?_) hl
  cases op with
  | hand message => exact (Prog.wp_catching _).mpr (receive_wp message hl)
  | _ => exact call_wp (keeps_checked trivial) hl

theorem entry_wp (input : Pipeline.Input) : (Pipeline.entry P cfg input).wp disc (fun _ _ ↦ True) .idle := by
  cases input with
  | email email =>
    change ((processEmail P email).subst (mailLayer P cfg)).wp _ _ _
    unfold processEmail
    split
    · refine ⟨trivial, fun enabled _ ↦ ?_⟩
      cases enabled with
      | false => trivial
      | true =>
        cases GmailApiClient.parseGoogleVoiceEmail email with
        | none => trivial
        | some gvm => exact Prog.wp_mono (mail_wp (processGVoiceText gvm) (.inl rfl)) fun _ _ _ ↦ trivial
    · refine ⟨trivial, fun enabled _ ↦ ?_⟩
      cases enabled with
      | false => trivial
      | true => exact Prog.wp_mono (mail_wp (processRegularEmail P email) (.inl rfl)) fun _ _ _ ↦ trivial
  | posted sbn =>
    change ((AigentikNotificationListener.onNotificationPosted P sbn).subst (listenerLayer P cfg)).wp _ _ _
    rcases AigentikNotificationListener.onNotificationPosted_cases P sbn with h | h | ⟨-, -, next, -, h⟩
    · rw [h]
      trivial
    · rw [h]
      exact ⟨trivial, fun _ _ ↦ trivial⟩
    · rw [h]
      refine ⟨trivial, fun enabled _ ↦ ?_⟩
      cases enabled with
      | false => trivial
      | true => exact Prog.wp_mono (listener_wp next (.inl rfl)) fun _ _ _ ↦ trivial
  | removed sbn => exact ⟨trivial, fun _ _ ↦ ⟨trivial, fun _ _ ↦ trivial⟩⟩

theorem quiet_of_handlerCall {op : EngineOp} (hop : HandlerCall op) : Quiet (.engine op) := by
  cases op with
  | auth _ => trivial
  | act _ => trivial
  | sync op => cases op <;> trivial

theorem spawn_wp {op : SystemOp} {p : Prog systemSig Throwable Unit}
    (hp : Pipeline.spawned P cfg stackDepth op = some p) :
    p.wp disc (fun _ _ ↦ True) (spawnLocal .idle waiting op) := by
  have admin (message : Message) : ((bracket .admin message (handleAdminCommand P cfg stackDepth message false)).subst
      (engineLayer P)).wp disc (fun _ _ ↦ True) (waiting .admin message) := by
    refine bracket_wp (I := fun _ ↦ True) (handleAdminCommand_calls ..) trivial (fun l op hl hop ↦ ?_) (fun _ ↦ trivial)
      fun _ ↦ trivial
    exact engineLayer_wp (keepsReplies fun _ _ ↦ ⟨trivial, trivial⟩)
      (keeps_any (quiet_of_handlerCall hop)) trivial
  have answer (message : Message) :
      ((bracket .publicMessage message (liftAct (handlePublicMessage P cfg message))).subst (engineLayer P)).wp disc
        (fun _ _ ↦ True) (waiting .publicMessage message) := by
    have hI : ∀ l, l = Stage.answering message → l.pass = .answering message ∧ l.receive = .answering message := by
      intro l heq
      subst heq
      exact ⟨rfl, rfl⟩
    have hcalls : (liftAct (handlePublicMessage P cfg message)).Calls HandlerCall := Prog.calls_lift (fun _ ↦ trivial) _
    refine bracket_wp (I := (· = Stage.answering message)) hcalls rfl (fun l op hl hop ↦ ?_)
      (fun _ ↦ rfl) fun _ ↦ trivial
    exact engineLayer_wp (keepsReplies hI) (keeps_answering (quiet_of_handlerCall hop)) hl
  refine Pipeline.spawn_wp admin answer (fun l op hop ↦ ?_) (fun _ ↦ trivial) hp
  cases op <;> first | exact hop.elim | exact ⟨trivial, fun _ ↦ rfl⟩

theorem Stage.Knows.pass {handler : Handler} (h : l.Knows handler m) :
    l.pass.Knows handler m ∧ l.receive.Knows handler m := by
  cases handler with
  | admin => cases l <;> exact ⟨trivial, trivial⟩
  | publicMessage => cases l <;> first | exact h.elim | exact ⟨h, h⟩

theorem follows {op : SystemOp} (r : systemSig.Resp op) : Follows Stage.Knows l (disc.next l op r) op := by
  have same (handler : Handler) (m : Message) : l.Knows handler m → l.Knows handler m := id
  rcases op with op | op | op
  · rcases op with op | op | op
    · exact same
    · exact same
    · cases op with
      | begin handler message => cases handler <;> first | rfl | (cases l <;> trivial)
      | finish handler => trivial
      | isPaused =>
        cases r with
        | true => exact same
        | false => exact fun _ _ h ↦ h.pass.2
      | _ => exact same
  · cases op with
    | channelIsEnabled channel =>
      cases r with
      | true => exact fun _ _ h ↦ h.pass.1
      | false => exact same
    | _ => exact same
  · cases op with
    | channelIsEnabled channel =>
      cases r with
      | true => exact fun _ _ h ↦ h.pass.1
      | false => exact same
    | _ => exact same

/-! What was found before the switches were turned off -/

/-- The channel was found on, before a switching off that still lasts. -/
def Passed (s : Shared) (c : Channel × ℕ) : Prop := c.2 < s.now ∧ (s.channels c.1).Before c.2

def Unpaused (s : Shared) (time : ℕ) : Prop := time < s.now ∧ s.active.Before time

def Admitted (s : Shared) (message : Message) : Prop := ∃ a ∈ s.admitted, a.message = message

def Known (s : Shared) (thread : ℕ) : Stage → Prop
  | .idle => True
  | .checked => Passed s (s.checked thread)
  | .received => Passed s (s.checked thread) ∧ Unpaused s (s.unpaused thread)
  | .queued message | .answering message => Admitted s message

structure Inv (s : Shared) (ls : List Stage) : Prop where
  known : ∀ i l, ls[i]? = some l → Known s i l
  admitted : ∀ a ∈ s.admitted, Passed s (a.channel, a.checked) ∧ Unpaused s a.unpaused
  running : Tracks Stage.Knows s.system ls
  generated : ∀ x ∈ s.generated, Admitted s x.1
  replied : ∀ m, some (.publicMessage, m) ∈ s.system.repliedIn → Admitted s m

/-- A later state: what was found before is still so. -/
structure Later (s s' : Shared) : Prop where
  passed : ∀ c, Passed s c → Passed s' c
  unpaused : ∀ time, Unpaused s time → Unpaused s' time
  admitted : s.admitted ⊆ s'.admitted

variable {s s' : Shared} {ls new : List Stage} {i : ℕ} {l' : Stage}

theorem Admitted.later (h : Admitted s m) (hlater : Later s s') : Admitted s' m := by
  obtain ⟨a, ha, hm⟩ := h
  exact ⟨a, hlater.admitted ha, hm⟩

theorem Known.later (h : Known s i l) (hlater : Later s s') (hchecked : s'.checked i = s.checked i)
    (hunpaused : s'.unpaused i = s.unpaused i) : Known s' i l := by
  cases l with
  | idle => trivial
  | checked => exact (congrArg (Passed s') hchecked).mpr (hlater.passed _ h)
  | received =>
    exact ⟨(congrArg (Passed s') hchecked).mpr (hlater.passed _ h.1),
      (congrArg (Unpaused s') hunpaused).mpr (hlater.unpaused _ h.2)⟩
  | queued m => exact Admitted.later h hlater
  | answering m => exact Admitted.later h hlater

/-- What a step of one thread has to show for itself, and leaves to the others. -/
structure Step (s s' : Shared) (i : ℕ) : Prop where
  later : Later s s'
  other : ∀ j, j ≠ i → s'.checked j = s.checked j ∧ s'.unpaused j = s.unpaused j
  admitted : ∀ a ∈ s'.admitted, a ∈ s.admitted ∨ Passed s' (a.channel, a.checked) ∧ Unpaused s' a.unpaused
  generated : ∀ x ∈ s'.generated, x ∈ s.generated ∨ Admitted s' x.1
  replied : ∀ m, some (.publicMessage, m) ∈ s'.system.repliedIn →
    some (.publicMessage, m) ∈ s.system.repliedIn ∨ Admitted s' m

theorem Inv.step (h : Inv s ls) (hstep : Step s s' i) (hown : Known s' i l')
    (hnew : ∀ x ∈ new, ∀ j, Known s' j x) (htracks : Tracks Stage.Knows s'.system (ls.set i l' ++ new)) :
    Inv s' (ls.set i l' ++ new) := by
  refine ⟨fun j x hx ↦ ?_, fun a ha ↦ ?_, htracks, fun x hx ↦ ?_, fun m hm ↦ ?_⟩
  · rcases getElem?_step hx with ⟨rfl, rfl⟩ | ⟨hne, hx⟩ | ⟨-, hx⟩
    · exact hown
    · exact (h.known j x hx).later hstep.later (hstep.other j hne).1 (hstep.other j hne).2
    · exact hnew x hx j
  · rcases hstep.admitted a ha with ha | ha
    · exact ⟨hstep.later.passed _ (h.admitted a ha).1, hstep.later.unpaused _ (h.admitted a ha).2⟩
    · exact ha
  · rcases hstep.generated x hx with hx | hx
    · exact (h.generated x hx).later hstep.later
    · exact hx
  · rcases hstep.replied m hm with hm | hm
    · exact (h.replied m hm).later hstep.later
    · exact hm

theorem later_of_same (hnow : s'.now = s.now) (hchannels : s'.channels = s.channels) (hactive : s'.active = s.active)
    (hadmitted : s.admitted ⊆ s'.admitted) : Later s s' := by
  refine ⟨fun c h ↦ ?_, fun time h ↦ ?_, hadmitted⟩
  · rw [Passed, hnow, hchannels]
    exact h
  · rw [Unpaused, hnow, hactive]
    exact h

theorem later_of_switch (hnow : s'.now = s.now + 1)
    (hchannels : ∀ channel, s'.channels channel = s.channels channel ∨
      ∃ on, s'.channels channel = (s.channels channel).set on s.now)
    (hactive : s'.active = s.active ∨ ∃ on, s'.active = s.active.set on s.now)
    (hadmitted : s'.admitted = s.admitted) : Later s s' := by
  refine ⟨fun c h ↦ ⟨?_, ?_⟩, fun time h ↦ ⟨?_, ?_⟩, hadmitted ▸ List.Subset.refl _⟩
  · rw [hnow]
    exact Nat.lt_succ_of_lt h.1
  · rcases hchannels c.1 with heq | ⟨on, heq⟩ <;> rw [heq]
    · exact h.2
    · exact h.2.set h.1 on
  · rw [hnow]
    exact Nat.lt_succ_of_lt h.1
  · rcases hactive with heq | ⟨on, heq⟩ <;> rw [heq]
    · exact h.2
    · exact h.2.set h.1 on

section Call

variable {op : SystemOp} {offer r : systemSig.Resp op} {system : Pipeline.Shared}

/-- A thread in the handler of a public message knows that it was admitted. -/
theorem Inv.handled (h : Inv s ls) (hi : ls[i]? = some l) (hm : s.system.handling i = some (.publicMessage, m)) :
    Admitted s m := by
  have hknows := h.running.known hi hm
  have hknown := h.known i l hi
  cases l with
  | answering message =>
    cases hknows
    exact hknown
  | _ => exact hknows.elim

def Replied (s : Shared) (system : Pipeline.Shared) : Prop :=
  ∀ m, some (.publicMessage, m) ∈ system.repliedIn → some (.publicMessage, m) ∈ s.system.repliedIn ∨ Admitted s m

theorem Inv.replied_of_act (h : Inv s ls) (hi : ls[i]? = some l)
    (hact : Pipeline.act P i op offer s.system = some (r, system)) : Replied s system := by
  intro m hm
  rcases act_repliedIn hact hm with hm | hm
  · exact .inl hm
  · exact .inr (h.handled hi hm.symm)

theorem Step.same (hreplied : Replied s system) : Step s { s with system } i where
  later := later_of_same rfl rfl rfl (List.Subset.refl _)
  other _ _ := ⟨rfl, rfl⟩
  admitted _ := .inl
  generated _ := .inl
  replied := hreplied

theorem Step.switch (hlater : Later s s')
    (hchecked : ∀ j, j ≠ i → s'.checked j = s.checked j ∧ s'.unpaused j = s.unpaused j)
    (hadmitted : s'.admitted = s.admitted) (hgenerated : s'.generated = s.generated) (hreplied : Replied s s'.system) :
    Step s s' i where
  later := hlater
  other := hchecked
  admitted _ ha := .inl (hadmitted ▸ ha)
  generated _ hx := .inl (hgenerated ▸ hx)
  replied m hm := (hreplied m hm).imp_right fun h ↦ h.later hlater

theorem Step.pass (channel : Channel) (hreplied : Replied s system) : Step s { s.pass i channel with system } i := by
  refine Step.switch (later_of_switch rfl (fun _ ↦ .inl rfl) (.inl rfl) rfl) (fun j hj ↦ ⟨?_, rfl⟩) rfl rfl hreplied
  exact Function.update_of_ne hj _ _

theorem Step.unpause (hreplied : Replied s system) : Step s { s.unpause i with system } i := by
  refine Step.switch (later_of_switch rfl (fun _ ↦ .inl rfl) (.inl rfl) rfl) (fun j hj ↦ ⟨rfl, ?_⟩) rfl rfl hreplied
  exact Function.update_of_ne hj _ _

theorem Step.setChannel (channel : Channel) (on : Bool) (hreplied : Replied s system) :
    Step s { s.setChannel channel on with system } i := by
  refine Step.switch (later_of_switch rfl (fun c ↦ ?_) (.inl rfl) rfl) (fun _ _ ↦ ⟨rfl, rfl⟩) rfl rfl hreplied
  by_cases hc : c = channel
  · subst hc
    exact .inr ⟨on, Function.update_self ..⟩
  · exact .inl (Function.update_of_ne hc _ _)

theorem Step.setActive (on : Bool) : Step s (s.setActive on) i :=
  Step.switch (later_of_switch rfl (fun _ ↦ .inl rfl) (.inr ⟨on, rfl⟩) rfl) (fun _ _ ↦ ⟨rfl, rfl⟩) rfl rfl fun _ ↦ .inl

theorem Step.enqueue (message : Message) (h : Known s i .received) (hreplied : Replied s system) :
    Step s { s.enqueue i message with system } i := by
  have hlater : Later s { s.enqueue i message with system } :=
    later_of_same rfl rfl rfl (List.subset_append_left _ _)
  refine ⟨hlater, fun _ _ ↦ ⟨rfl, rfl⟩, fun a ha ↦ ?_, fun _ ↦ .inl,
    fun m hm ↦ (hreplied m hm).imp_right fun h ↦ h.later hlater⟩
  rcases List.mem_append.mp ha with ha | ha
  · exact .inl ha
  · rw [List.mem_singleton.mp ha]
    exact .inr ⟨hlater.passed _ h.1, hlater.unpaused _ h.2⟩

theorem Step.generate (h : ∀ m, s.system.handling i = some (.publicMessage, m) → Admitted s m)
    (hreplied : Replied s system) : Step s { s.generate i with system } i := by
  unfold Shared.generate
  split
  · rename_i message hm
    have hlater : Later s { s with generated := s.generated ++ [(message, s.now)], system } :=
      later_of_same rfl rfl rfl (List.Subset.refl _)
    refine ⟨hlater, fun _ _ ↦ ⟨rfl, rfl⟩, fun _ ↦ .inl, fun x hx ↦ ?_, hreplied⟩
    rcases List.mem_append.mp hx with hx | hx
    · exact .inl hx
    · rw [List.mem_singleton.mp hx]
      exact .inr (h message hm)
  · exact Step.same hreplied

theorem generate_checks (s : Shared) (i : ℕ) :
    (s.generate i).checked = s.checked ∧ (s.generate i).unpaused = s.unpaused := by
  unfold Shared.generate
  split <;> exact ⟨rfl, rfl⟩

theorem Known.pass (h : Known s i l) {channel : Channel} (hon : (s.channels channel).on = true) :
    Known { s.pass i channel with system } i l.pass := by
  have hlater : Later s { s.pass i channel with system } := later_of_switch rfl (fun _ ↦ .inl rfl) (.inl rfl) rfl
  have hpassed : Passed { s.pass i channel with system } (({ s.pass i channel with system } : Shared).checked i) := by
    have hupdate : (s.pass i channel).checked i = (channel, s.now) := Function.update_self ..
    rw [hupdate]
    exact ⟨Nat.lt_succ_self _, Gate.before_of_on hon _⟩
  cases l with
  | idle => exact hpassed
  | checked => exact hpassed
  | received => exact ⟨hpassed, hlater.unpaused _ h.2⟩
  | queued m => exact Admitted.later h hlater
  | answering m => exact Admitted.later h hlater

theorem Known.unpause (h : Known s i l) (hon : s.active.on = true) :
    Known { s.unpause i with system } i l.receive := by
  have hlater : Later s { s.unpause i with system } := later_of_switch rfl (fun _ ↦ .inl rfl) (.inl rfl) rfl
  have hunpaused : Unpaused { s.unpause i with system } (({ s.unpause i with system } : Shared).unpaused i) := by
    have hupdate : (s.unpause i).unpaused i = s.now := Function.update_self ..
    rw [hupdate]
    exact ⟨Nat.lt_succ_self _, Gate.before_of_on hon _⟩
  cases l with
  | idle => trivial
  | checked => exact ⟨hlater.passed _ h, hunpaused⟩
  | received => exact ⟨hlater.passed _ h.1, hunpaused⟩
  | queued m => exact Admitted.later h hlater
  | answering m => exact Admitted.later h hlater

theorem Inv.call (h : Inv s ls) (hi : ls[i]? = some l) (hallow : disc.allow l op)
    (hact : Pipeline.act P i op (s.answer op offer) s.system = some (r, system)) :
    Inv { s.note i op r with system } (ls.set i (disc.next l op r) ++ launched .idle waiting op) := by
  have htracks : Tracks Stage.Knows system (ls.set i (disc.next l op r) ++ launched .idle waiting op) :=
    h.running.step hi hact (follows r)
  have hreplied : Replied s system := h.replied_of_act hi hact
  have hl : Known s i l := h.known i l hi
  have same {s' : Shared} {new : List Stage} (hstep : Step s s' i) (hchecked : s'.checked i = s.checked i)
      (hunpaused : s'.unpaused i = s.unpaused i) (hnew : ∀ x ∈ new, x = .idle)
      (htracks : Tracks Stage.Knows s'.system (ls.set i l ++ new)) : Inv s' (ls.set i l ++ new) := by
    refine h.step hstep (hl.later hstep.later hchecked hunpaused) (fun x hx j ↦ ?_) htracks
    rw [hnew x hx]
    trivial
  have none : ∀ x ∈ ([] : List Stage), x = .idle := by simp
  rcases op with op | op | op
  · rcases op with op | op | op
    · exact same (.same hreplied) rfl rfl none htracks
    · cases op with
      | channelEnable channel => exact same (.setChannel channel true hreplied) rfl rfl none htracks
      | channelDisable channel => exact same (.setChannel channel false hreplied) rfl rfl none htracks
      | complete prompt =>
        have hchecks := generate_checks s i
        exact same (.generate (fun m hm ↦ h.handled hi hm) hreplied) (congrFun hchecks.1 i) (congrFun hchecks.2 i)
          none htracks
      | _ => exact same (.same hreplied) rfl rfl none htracks
    · cases op with
      | isPaused =>
        have hr : r = !s.active.on := by
          cases hact
          rfl
        cases r with
        | true => exact same (.same hreplied) rfl rfl none htracks
        | false =>
          have hon : s.active.on = true := by simpa using hr.symm
          exact h.step (.unpause hreplied) (hl.unpause hon) (fun x hx ↦ by cases hx) htracks
      | launch task =>
        match task with
        | .login message => exact same (.same hreplied) rfl rfl (by simp [launched, spawnLocal, waiting]) htracks
        | .queued message true => exact same (.same hreplied) rfl rfl (by simp [launched, spawnLocal, waiting]) htracks
        | .queued message false =>
          have hreceived : l = .received := hallow
          subst hreceived
          have hstep : Step s { s.enqueue i message with system } i := .enqueue message hl hreplied
          refine h.step hstep (hl.later hstep.later rfl rfl) (fun x hx j ↦ ?_) htracks
          rw [List.mem_singleton.mp hx]
          exact ⟨_, List.mem_append_right _ (List.mem_singleton_self _), rfl⟩
      | begin handler message =>
        cases handler with
        | admin => exact same (.same hreplied) rfl rfl none htracks
        | publicMessage =>
          have hqueued : l = .queued message := hallow
          subst hqueued
          have hstep : Step s { s with system } i := .same hreplied
          exact h.step hstep (Admitted.later hl hstep.later) (fun x hx ↦ by cases hx) htracks
      | finish handler => exact h.step (.same hreplied) trivial (fun x hx ↦ by cases hx) htracks
      | _ => exact same (.same hreplied) rfl rfl none htracks
  · cases op with
    | channelIsEnabled channel =>
      have hr : r = (s.channels channel).on := by
        cases hact
        rfl
      cases r with
      | false => exact same (.same hreplied) rfl rfl none htracks
      | true => exact h.step (.pass channel hreplied) (hl.pass hr.symm) (fun x hx ↦ by cases hx) htracks
    | router op =>
      cases op with
      | launchReply reply => exact same (.same hreplied) rfl rfl (by simp [launched]) htracks
      | _ => exact same (.same hreplied) rfl rfl none htracks
    | _ => exact same (.same hreplied) rfl rfl none htracks
  · cases op with
    | channelIsEnabled channel =>
      have hr : r = (s.channels channel).on := by
        cases hact
        rfl
      cases r with
      | false => exact same (.same hreplied) rfl rfl none htracks
      | true => exact h.step (.pass channel hreplied) (hl.pass hr.symm) (fun x hx ↦ by cases hx) htracks
    | _ => exact same (.same hreplied) rfl rfl none htracks

end Call

/-- The discipline of the pipeline's calls; a turn of the pause switch is free. -/
def switchDisc : Discipline switchSig Stage where
  allow
    | l, .system op => disc.allow l op
    | _, .setPaused _ => True
  may _ _ _ := True
  next
    | l, .system op, r => disc.next l op r
    | l, .setPaused _, _ => l

theorem lift_wp {p : Prog systemSig Throwable Unit} (h : p.wp disc (fun _ _ ↦ True) l) :
    (p.lift systemHom).wp switchDisc (fun _ _ ↦ True) l :=
  (Prog.wp_lift _ _).mpr h

def taskStage : SwitchOp → Stage
  | .system op => spawnLocal .idle waiting op
  | .setPaused _ => .idle

variable (P cfg stackDepth)

def outline : Outline (machine P cfg stackDepth) .free Stage where
  disc := switchDisc
  final _ := True
  entryLocal _ := .idle
  spawnLocal := taskStage
  inv := Inv
  entry_wp _ x _ := by
    cases x with
    | arrival input => exact lift_wp (entry_wp input)
    | enable channel | disable channel | setPaused paused => exact ⟨trivial, fun _ _ ↦ trivial⟩
  spawn_wp s i op p _ hp := by
    cases op with
    | system op =>
      obtain ⟨q, hq, rfl⟩ := Option.map_eq_some_iff.mp hp
      exact lift_wp (spawn_wp hq)
    | setPaused paused => cases hp
  inv_start s ls x _ h := by
    refine ⟨fun i l hl ↦ ?_, h.admitted, h.running.append, h.generated, h.replied⟩
    rw [List.getElem?_append] at hl
    split at hl
    · exact h.known i l hl
    · obtain rfl := List.mem_singleton.mp (List.mem_of_getElem? hl)
      trivial
  inv_call s ls i l op offer r s' hi hallow _ hact h := by
    refine ⟨trivial, ?_⟩
    cases op with
    | system op =>
      obtain ⟨⟨r, system⟩, hsystem, heq⟩ := Option.map_eq_some_iff.mp hact
      cases heq
      change Inv _ (_ ++ (((Pipeline.spawned P cfg stackDepth op).map (Prog.lift systemHom)).map fun _ ↦
        spawnLocal .idle waiting op).toList)
      rw [Option.map_map]
      exact @launched_eq _ P cfg .idle waiting stackDepth op ▸ h.call hi hallow hsystem
    | setPaused paused =>
      cases hact
      have hstep : Step s (s.setActive !paused) i := .setActive _
      have htracks : Tracks Stage.Knows s.system (ls.set i l ++ []) := by
        rw [set_of_getElem? hi]
        exact h.running.append
      exact h.step hstep ((h.known i l hi).later hstep.later rfl rfl) (fun x hx ↦ by cases hx) htracks

def quietSwitch : (op : SwitchOp) → switchSig.Resp op
  | .system op => quietSystem op
  | .setPaused _ => ()

abbrev sample : Machine switchSig Throwable Shared Input :=
  machine asciiPlatform ⟨"+16502530000", "Owner", "Aigentik"⟩ 3

abbrev steps (thread times : ℕ) : List (Label switchSig Input) :=
  List.replicate times (.step thread quietSwitch)

def textFromAlice : AigentikNotificationListener.StatusBarNotification :=
  ⟨"com.google.android.apps.messaging", "k1",
    ⟨false, some ⟨some "Alice", none, some "ok"⟩, some [⟨some [⟨"reply_text"⟩]⟩]⟩⟩

/-- A message is queued, then its channel is switched off and the engine paused; then it is handled. -/
def overtaken : List (Label switchSig Input) :=
  [.start (.arrival (.posted textFromAlice))] ++ steps 0 14 ++
    [.start (.disable .sms), .start (.setPaused true)] ++ steps 2 1 ++ steps 3 1 ++ steps 1 18

/-- A reply to the admitted message was asked for after the switch was turned off, and it was sent. -/
def Overrun (s : Shared) (a : Admission) (g : Gate) : Prop :=
  g.on = false ∧ (∃ x ∈ s.generated, x.1 = a.message ∧ g.since < x.2) ∧
    ∃ f ∈ s.system.fired, f.1 = some (.publicMessage, a.message)

instance (s : Shared) (a : Admission) (g : Gate) : Decidable (Overrun s a g) :=
  inferInstanceAs (Decidable (_ ∧ (∃ x ∈ s.generated, _) ∧ ∃ f ∈ s.system.fired, _))

end Aigentik.Switches
