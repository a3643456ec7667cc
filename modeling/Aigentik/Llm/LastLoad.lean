import Aigentik.Llm.SmolLMManager

namespace Aigentik.LastLoad

open Strings Effects SmolLMManager
open ChatScreen (Chat ChatMessage Spoken Thrown)

/-- The messages that a load takes from the database. -/
def storedMessages (s : Shared) (chat : Chat) : List Spoken :=
  if chat.isTask then [] else (s.rows.filter fun m ↦ m.chatId = chat.id).map ChatMessage.spoken

/-- After `onSuccess` of the last load, `nativePtr` is the model that it has made, with the messages
of its chat. -/
def LastWins (s : Shared) : Prop :=
  ∀ job chat, s.latest = some (job, chat) → job ∈ s.succeeded →
    (s.ptr, job) ∈ s.made ∧ s.messages s.ptr = chat.opening ++ storedMessages s chat

/-- A load that is not the last stores its handle only before the last has stored its own; and
there are no responses, which would add messages of their own, and no benchmarks. -/
def inOrder (s : Shared) : ManagerOp → Bool
  | .setNativePtr (some job) _ => s.latest.all fun x ↦ x.1 = job || x.1 ∉ s.stored
  | .launchResponse .. | .launchBenchmark _ => false
  | _ => true

def storesInOrder : Guard managerSig Shared Input where
  start _ _ := True
  call s _ op := inOrder s op

/-! What a thread knows -/

/-- How far a load has come: it has the handle still to store; or it has added some messages and
has others to add, with or without those of the database, and knows the handle that it has read. -/
inductive Progress
  | launched
  | loading
  | storing (handle : ℕ)
  | filling (added todo : List Spoken) (read : Bool) (handle : Option ℕ)

inductive Role
  | event
  | load (job : ℕ) (chat : Chat) (progress : Progress)

namespace Role

def job : Role → Option ℕ
  | .event => none
  | .load job .. => some job

def move (f : Chat → Progress → Progress) : Role → Role
  | .event => .event
  | .load job chat progress => .load job chat (f chat progress)

end Role

/-- The dispatchers that the thread is on, on the native one with whether its job was active when it
got there; the number of a job that is still to start; and whether it has cancelled the last load. -/
structure Local where
  main : Bool
  jni : Option Bool
  owned : Option ℕ
  cleared : Bool
  role : Role

def Local.Loads (l : Local) (job : ℕ) (chat : Chat) (progress : Progress) : Prop :=
  l.owned = none ∧ l.role = .load job chat progress

def Progress.start : Progress → Progress
  | .launched => .loading
  | p => p

def Progress.point (handle : ℕ) : Progress → Progress
  | .filling added todo read _ => .filling added todo read (some handle)
  | p => p

def Progress.add : Progress → Progress
  | .filling added (message :: todo) read handle => .filling (added ++ [message]) todo read handle
  | p => p

def Progress.read (rows : List ChatMessage) : Progress → Progress
  | .filling added _ _ handle => .filling added (rows.map ChatMessage.spoken) true handle
  | p => p

def disc : Discipline managerSig Local where
  allow
    | l, .offMain | l, .cancelInit => l.main = true
    | l, .offJni => l.jni ≠ none
    | l, .start job => l.owned = some job ∧ ∃ chat, l.role = .load job chat .launched
    | l, .onJni job => ∀ j ∈ l.role.job, j = job
    | l, .newJob => l.owned = none ∧ l.role = .event
    | l, .launchLoad job .. => l.main = true ∧ l.cleared = true ∧ l.owned = some job ∧ l.role = .event
    | l, .loadModel job _ => ∃ chat, l.Loads job chat .loading
    | l, .setNativePtr (some job) handle => ∃ chat, l.Loads job chat (.storing handle)
    | l, .setNativePtr none _ => l.cleared = true
    | l, .leave (.addChatMessage message) handle => l.jni = some true ∧
      ∃ job chat added todo read, l.Loads job chat (.filling added (message :: todo) read (some handle))
    | l, .getMessagesForModel chatId => ∃ job chat added handle,
      l.Loads job chat (.filling added [] false handle) ∧ chat.isTask = false ∧ chatId = chat.id
    | l, .callback (some job) .loaded => ∃ chat added handle, l.Loads job chat (.filling added [] true handle)
    | _, .addAssistantMessage .. => False
    | _, _ => True
  may _ _ _ := True
  next
    | l, .onMain _, _ => { l with main := true }
    | l, .offMain, _ => { l with main := false, cleared := false }
    | l, .start _, true => { l with jni := some true, owned := none, role := l.role.move fun _ ↦ .start }
    | l, .start _, false => { l with jni := some false }
    | l, .onJni _, active => { l with jni := some active }
    | l, .offJni, _ => { l with jni := none }
    | l, .cancelInit, _ => { l with cleared := true }
    | l, .newJob, job => { l with owned := some job }
    | l, .launchLoad .., _ => { l with owned := none, cleared := false }
    | l, .loadModel .., some handle => { l with role := l.role.move fun _ _ ↦ .storing handle }
    | l, .setNativePtr (some _) _, _ =>
      { l with role := l.role.move fun chat _ ↦ .filling [] chat.opening chat.isTask none }
    | l, .nativePtr, handle => { l with role := l.role.move fun _ ↦ .point handle }
    | l, .leave (.addChatMessage _) _, _ => { l with role := l.role.move fun _ ↦ .add }
    | l, .getMessagesForModel _, rows => { l with role := l.role.move fun _ ↦ .read rows }
    | l, _, _ => l

/-! The programs -/

section

variable {α β : Type} {job : ℕ} {chat : Chat}

def place (main : Bool) (jni : Option Bool) (job : ℕ) (chat : Chat) (progress : Progress) : Local :=
  ⟨main, jni, none, false, .load job chat progress⟩

variable (job chat)

/-- A part of a load on `jniDispatcher`, which ends there with `Q`, or throws. -/
def OnJni (p : Coroutine α) (before : Progress) (Q : α → Progress → Prop) : Prop :=
  p.wp disc (Prog.exits (fun a l ↦ ∃ after, l = place false (some true) job chat after ∧ Q a after)
    fun _ l ↦ ∃ active after, l = place false (some active) job chat after) (place false (some true) job chat before)

/-- What a load calls elsewhere. -/
def Off (main : Bool) (p : Coroutine α) (before : Progress) (Q : α → Progress → Prop) : Prop :=
  p.wp disc (Prog.exits (fun a l ↦ ∃ after, l = place main none job chat after ∧ Q a after) fun _ _ ↦ False)
    (place main none job chat before)

variable {job chat}

theorem OnJni.bind_wp {p : Coroutine α} {f : α → Coroutine β} {before : Progress} {Q : α → Progress → Prop}
    {R : Except Thrown β → Local → Prop} (hp : OnJni job chat p before Q)
    (hthrow : ∀ e active after, R (.error e) (place false (some active) job chat after))
    (hf : ∀ a after, Q a after → (f a).wp disc R (place false (some true) job chat after)) :
    (p >>= f).wp disc R (place false (some true) job chat before) := by
  refine (Prog.wp_bind _ _).mpr (Prog.wp_mono hp fun o l hl ↦ ?_)
  cases o with
  | ok a =>
    obtain ⟨after, rfl, hq⟩ := hl
    exact hf a after hq
  | error e =>
    obtain ⟨active, after, rfl⟩ := hl
    exact hthrow e active after

theorem OnJni.bind {p : Coroutine α} {f : α → Coroutine β} {before : Progress} {Q : α → Progress → Prop}
    {R : β → Progress → Prop} (hp : OnJni job chat p before Q)
    (hf : ∀ a after, Q a after → OnJni job chat (f a) after R) : OnJni job chat (p >>= f) before R :=
  hp.bind_wp (fun _ active after ↦ ⟨active, after, rfl⟩) hf

theorem suspending_onJni {p : Coroutine α} {before : Progress} {Q : α → Progress → Prop}
    (hp : Off job chat false p before Q) : OnJni job chat (suspending job p) before Q := by
  have hown (progress : Progress) : ∀ j ∈ (place false none job chat progress).role.job, j = job :=
    fun j hj ↦ (Option.some.inj hj).symm
  refine ⟨Option.some_ne_none _, fun _ _ ↦ ⟨trivial, fun r _ ↦ ?_⟩⟩
  cases r with
  | false =>
    refine ⟨hown before, fun active _ ↦ ?_⟩
    cases active <;> exact ⟨_, before, rfl⟩
  | true =>
    change Prog.wp disc _ ((some <$> p) >>= _) _
    rw [map_eq_pure_bind, bind_assoc]
    refine (Prog.wp_bind _ _).mpr (Prog.wp_mono hp fun o l hl ↦ ?_)
    cases o with
    | ok a =>
      obtain ⟨after, rfl, hq⟩ := hl
      refine ⟨hown after, fun active _ ↦ ?_⟩
      cases active with
      | true => exact ⟨after, rfl, hq⟩
      | false => exact ⟨false, after, rfl⟩
    | error e => exact hl.elim

/-- The callbacks run with the job active or not. -/
theorem withMain_wp {p : Coroutine Unit} {before : Progress} (active : Bool)
    (hp : Off job chat true p before fun _ after ↦ after = before) :
    (withMain job p).wp disc (fun _ l ↦ ∃ active, l = place false (some active) job chat before)
      (place false (some active) job chat before) := by
  have hback (started : Bool) : Prog.wp disc (fun _ l ↦ ∃ active, l = place false (some active) job chat before) (do
      perform .offMain
      if ← onJni job then
        if started then return () else Prog.throw .cancelled
      else Prog.throw .cancelled) (place true none job chat before) := by
    refine ⟨rfl, fun _ _ ↦ ⟨fun j hj ↦ (Option.some.inj hj).symm, fun r _ ↦ ?_⟩⟩
    cases r with
    | false => exact ⟨false, rfl⟩
    | true => cases started <;> exact ⟨true, rfl⟩
  refine ⟨Option.some_ne_none _, fun _ _ ↦ ⟨trivial, fun started _ ↦ ?_⟩⟩
  cases started with
  | false => exact hback false
  | true =>
    change Prog.wp disc _ (p >>= _) _
    refine (Prog.wp_bind _ _).mpr (Prog.wp_mono hp fun o l hl ↦ ?_)
    cases o with
    | ok _ =>
      obtain ⟨after, rfl, rfl⟩ := hl
      exact hback true
    | error e => exact hl.elim

theorem loadNative_off (modelPath : Str) : Off job chat false (loadNative job modelPath) .loading fun returned after ↦
    after = if returned then .filling [] chat.opening chat.isTask none else .loading := by
  refine ⟨⟨chat, rfl, rfl⟩, fun handle _ ↦ ?_⟩
  cases handle with
  | none => exact ⟨_, rfl, rfl⟩
  | some handle => exact ⟨⟨chat, rfl, rfl⟩, fun _ _ ↦ ⟨_, rfl, rfl⟩⟩

theorem addChatMessage_onJni (message : Spoken) (added todo : List Spoken) (read : Bool) (handle : Option ℕ) :
    OnJni job chat (addChatMessage message) (.filling added (message :: todo) read handle) fun _ after ↦
      ∃ handle', after = .filling (added ++ [message]) todo read handle' :=
  ⟨trivial, fun handle' _ ↦ ⟨trivial, fun _ _ ↦ ⟨⟨rfl, job, chat, added, todo, read, rfl, rfl⟩,
    fun _ _ ↦ ⟨_, rfl, some handle', rfl⟩⟩⟩⟩

theorem addAll_onJni (messages : List ChatMessage) (added : List Spoken) (read : Bool) (handle : Option ℕ) :
    OnJni job chat (addAll messages) (.filling added (messages.map ChatMessage.spoken) read handle) fun _ after ↦
      ∃ added' handle', after = .filling added' [] read handle' := by
  induction messages generalizing added handle with
  | nil => exact ⟨_, rfl, added, handle, rfl⟩
  | cons message rest ih =>
    refine (addChatMessage_onJni message.spoken added _ read handle).bind fun _ after hafter ↦ ?_
    obtain ⟨handle', rfl⟩ := hafter
    exact ih (added ++ [message.spoken]) handle'

theorem addSystemPrompt_onJni : OnJni job chat (addSystemPrompt chat) (.filling [] chat.opening chat.isTask none)
    fun _ after ↦ ∃ added handle, after = .filling added [] chat.isTask handle := by
  unfold addSystemPrompt Chat.opening
  split
  · refine Prog.wp_mono (addChatMessage_onJni chat.system [] [] chat.isTask none) fun o l hl ↦ ?_
    cases o with
    | ok _ =>
      obtain ⟨after, rfl, handle, rfl⟩ := hl
      exact ⟨_, rfl, _, handle, rfl⟩
    | error e => exact hl
  · exact ⟨_, rfl, [], none, rfl⟩

theorem addStoredMessages_onJni (added : List Spoken) (handle : Option ℕ) :
    OnJni job chat (addStoredMessages job chat) (.filling added [] chat.isTask handle) fun _ after ↦
      ∃ added' handle', after = .filling added' [] true handle' := by
  unfold addStoredMessages
  cases htask : chat.isTask with
  | true => exact ⟨_, rfl, added, handle, rfl⟩
  | false =>
    have hrows : OnJni job chat (suspending job (getMessagesForModel chat.id)) (.filling added [] false handle)
        fun rows after ↦ after = .filling added (rows.map ChatMessage.spoken) true handle :=
      suspending_onJni ⟨⟨job, chat, added, handle, ⟨rfl, rfl⟩, htask, rfl⟩, fun rows _ ↦ ⟨_, rfl, rfl⟩⟩
    refine hrows.bind fun rows after hafter ↦ ?_
    subst hafter
    exact addAll_onJni rows added true handle

theorem loadInstance_wp (modelPath : Str) : (loadInstance job chat modelPath).wp disc
    (fun _ l ↦ ∃ active after, l = place false (some active) job chat after)
    (place false (some true) job chat .loading) := by
  have hthrow (e : Thrown) (active : Bool) (after : Progress) :
      ∃ active' after', place false (some active) job chat after = place false (some active') job chat after' :=
    ⟨active, after, rfl⟩
  refine (suspending_onJni (loadNative_off modelPath)).bind_wp hthrow fun returned after hafter ↦ ?_
  subst hafter
  cases returned with
  | false => exact ⟨true, _, rfl⟩
  | true =>
    refine addSystemPrompt_onJni.bind_wp hthrow fun _ after hafter ↦ ?_
    obtain ⟨added, handle, rfl⟩ := hafter
    refine (addStoredMessages_onJni added handle).bind_wp hthrow fun _ after hafter ↦ ?_
    obtain ⟨added, handle, rfl⟩ := hafter
    have hloaded : Off job chat true (do
        perform (.setInstanceLoaded true)
        perform (.callback (some job) .loaded)) (.filling added [] true handle)
        fun _ after ↦ after = .filling added [] true handle :=
      ⟨trivial, fun _ _ ↦ ⟨⟨chat, added, handle, rfl, rfl⟩, fun _ _ ↦ ⟨_, rfl, rfl⟩⟩⟩
    refine Prog.wp_mono (withMain_wp true hloaded) fun _ l hl ↦ ?_
    obtain ⟨active, rfl⟩ := hl
    exact ⟨active, _, rfl⟩

def queued (job : ℕ) (chat : Chat) : Local := ⟨false, none, some job, false, .load job chat .launched⟩

theorem loadCoroutine_wp (modelPath : Str) :
    (loadCoroutine job chat modelPath).wp disc (fun _ _ ↦ True) (queued job chat) := by
  have hoff (active : Bool) (after : Progress) :
      (perform .offJni).wp disc (fun _ _ ↦ True) (place false (some active) job chat after) :=
    ⟨Option.some_ne_none _, fun _ _ ↦ trivial⟩
  refine ⟨⟨rfl, chat, rfl⟩, fun started _ ↦ ?_⟩
  cases started with
  | false => exact ⟨Option.some_ne_none _, fun _ _ ↦ trivial⟩
  | true =>
    change Prog.wp disc _ (Prog.tryCatch _ _ >>= _) _
    refine (Prog.wp_bind _ _).mpr ((Prog.wp_tryCatch _ _).mpr (Prog.wp_mono (loadInstance_wp modelPath)
      fun o l hl ↦ ?_))
    obtain ⟨active, after, rfl⟩ := hl
    cases o with
    | ok _ => exact hoff active after
    | error e =>
      cases e with
      | cancelled => exact hoff active after
      | exception =>
        have hfailed : Off job chat true (perform (.callback (some job) .loadFailed)) after
            fun _ after' ↦ after' = after :=
          ⟨trivial, fun _ _ ↦ ⟨_, rfl, rfl⟩⟩
        refine (Prog.wp_tryCatch _ _).mpr (Prog.wp_mono (withMain_wp active hfailed) fun o l hl ↦ ?_)
        obtain ⟨active, rfl⟩ := hl
        cases o <;> exact hoff active after

end

def idle : Local := ⟨false, none, none, false, .event⟩

def onMain (cleared : Bool) : Local := ⟨true, none, none, cleared, .event⟩

theorem onMainThread_wp {p : Coroutine Unit} (hp : p.wp disc (fun _ l ↦ l.main = true) (onMain false)) :
    (onMainThread p).wp disc (fun _ _ ↦ True) idle := by
  refine ⟨trivial, fun _ _ ↦ ?_⟩
  change Prog.wp disc _ (p >>= _) _
  refine (Prog.wp_bind _ _).mpr (Prog.wp_mono hp fun o l hl ↦ ?_)
  cases o with
  | ok _ => exact ⟨hl, fun _ _ ↦ trivial⟩
  | error e => trivial

theorem withStateLock_wp {p : Coroutine Unit} {l : Local} (hp : p.wp disc (fun _ l ↦ l.main = true) l) :
    (withStateLock p).wp disc (fun _ l ↦ l.main = true) l := by
  refine ⟨trivial, fun _ _ ↦ (Prog.wp_tryFinally _ _).mpr (Prog.wp_mono hp fun o l hl ↦ ?_)⟩
  cases o <;> exact ⟨trivial, fun _ _ ↦ hl⟩

theorem close_wp : close.wp disc (fun _ l ↦ l.main = true) (onMain true) := by
  have hrest (handle : ℕ) : (if handle ≠ 0 then (do
      let _ ← native .close
      perform (.setNativePtr none 0)) else return ()).wp disc (fun _ l ↦ l.main = true) (onMain true) := by
    split
    · exact ⟨trivial, fun _ _ ↦ ⟨trivial, fun _ _ ↦ ⟨trivial, fun _ _ ↦ ⟨rfl, fun _ _ ↦ rfl⟩⟩⟩⟩
    · rfl
  exact ⟨trivial, fun handle _ ↦ hrest handle⟩

theorem unload_wp : unload.wp disc (fun _ l ↦ l.main = true) (onMain false) := by
  refine withStateLock_wp ⟨trivial, fun _ _ ↦ ⟨rfl, fun _ _ ↦ ⟨trivial, fun _ _ ↦ ⟨trivial, fun _ _ ↦ ?_⟩⟩⟩⟩
  exact close_wp

theorem entry_wp (input : Input) : (entry input).wp disc (fun _ _ ↦ True) idle := by
  cases input with
  | load chat modelPath =>
    refine onMainThread_wp (withStateLock_wp ⟨rfl, fun _ _ ↦ ⟨trivial, fun _ _ ↦ ⟨⟨rfl, rfl⟩, fun job _ ↦ ?_⟩⟩⟩)
    exact ⟨⟨rfl, rfl, rfl, rfl⟩, fun _ _ ↦ rfl⟩
  | unload => exact onMainThread_wp unload_wp
  | unloadModel =>
    refine onMainThread_wp ⟨trivial, fun inferring _ ↦ ?_⟩
    cases inferring with
    | true => rfl
    | false =>
      change Prog.wp disc _ (unload >>= _) _
      refine (Prog.wp_bind _ _).mpr (Prog.wp_mono unload_wp fun o l hl ↦ ?_)
      cases o with
      | ok _ => exact ⟨trivial, fun _ _ ↦ hl⟩
      | error e => exact hl
  | getResponse query =>
    refine onMainThread_wp (withStateLock_wp ⟨trivial, fun loaded _ ↦ ?_⟩)
    cases loaded with
    | true => exact ⟨trivial, fun _ _ ↦ ⟨⟨rfl, rfl⟩, fun _ _ ↦ ⟨trivial, fun _ _ ↦ rfl⟩⟩⟩
    | false => exact ⟨trivial, fun _ _ ↦ rfl⟩
  | benchmark => exact onMainThread_wp ⟨⟨rfl, rfl⟩, fun _ _ ↦ ⟨trivial, fun _ _ ↦ rfl⟩⟩
  | stopResponseGeneration =>
    exact onMainThread_wp (withStateLock_wp ⟨trivial, fun _ _ ↦ ⟨trivial, fun _ _ ↦ rfl⟩⟩)

def spawnLocal : ManagerOp → Local
  | .launchLoad job chat _ => queued job chat
  | _ => idle

theorem spawn_wp {rounds : ℕ} {s : Shared} {op : ManagerOp} {p : Coroutine Unit} (hG : inOrder s op = true)
    (hp : spawned rounds op = some p) : p.wp disc (fun _ _ ↦ True) (spawnLocal op) := by
  cases op with
  | launchLoad job chat modelPath =>
    cases hp
    exact loadCoroutine_wp modelPath
  | launchResponse job query => cases hG
  | launchBenchmark job => cases hG
  | _ => cases hp

/-! What the place of a thread says of the shared state -/

def said (s : Shared) (chat : Chat) (read : Bool) : List Spoken :=
  chat.opening ++ if read then storedMessages s chat else []

/-- How far the last load has come. -/
def Fits (s : Shared) (job : ℕ) (chat : Chat) : Progress → Prop
  | .launched => True
  | .loading => job ∈ s.started ∧ job ∉ s.stored
  | .storing handle => (job ∈ s.started ∧ job ∉ s.stored) ∧ (handle, job) ∈ s.made ∧ s.messages handle = []
  | .filling added todo read handle => (job ∈ s.started ∧ job ∈ s.stored) ∧ (s.ptr, job) ∈ s.made ∧
    s.messages s.ptr = added ∧ added ++ todo = said s chat read ∧ (∀ h ∈ handle, h = s.ptr) ∧
    (job ∈ s.succeeded → todo = [] ∧ read = true)

/-- A load that is active is the last; and when it runs, a later one has not started. -/
structure Loading (s : Shared) (jni : Option Bool) (job : ℕ) (chat : Chat) (progress : Progress) : Prop where
  live : job ∉ s.cancelled → s.latest = some (job, chat)
  apart : jni = some true → ∀ other c, s.latest = some (other, c) → other ≠ job → other ∉ s.started
  fits : ∀ c, s.latest = some (job, c) → c = chat ∧ Fits s job chat progress

structure Fresh (s : Shared) (job : ℕ) : Prop where
  started : job ∉ s.started
  stored : job ∉ s.stored
  succeeded : job ∉ s.succeeded

theorem Fresh.congr {s s' : Shared} {job : ℕ} (h : Fresh s job) (hstarted : s'.started = s.started)
    (hstored : s'.stored = s.stored) (hsucceeded : s'.succeeded = s.succeeded) : Fresh s' job :=
  ⟨hstarted ▸ h.started, hstored ▸ h.stored, hsucceeded ▸ h.succeeded⟩

structure Link (s : Shared) (l : Local) : Prop where
  cleared : l.cleared = true → l.main = true ∧ s.latest = none
  owned : ∀ job, l.owned = some job → Fresh s job ∧ ∀ j ∈ l.role.job, j = job
  load : ∀ job chat progress, l.role = .load job chat progress → Loading s l.jni job chat progress

structure Sound (s : Shared) : Prop where
  current : ∀ job chat, s.latest = some (job, chat) → s.modelInitJob = some job
  made : ∀ x ∈ s.made, x.1 ≤ s.models
  numbered : ∀ job, ¬Fresh s job → job < s.jobs
  succeeded : ∀ job chat, s.latest = some (job, chat) → job ∈ s.succeeded → job ∈ s.started ∧ job ∈ s.stored
  wins : LastWins s

def number (l : Local) : Option ℕ := l.owned <|> l.role.job

structure Inv (s : Shared) (ls : List Local) : Prop where
  main : Sole (fun l ↦ l.main = true) s.main ls
  jni : Sole (fun l ↦ l.jni ≠ none) s.jni ls
  jobs : ∀ job, Sole (fun l ↦ number l = some job) (decide (job < s.jobs)) ls
  link : ∀ (i : ℕ) (l : Local), ls[i]? = some l → Link s l
  sound : Sound s

variable {s s' : Shared} {ls new : List Local} {i j job : ℕ} {l l' x : Local} {chat : Chat} {progress : Progress}

theorem number_of_owned (h : l.owned = some job) : number l = some job := by
  rw [number, h]
  rfl

theorem Link.number_of_load (h : Link s l) (hrole : l.role = .load job chat progress) : number l = some job := by
  cases howned : l.owned with
  | none =>
    rw [number, howned, hrole]
    rfl
  | some k =>
    rw [number_of_owned howned, (h.owned k howned).2 job (by rw [hrole]; rfl)]

theorem Inv.number_ne (h : Inv s ls) (hi : ls[i]? = some l) (hl : number l = some job) (hj : ls[j]? = some x)
    (hne : j ≠ i) : number x ≠ some job :=
  fun hx ↦ hne ((h.jobs job i l hi hl).2 j x hj hx)

theorem Inv.number_lt (h : Inv s ls) (hi : ls[i]? = some l) (hl : number l = some job) : job < s.jobs :=
  of_decide_eq_true (h.jobs job i l hi hl).1

/-! Steps that loads do not see -/

theorem Link.frame (h : Link s l) {cancelled : List ℕ} (hsub : ∀ job ∈ s.cancelled, job ∈ cancelled)
    (main jni stateLock : Bool) (jobs : ℕ) (chat : Option Chat) (responseGenerationJob : Option ℕ)
    (isInstanceLoaded isInferenceOn : Bool) (running : List Running) :
    Link { s with
      main, jni, stateLock, jobs, cancelled, chat, responseGenerationJob, isInstanceLoaded, isInferenceOn,
      running } l where
  cleared := h.cleared
  owned job howned := ⟨(h.owned job howned).1.congr rfl rfl rfl, (h.owned job howned).2⟩
  load job chat progress hrole := by
    have hload := h.load job chat progress hrole
    refine ⟨fun hjob ↦ hload.live fun hmem ↦ hjob (hsub job hmem), hload.apart, fun c hc ↦ ⟨(hload.fits c hc).1, ?_⟩⟩
    have hfits := (hload.fits c hc).2
    cases progress <;> exact hfits

theorem Sound.frame (h : Sound s) (main jni stateLock : Bool) (cancelled : List ℕ) (chat : Option Chat)
    (responseGenerationJob : Option ℕ) (isInstanceLoaded isInferenceOn : Bool) (running : List Running) :
    Sound { s with
      main, jni, stateLock, cancelled, chat, responseGenerationJob, isInstanceLoaded, isInferenceOn, running } where
  current := h.current
  made := h.made
  numbered job hjob := h.numbered job fun hfresh ↦ hjob (hfresh.congr rfl rfl rfl)
  succeeded := h.succeeded
  wins := h.wins

/-- A step that neither takes nor releases a dispatcher, nor a number. -/
theorem Inv.move (h : Inv s ls) (hi : ls[i]? = some l) (hmain : s'.main = s.main) (hjni : s'.jni = s.jni)
    (hjobs : s'.jobs = s.jobs) (hl : l'.main = l.main ∧ l'.jni = l.jni) (hnumber : number l' = number l)
    (hother : ∀ j x, j ≠ i → ls[j]? = some x → Link s x → Link s' x) (hown : Link s l → Link s' l')
    (hsound : Sound s → Sound s') : Inv s' (ls.set i l' ++ []) := by
  refine ⟨?_, ?_, fun job ↦ ?_, fun j x hx ↦ ?_, hsound h.sound⟩
  · rw [hmain, List.append_nil]
    exact h.main.keep hi fun hl' ↦ hl.1 ▸ hl'
  · rw [hjni, List.append_nil]
    exact h.jni.keep hi fun hl' ↦ hl.2 ▸ hl'
  · rw [hjobs, List.append_nil]
    exact (h.jobs job).keep hi fun hl' ↦ hnumber ▸ hl'
  · rcases getElem?_step hx with ⟨rfl, rfl⟩ | ⟨hne, hx⟩ | ⟨-, hx⟩
    · exact hown (h.link j l hi)
    · exact hother j x hne hx (h.link j x hx)
    · cases hx

theorem Inv.frame (h : Inv s ls) (hi : ls[i]? = some l) {cancelled : List ℕ}
    (hsub : ∀ job ∈ s.cancelled, job ∈ cancelled)
    (stateLock : Bool) (chat : Option Chat) (responseGenerationJob : Option ℕ) (isInstanceLoaded isInferenceOn : Bool)
    (running : List Running) :
    Inv { s with stateLock, cancelled, chat, responseGenerationJob, isInstanceLoaded, isInferenceOn, running }
      (ls.set i l ++ []) :=
  h.move hi rfl rfl rfl ⟨rfl, rfl⟩ rfl (fun _ _ _ _ hx ↦ hx.frame hsub ..) (fun hl ↦ hl.frame hsub ..)
    fun hs ↦ hs.frame ..

theorem Inv.dispatch (h : Inv s ls) (hi : ls[i]? = some l) {main jni : Bool}
    (hmain : Sole (fun l ↦ l.main = true) main (ls.set i l')) (hjni : Sole (fun l ↦ l.jni ≠ none) jni (ls.set i l'))
    (hnumber : number l' = number l) (hown : Link s l → Link s l') : Inv { s with main, jni } (ls.set i l' ++ []) := by
  refine ⟨by simpa using hmain, by simpa using hjni, fun job ↦ ?_, fun j x hx ↦ ?_, h.sound.frame ..⟩
  · rw [List.append_nil]
    exact (h.jobs job).keep hi fun hl' ↦ hnumber ▸ hl'
  · rcases getElem?_step hx with ⟨rfl, rfl⟩ | ⟨-, hx⟩ | ⟨-, hx⟩
    · exact (hown (h.link j l hi)).frame (fun _ ↦ id) ..
    · exact (h.link j x hx).frame (fun _ ↦ id) ..
    · cases hx

theorem Inv.onMain (h : Inv s ls) (hi : ls[i]? = some l) (hfree : s.main = false) :
    Inv { s with main := true } (ls.set i { l with main := true } ++ []) := by
  have hmain := h.main
  rw [hfree] at hmain
  refine h.dispatch hi hmain.acquire (h.jni.keep hi id) rfl
    fun hl ↦ ⟨fun hc ↦ ⟨rfl, (hl.cleared hc).2⟩, hl.owned, hl.load⟩

theorem Inv.offMain (h : Inv s ls) (hi : ls[i]? = some l) (hl : l.main = true) :
    Inv { s with main := false } (ls.set i { l with main := false, cleared := false } ++ []) := by
  have hmain : Sole _ false (ls.set i { l with main := false, cleared := false }) := h.main.release hi hl (by simp)
  exact h.dispatch hi hmain (h.jni.keep hi id) rfl fun hl ↦ ⟨fun hc ↦ (by cases hc), hl.owned, hl.load⟩

theorem Inv.offJni (h : Inv s ls) (hi : ls[i]? = some l) (hl : l.jni ≠ none) :
    Inv { s with jni := false } (ls.set i { l with jni := none } ++ []) := by
  have hjni : Sole _ false (ls.set i { l with jni := none }) := h.jni.release hi hl (by simp)
  refine h.dispatch hi (h.main.keep hi id) hjni rfl fun hl ↦ ⟨hl.cleared, hl.owned, fun job chat progress hrole ↦ ?_⟩
  have hload := hl.load job chat progress hrole
  exact ⟨hload.live, fun hon ↦ (by cases hon), hload.fits⟩

/-- A load that is active on `jniDispatcher` is the last one. -/
theorem Inv.onJni (h : Inv s ls) (hi : ls[i]? = some l) (hl : ∀ j ∈ l.role.job, j = job) (hfree : s.jni = false)
    (active : Bool) (hactive : active = true → job ∉ s.cancelled) :
    Inv { s with jni := true } (ls.set i { l with jni := some active } ++ []) := by
  have hjni := h.jni
  rw [hfree] at hjni
  refine h.dispatch hi (h.main.keep hi id) hjni.acquire rfl fun hlink ↦
    ⟨hlink.cleared, hlink.owned, fun k chat progress hrole ↦ ?_⟩
  have hload := hlink.load k chat progress hrole
  have hk : k = job := hl k (by rw [show l.role = _ from hrole]; rfl)
  subst hk
  refine ⟨hload.live, fun hon other c hlatest hother ↦ ?_, hload.fits⟩
  rw [hload.live (hactive (Option.some.inj hon))] at hlatest
  exact absurd (congrArg Prod.fst (Option.some.inj hlatest)).symm hother

/-! The steps of a load -/

/-- The job of the last load is cancelled, and with it every load. -/
theorem Inv.cancelInit (h : Inv s ls) (hi : ls[i]? = some l) (hl : l.main = true) :
    Inv { s.cancel s.modelInitJob with latest := none } (ls.set i { l with cleared := true } ++ []) := by
  have hlink (x : Local) (hx : Link s x) : Link { s.cancel s.modelInitJob with latest := none } x := by
    refine ⟨fun hc ↦ ⟨(hx.cleared hc).1, rfl⟩,
      fun job howned ↦ ⟨(hx.owned job howned).1.congr rfl rfl rfl, (hx.owned job howned).2⟩,
      fun job chat progress hrole ↦ ⟨fun hjob ↦ ?_, fun _ other c hlatest ↦ ?_, fun c hlatest ↦ ?_⟩⟩
    · have hlatest := (hx.load job chat progress hrole).live fun hmem ↦ hjob (List.mem_append_right _ hmem)
      refine absurd (List.mem_append_left _ ?_) hjob
      rw [h.sound.current job chat hlatest]
      exact List.mem_singleton_self job
    · cases hlatest
    · cases hlatest
  refine h.move hi rfl rfl rfl ⟨rfl, rfl⟩ rfl (fun _ x _ _ hx ↦ hlink x hx)
    (fun hx ↦ ⟨fun _ ↦ ⟨hl, rfl⟩, (hlink l hx).owned, (hlink l hx).load⟩) fun hs ↦ ?_
  refine ⟨fun job chat hlatest ↦ ?_, hs.made,
    fun job hjob ↦ hs.numbered job fun hfresh ↦ hjob (hfresh.congr rfl rfl rfl),
    fun job chat hlatest ↦ ?_, fun job chat hlatest ↦ ?_⟩
  · cases hlatest
  · cases hlatest
  · cases hlatest

theorem Inv.newJob (h : Inv s ls) (hi : ls[i]? = some l) (howned : l.owned = none) (hrole : l.role = .event) :
    Inv { s with jobs := s.jobs + 1 } (ls.set i { l with owned := some s.jobs } ++ []) := by
  have hnone : number l = none := by rw [number, howned, hrole]; rfl
  refine ⟨?_, ?_, fun job ↦ ?_, fun j x hx ↦ ?_, ?_⟩
  · rw [List.append_nil]
    exact h.main.keep hi id
  · rw [List.append_nil]
    exact h.jni.keep hi id
  · rw [List.append_nil]
    by_cases hjob : job = s.jobs
    · subst hjob
      have hsole := h.jobs s.jobs
      rw [decide_eq_false (Nat.lt_irrefl _)] at hsole
      rw [decide_eq_true (Nat.lt_succ_self _)]
      exact hsole.acquire
    · have hsame : decide (job < s.jobs + 1) = decide (job < s.jobs) := by
        rw [decide_eq_decide]
        omega
      rw [hsame]
      exact (h.jobs job).keep hi fun hl' ↦ absurd (Option.some.inj ((number_of_owned rfl).symm.trans hl')).symm hjob
  · rcases getElem?_step hx with ⟨rfl, rfl⟩ | ⟨-, hx⟩ | ⟨-, hx⟩
    · have hlink := (h.link j l hi).frame (fun _ ↦ id) s.main s.jni s.stateLock (s.jobs + 1) s.chat
        s.responseGenerationJob s.isInstanceLoaded s.isInferenceOn s.running
      refine ⟨hlink.cleared, fun job hjob ↦ ?_, hlink.load⟩
      cases hjob
      refine ⟨?_, fun k hk ↦ by rw [hrole] at hk; cases hk⟩
      have hfresh : Fresh s s.jobs := Classical.byContradiction fun hnot ↦ Nat.lt_irrefl _ (h.sound.numbered _ hnot)
      exact hfresh.congr rfl rfl rfl
    · exact (h.link j x hx).frame (fun _ ↦ id) ..
    · cases hx
  · refine ⟨h.sound.current, h.sound.made, fun job hjob ↦ ?_, h.sound.succeeded, h.sound.wins⟩
    exact Nat.lt_succ_of_lt (h.sound.numbered job fun hfresh ↦ hjob (hfresh.congr rfl rfl rfl))

/-- All earlier loads have been cancelled. -/
theorem Inv.launchLoad (h : Inv s ls) (hi : ls[i]? = some l) (hmain : l.main = true) (hcleared : l.cleared = true)
    (howned : l.owned = some job) (hrole : l.role = .event) (chat : Chat) :
    Inv { s with modelInitJob := some job, latest := some (job, chat) }
      (ls.set i { l with owned := none, cleared := false } ++ [queued job chat]) := by
  have hnone : s.latest = none := ((h.link i l hi).cleared hcleared).2
  have hnumber : number l = some job := number_of_owned howned
  have hfresh : Fresh s job := ((h.link i l hi).owned job howned).1
  refine ⟨?_, ?_, fun k ↦ ?_, fun j x hx ↦ ?_, ?_⟩
  · refine Sole.append (h.main.keep hi ?_) (by simp [queued])
    exact id
  · refine Sole.append (h.jni.keep hi ?_) (by simp [queued])
    exact id
  · by_cases hk : k = job
    · subst hk
      refine (h.jobs k).handOver hi hnumber ?_
      simp [number, hrole, Role.job]
    · refine ((h.jobs k).keep hi fun hl ↦ ?_).append ?_
      · simp [number, hrole, Role.job] at hl
      · simp [queued, number, Ne.symm hk]
  · rcases getElem?_step hx with ⟨rfl, rfl⟩ | ⟨hne, hj⟩ | ⟨-, hnew⟩
    · refine ⟨fun hc ↦ (by cases hc), fun k hk ↦ (by cases hk), fun k c progress hload ↦ ?_⟩
      rw [show l.role = _ from hload] at hrole
      cases hrole
    · have hlink := h.link j x hj
      refine ⟨fun hc ↦ ?_, fun k hk ↦ ⟨(hlink.owned k hk).1.congr rfl rfl rfl, (hlink.owned k hk).2⟩,
        fun k c progress hload ↦ ?_⟩
      · exact absurd ((h.main i l hi hmain).2 j x hj (hlink.cleared hc).1) hne
      · have hk : k ≠ job := fun hk ↦ h.number_ne hi hnumber hj hne (hk ▸ hlink.number_of_load hload)
        have hloading := hlink.load k c progress hload
        refine ⟨fun hcancelled ↦ ?_, fun _ other c' hlatest _ ↦ ?_, fun c' hlatest ↦ ?_⟩
        · have hlatest := hloading.live hcancelled
          rw [hnone] at hlatest
          cases hlatest
        · cases hlatest
          exact hfresh.started
        · cases hlatest
          exact absurd rfl hk
    · obtain rfl := List.mem_singleton.mp hnew
      refine ⟨fun hc ↦ (by cases hc), fun k hk ↦ ?_, fun k c progress hload ↦ ?_⟩
      · cases hk
        exact ⟨hfresh.congr rfl rfl rfl, fun j hj ↦ (Option.some.inj hj).symm⟩
      · cases hload
        refine ⟨fun _ ↦ rfl, fun hon ↦ (by cases hon), fun c hlatest ↦ ?_⟩
        cases hlatest
        exact ⟨rfl, trivial⟩
  · refine ⟨fun k c hlatest ↦ ?_, h.sound.made,
      fun k hk ↦ h.sound.numbered k fun hfresh ↦ hk (hfresh.congr rfl rfl rfl),
      fun k c hlatest hk ↦ ?_, fun k c hlatest hk ↦ ?_⟩
    · cases hlatest
      rfl
    · cases hlatest
      exact absurd hk hfresh.succeeded
    · cases hlatest
      exact absurd hk hfresh.succeeded

theorem Inv.start (h : Inv s ls) (hi : ls[i]? = some l) (howned : l.owned = some job)
    (hrole : l.role = .load job chat .launched) (hfree : s.jni = false) (hactive : job ∉ s.cancelled) :
    Inv { s with jni := true, started := job :: s.started }
      (ls.set i { l with jni := some true, owned := none, role := .load job chat .loading } ++ []) := by
  have hjni := h.jni
  rw [hfree] at hjni
  have hlink := h.link i l hi
  have hload := hlink.load job chat _ hrole
  have hlatest := hload.live hactive
  refine ⟨?_, ?_, fun k ↦ ?_, fun j x hx ↦ ?_, ?_⟩
  · rw [List.append_nil]
    exact h.main.keep hi id
  · rw [List.append_nil]
    exact hjni.acquire
  · rw [List.append_nil]
    exact (h.jobs k).keep hi fun hl ↦ (hlink.number_of_load hrole).trans hl
  · rcases getElem?_step hx with ⟨rfl, rfl⟩ | ⟨hne, hj⟩ | ⟨-, hnew⟩
    · refine ⟨hlink.cleared, fun k hk ↦ (by cases hk), fun k c progress hload ↦ ?_⟩
      cases hload
      refine ⟨fun _ ↦ hlatest, fun _ other c hother hne ↦ ?_, fun c hc ↦ ⟨(hload.fits c hc).1, ?_⟩⟩
      · exact absurd (congrArg Prod.fst (Option.some.inj (hlatest.symm.trans hother))).symm hne
      · exact ⟨List.mem_cons_self, (hlink.owned job howned).1.stored⟩
    · have hx := h.link j x hj
      refine ⟨hx.cleared, fun k hk ↦ ⟨?_, (hx.owned k hk).2⟩, fun k c progress hrole' ↦ ?_⟩
      · have hfresh := (hx.owned k hk).1
        refine ⟨fun hmem ↦ ?_, hfresh.stored, hfresh.succeeded⟩
        rcases List.mem_cons.mp hmem with rfl | hmem
        · exact h.number_ne hi (number_of_owned howned) hj hne (number_of_owned hk)
        · exact hfresh.started hmem
      · have hload := hx.load k c progress hrole'
        refine ⟨hload.live, fun hon ↦ ?_, fun c' hc ↦ ⟨(hload.fits c' hc).1, ?_⟩⟩
        · have hon : x.jni ≠ none := by simp [hon]
          exact absurd (hjni j x hj hon).1 Bool.false_ne_true
        · have hfits := (hload.fits c' hc).2
          cases progress with
          | launched => trivial
          | loading => exact ⟨List.mem_cons_of_mem _ hfits.1, hfits.2⟩
          | storing handle => exact ⟨⟨List.mem_cons_of_mem _ hfits.1.1, hfits.1.2⟩, hfits.2⟩
          | filling added todo read handle => exact ⟨⟨List.mem_cons_of_mem _ hfits.1.1, hfits.1.2⟩, hfits.2⟩
    · cases hnew
  · refine ⟨h.sound.current, h.sound.made, fun k hk ↦ ?_, fun k c hlatest hk ↦ ?_, h.sound.wins⟩
    · by_cases hkjob : k = job
      · rw [hkjob]
        exact h.number_lt hi (number_of_owned howned)
      · refine h.sound.numbered k fun hfresh ↦ hk ⟨fun hmem ↦ ?_, hfresh.stored, hfresh.succeeded⟩
        rcases List.mem_cons.mp hmem with hmem | hmem
        · exact hkjob hmem
        · exact hfresh.started hmem
    · have hk := h.sound.succeeded k c hlatest hk
      exact ⟨List.mem_cons_of_mem _ hk.1, hk.2⟩

/-- A load goes on; the last one stays the last. -/
theorem Inv.advance (h : Inv s ls) (hi : ls[i]? = some l) (hl : l.Loads job chat progress) {progress' : Progress}
    (hmain : s'.main = s.main) (hjni : s'.jni = s.jni) (hjobs : s'.jobs = s.jobs)
    (hcancelled : s'.cancelled = s.cancelled)
    (hstarted : s'.started = s.started) (hlatest : s'.latest = s.latest)
    (hfresh : ∀ k, k ≠ job → Fresh s k → Fresh s' k)
    (hother : ∀ k c q, k ≠ job → s.latest = some (k, c) → Fits s k c q → Fits s' k c q)
    (hown : s.latest = some (job, chat) → Fits s job chat progress → Fits s' job chat progress')
    (hsound : Sound s → Sound s') : Inv s' (ls.set i { l with role := .load job chat progress' } ++ []) := by
  obtain ⟨howned, hrole⟩ := hl
  have hlink := h.link i l hi
  have hnumber := hlink.number_of_load hrole
  refine h.move hi hmain hjni hjobs ⟨rfl, rfl⟩ ?_ (fun j x hne hj hx ↦ ?_) (fun _ ↦ ?_) hsound
  · rw [hnumber, number, howned]
    rfl
  · refine ⟨fun hc ↦ hlatest ▸ hx.cleared hc, fun k hk ↦ ⟨hfresh k (fun heq ↦ ?_) (hx.owned k hk).1, (hx.owned k hk).2⟩,
      fun k c q hq ↦ ?_⟩
    · exact h.number_ne hi hnumber hj hne (heq ▸ number_of_owned hk)
    · have hload := hx.load k c q hq
      refine ⟨fun hk ↦ ?_, fun hon ↦ ?_, fun c' hc ↦ ?_⟩
      · rw [hlatest]
        exact hload.live (hcancelled ▸ hk)
      · rw [hlatest, hstarted]
        exact hload.apart hon
      · rw [hlatest] at hc
        obtain ⟨rfl, hfits⟩ := hload.fits c' hc
        refine ⟨rfl, hother k c' q (fun heq ↦ ?_) hc hfits⟩
        exact h.number_ne hi hnumber hj hne (heq ▸ hx.number_of_load hq)
  · refine ⟨fun hc ↦ hlatest ▸ hlink.cleared hc, fun k hk ↦ ?_, fun k c q hq ↦ ?_⟩
    · rw [howned] at hk
      cases hk
    · cases hq
      have hload := hlink.load job chat progress hrole
      refine ⟨fun hk ↦ ?_, fun hon ↦ ?_, fun c hc ↦ ?_⟩
      · rw [hlatest]
        exact hload.live (hcancelled ▸ hk)
      · rw [hlatest, hstarted]
        exact hload.apart hon
      · rw [hlatest] at hc
        obtain ⟨rfl, hfits⟩ := hload.fits c hc
        exact ⟨rfl, hown hc hfits⟩

/-- The new model is another than those that are stored or about to be stored. -/
theorem Fits.create (h : Fits s job chat progress) (hmade : ∀ x ∈ s.made, x.1 ≤ s.models) (k : ℕ) :
    Fits (s.create k) job chat progress := by
  have hmessages {handle owner : ℕ} (hmem : (handle, owner) ∈ s.made) :
      (s.create k).messages handle = s.messages handle :=
    Function.update_of_ne (Nat.ne_of_lt (Nat.lt_succ_of_le (hmade _ hmem))) _ _
  cases progress with
  | launched => trivial
  | loading => exact h
  | storing handle => exact ⟨h.1, List.mem_cons_of_mem _ h.2.1, (hmessages h.2.1).trans h.2.2⟩
  | filling added todo read handle =>
    exact ⟨h.1, List.mem_cons_of_mem _ h.2.1, (hmessages h.2.1).trans h.2.2.1, h.2.2.2⟩

theorem Inv.create (h : Inv s ls) (hi : ls[i]? = some l) (hl : l.Loads job chat .loading) :
    Inv (s.create job) (ls.set i { l with role := .load job chat (.storing (s.models + 1)) } ++ []) := by
  refine h.advance hi hl rfl rfl rfl rfl rfl rfl (fun k _ hk ↦ hk.congr rfl rfl rfl)
    (fun k c q _ _ hfits ↦ hfits.create h.sound.made job) (fun _ hfits ↦ ⟨hfits, List.mem_cons_self, ?_⟩) fun hs ↦ ?_
  · exact Function.update_self ..
  · refine ⟨hs.current, fun x hx ↦ ?_, fun k hk ↦ hs.numbered k fun hfresh ↦ hk (hfresh.congr rfl rfl rfl),
      hs.succeeded, fun k c hlatest hk ↦ ?_⟩
    · rcases List.mem_cons.mp hx with rfl | hx
      · exact Nat.le_refl _
      · exact Nat.le_succ_of_le (hs.made x hx)
    · obtain ⟨hmade, hmessages⟩ := hs.wins k c hlatest hk
      refine ⟨List.mem_cons_of_mem _ hmade, Eq.trans ?_ hmessages⟩
      exact Function.update_of_ne (Nat.ne_of_lt (Nat.lt_succ_of_le (hs.made _ hmade))) _ _

/-- The last load, or one that the last has not yet overtaken, stores its handle. -/
theorem Inv.store (h : Inv s ls) (hi : ls[i]? = some l) {handle : ℕ} (hl : l.Loads job chat (.storing handle))
    (hguard : ∀ k c, s.latest = some (k, c) → k = job ∨ k ∉ s.stored) :
    Inv { s with ptr := handle, stored := job :: s.stored }
      (ls.set i { l with role := .load job chat (.filling [] chat.opening chat.isTask none) } ++ []) := by
  have hfresh {k : ℕ} (hne : k ≠ job) (hk : Fresh s k) : Fresh { s with ptr := handle, stored := job :: s.stored } k :=
    ⟨hk.started, fun hmem ↦ (List.mem_cons.mp hmem).elim hne hk.stored, hk.succeeded⟩
  refine h.advance hi hl rfl rfl rfl rfl rfl rfl (fun k hne hk ↦ hfresh hne hk) (fun k c q hne hlatest hfits ↦ ?_)
    (fun hlatest hfits ↦ ?_) fun hs ↦ ?_
  · have hstored : k ∉ s.stored := (hguard k c hlatest).resolve_left hne
    have hstored' : k ∉ job :: s.stored := fun hmem ↦ (List.mem_cons.mp hmem).elim hne hstored
    cases q with
    | launched => trivial
    | loading => exact ⟨hfits.1, hstored'⟩
    | storing handle' => exact ⟨⟨hfits.1.1, hstored'⟩, hfits.2⟩
    | filling added todo read handle' => exact absurd hfits.1.2 hstored
  · obtain ⟨⟨hstarted, hstored⟩, hmade, hmessages⟩ := hfits
    refine ⟨⟨hstarted, List.mem_cons_self⟩, hmade, hmessages, ?_, fun k hk ↦ (by cases hk), fun hsucceeded ↦ ?_⟩
    · cases htask : chat.isTask <;> simp [said, storedMessages, htask]
    · exact absurd (h.sound.succeeded job chat hlatest hsucceeded).2 hstored
  · refine ⟨hs.current, hs.made, fun k hk ↦ ?_, fun k c hlatest hk ↦ ?_, fun k c hlatest hk ↦ ?_⟩
    · by_cases hne : k = job
      · rw [hne]
        exact h.number_lt hi ((h.link i l hi).number_of_load hl.2)
      · exact hs.numbered k fun hfresh' ↦ hk (hfresh hne hfresh')
    · exact ⟨(hs.succeeded k c hlatest hk).1, List.mem_cons_of_mem _ (hs.succeeded k c hlatest hk).2⟩
    · have hstored := (hs.succeeded k c hlatest hk).2
      obtain rfl := (hguard k c hlatest).resolve_right fun hnot ↦ hnot hstored
      exact absurd hstored (((h.link i l hi).load k chat _ hl.2).fits c hlatest).2.1.2

theorem Inv.forget (h : Inv s ls) (hi : ls[i]? = some l) (hl : l.cleared = true) (handle : ℕ) :
    Inv { s with ptr := handle } (ls.set i l ++ []) := by
  have hnone : s.latest = none := ((h.link i l hi).cleared hl).2
  have hlatest {k : ℕ} {c : Chat} (hk : s.latest = some (k, c)) : False := by
    rw [hnone] at hk
    cases hk
  have hlink (x : Local) (hx : Link s x) : Link { s with ptr := handle } x := by
    refine ⟨hx.cleared, fun k hk ↦ ⟨(hx.owned k hk).1.congr rfl rfl rfl, (hx.owned k hk).2⟩, fun k c q hq ↦ ?_⟩
    have hload := hx.load k c q hq
    exact ⟨hload.live, hload.apart, fun c hc ↦ (hlatest hc).elim⟩
  refine h.move hi rfl rfl rfl ⟨rfl, rfl⟩ rfl (fun _ x _ _ hx ↦ hlink x hx) (hlink l) fun hs ↦ ?_
  exact ⟨hs.current, hs.made, fun k hk ↦ hs.numbered k fun hfresh ↦ hk (hfresh.congr rfl rfl rfl), hs.succeeded,
    fun k c hk ↦ (hlatest hk).elim⟩

theorem Inv.add (h : Inv s ls) (hi : ls[i]? = some l) (hjni : l.jni = some true) {message : Spoken}
    {added todo : List Spoken} {read : Bool} {handle : ℕ}
    (hl : l.Loads job chat (.filling added (message :: todo) read (some handle))) :
    Inv (s.finish i (.addChatMessage message) handle)
      (ls.set i { l with role := .load job chat (.filling (added ++ [message]) todo read (some handle)) } ++ []) := by
  have hload := (h.link i l hi).load job chat _ hl.2
  have hapart {k : ℕ} {c : Chat} (hlatest : s.latest = some (k, c)) (hne : k ≠ job) : k ∉ s.started :=
    hload.apart hjni k c hlatest hne
  refine h.advance hi hl rfl rfl rfl rfl rfl rfl (fun k _ hk ↦ hk.congr rfl rfl rfl) (fun k c q hne hlatest hfits ↦ ?_)
    (fun hlatest hfits ↦ ?_) fun hs ↦ ?_
  · cases q with
    | launched => trivial
    | loading => exact absurd hfits.1 (hapart hlatest hne)
    | storing handle' => exact absurd hfits.1.1 (hapart hlatest hne)
    | filling added' todo' read' handle' => exact absurd hfits.1.1 (hapart hlatest hne)
  · obtain ⟨hdone, hmade, hmessages, hsaid, hhandle, hsucceeded⟩ := hfits
    obtain rfl := hhandle handle rfl
    refine ⟨hdone, hmade, ?_, ?_, hhandle, fun hk ↦ ?_⟩
    · rw [← hmessages]
      exact Function.update_self ..
    · rw [List.append_assoc]
      exact hsaid
    · cases (hsucceeded hk).1
  · refine ⟨hs.current, hs.made, fun k hk ↦ hs.numbered k fun hfresh ↦ hk (hfresh.congr rfl rfl rfl), hs.succeeded,
      fun k c hlatest hk ↦ ?_⟩
    by_cases hne : k = job
    · subst hne
      cases ((hload.fits c hlatest).2.2.2.2.2.2 hk).1
    · exact absurd (hs.succeeded k c hlatest hk).1 (hapart hlatest hne)

theorem Inv.read (h : Inv s ls) (hi : ls[i]? = some l) {added : List Spoken} {handle : Option ℕ}
    (hl : l.Loads job chat (.filling added [] false handle)) (htask : chat.isTask = false) :
    Inv s (ls.set i { l with role := .load job chat (.filling added
      ((s.rows.filter fun m ↦ m.chatId = chat.id).map ChatMessage.spoken) true handle) } ++ []) := by
  refine h.advance hi hl rfl rfl rfl rfl rfl rfl (fun _ _ hk ↦ hk) (fun _ _ _ _ _ hfits ↦ hfits) (fun _ hfits ↦ ?_) id
  obtain ⟨hdone, hmade, hmessages, hsaid, hhandle, hsucceeded⟩ := hfits
  refine ⟨hdone, hmade, hmessages, ?_, hhandle, fun hk ↦ ?_⟩
  · have hadded : added = chat.opening := by simpa [said] using hsaid
    simp [hadded, said, storedMessages, htask]
  · cases (hsucceeded hk).2

theorem Inv.succeed (h : Inv s ls) (hi : ls[i]? = some l) {added : List Spoken} {handle : Option ℕ}
    (hl : l.Loads job chat (.filling added [] true handle)) :
    Inv { s with succeeded := job :: s.succeeded }
      (ls.set i { l with role := .load job chat (.filling added [] true handle) } ++ []) := by
  have hfits {c : Chat} := ((h.link i l hi).load job chat _ hl.2).fits c
  have hfresh {k : ℕ} (hne : k ≠ job) (hk : Fresh s k) : Fresh { s with succeeded := job :: s.succeeded } k :=
    ⟨hk.started, hk.stored, fun hmem ↦ (List.mem_cons.mp hmem).elim hne hk.succeeded⟩
  refine h.advance hi hl rfl rfl rfl rfl rfl rfl (fun k hne hk ↦ hfresh hne hk) (fun k c q hne _ hfits ↦ ?_)
    (fun _ hfits ↦ ?_) fun hs ↦ ?_
  · cases q with
    | launched => trivial
    | loading => exact hfits
    | storing handle' => exact hfits
    | filling added' todo' read' handle' =>
      obtain ⟨hdone, hmade, hmessages, hsaid, hhandle, hsucceeded⟩ := hfits
      exact ⟨hdone, hmade, hmessages, hsaid, hhandle, fun hk ↦ hsucceeded ((List.mem_cons.mp hk).resolve_left hne)⟩
  · obtain ⟨hdone, hmade, hmessages, hsaid, hhandle, -⟩ := hfits
    exact ⟨hdone, hmade, hmessages, hsaid, hhandle, fun _ ↦ ⟨rfl, rfl⟩⟩
  · refine ⟨hs.current, hs.made, fun k hk ↦ ?_, fun k c hlatest hk ↦ ?_, fun k c hlatest hk ↦ ?_⟩
    · by_cases hne : k = job
      · rw [hne]
        exact h.number_lt hi ((h.link i l hi).number_of_load hl.2)
      · exact hs.numbered k fun hfresh' ↦ hk (hfresh hne hfresh')
    · rcases List.mem_cons.mp hk with rfl | hk
      · exact (hfits hlatest).2.1
      · exact hs.succeeded k c hlatest hk
    · rcases List.mem_cons.mp hk with rfl | hk
      · obtain ⟨rfl, -, hmade, hmessages, hsaid, -⟩ := hfits hlatest
        have hsaid : added = c.opening ++ storedMessages s c := by simpa [said] using hsaid
        exact ⟨hmade, hmessages.trans hsaid⟩
      · exact hs.wins k c hlatest hk

theorem Inv.point (h : Inv s ls) (hi : ls[i]? = some l) :
    Inv s (ls.set i { l with role := l.role.move fun _ ↦ .point s.ptr } ++ []) := by
  have hjob (role : Role) : (role.move fun _ ↦ .point s.ptr).job = role.job := by cases role <;> rfl
  refine h.move hi rfl rfl rfl ⟨rfl, rfl⟩ ?_ (fun _ _ _ _ hx ↦ hx) (fun hx ↦ ?_) id
  · rw [number, number, hjob]
  · refine ⟨hx.cleared, fun k hk ↦ ⟨(hx.owned k hk).1, fun j hj ↦ (hx.owned k hk).2 j ?_⟩, fun k c q hq ↦ ?_⟩
    · rw [← hjob l.role]
      exact hj
    · cases hrole : l.role with
      | event =>
        simp only [hrole, Role.move] at hq
        cases hq
      | load job chat progress =>
        simp only [hrole, Role.move] at hq
        cases hq
        have hload := hx.load k c progress hrole
        refine ⟨hload.live, hload.apart, fun c' hc ↦ ⟨(hload.fits c' hc).1, ?_⟩⟩
        have hfits := (hload.fits c' hc).2
        cases progress with
        | filling added todo read handle =>
          obtain ⟨hdone, hmade, hmessages, hsaid, -, hsucceeded⟩ := hfits
          exact ⟨hdone, hmade, hmessages, hsaid, fun k hk ↦ (Option.some.inj hk).symm, hsucceeded⟩
        | _ => exact hfits

theorem Inv.call {rounds : ℕ} {op : ManagerOp} {offer r : managerSig.Resp op} (h : Inv s ls) (hi : ls[i]? = some l)
    (hallow : disc.allow l op) (hG : inOrder s op = true) (hact : act i op offer s = some (r, s')) :
    Inv s' (ls.set i (disc.next l op r) ++ ((spawned rounds op).map fun _ ↦ spawnLocal op).toList) := by
  have hid : ∀ job ∈ s.cancelled, job ∈ s.cancelled := fun _ ↦ id
  cases op with
  | onMain job =>
    obtain ⟨hfree, heq⟩ := Option.ite_none_left_eq_some.mp hact
    cases heq
    exact h.onMain hi (by simpa using hfree)
  | offMain =>
    cases hact
    exact h.offMain hi hallow
  | start job =>
    obtain ⟨hfree, heq⟩ := Option.ite_none_left_eq_some.mp hact
    obtain ⟨howned, chat, hrole⟩ := hallow
    have hfree : s.jni = false := by simpa using hfree
    split at heq
    · cases heq
      exact h.onJni hi ((h.link i l hi).owned job howned).2 hfree false (by simp)
    · cases heq
      simp only [disc, hrole, Role.move, Progress.start]
      exact h.start hi howned hrole hfree ‹_›
  | onJni job =>
    obtain ⟨hfree, heq⟩ := Option.ite_none_left_eq_some.mp hact
    cases heq
    exact h.onJni hi hallow (by simpa using hfree) _ of_decide_eq_true
  | offJni =>
    cases hact
    exact h.offJni hi hallow
  | lock =>
    obtain ⟨-, heq⟩ := Option.ite_none_left_eq_some.mp hact
    cases heq
    exact h.frame hi hid ..
  | cancelInit =>
    cases hact
    exact h.cancelInit hi hallow
  | cancelResponse =>
    cases hact
    exact h.frame hi (fun _ hmem ↦ List.mem_append_right _ hmem) ..
  | newJob =>
    cases hact
    exact h.newJob hi hallow.1 hallow.2
  | launchLoad job chat modelPath =>
    cases hact
    obtain ⟨hmain, hcleared, howned, hrole⟩ := hallow
    exact h.launchLoad hi hmain hcleared howned hrole chat
  | launchResponse job query => cases hG
  | launchBenchmark job => cases hG
  | nativePtr =>
    cases hact
    exact h.point hi
  | setNativePtr owner handle =>
    cases owner with
    | none =>
      cases hact
      exact h.forget hi hallow handle
    | some job =>
      cases hact
      obtain ⟨chat, hl⟩ := hallow
      have hguard : ∀ k c, s.latest = some (k, c) → k = job ∨ k ∉ s.stored := by
        intro k c hlatest
        simpa [inOrder, hlatest] using hG
      simp only [disc, hl.2, Role.move]
      exact h.store hi hl hguard
  | loadModel job modelPath =>
    obtain ⟨chat, hl⟩ := hallow
    cases offer with
    | none =>
      cases hact
      exact h.frame hi hid ..
    | some _ =>
      cases hact
      simp only [disc, hl.2, Role.move]
      exact h.create hi hl
  | leave call handle =>
    cases call with
    | addChatMessage message =>
      cases hact
      obtain ⟨hjni, job, chat, added, todo, read, hl⟩ := hallow
      simp only [disc, hl.2, Role.move, Progress.add]
      exact h.add hi hjni hl
    | _ =>
      cases hact
      exact h.frame hi hid ..
  | getMessagesForModel chatId =>
    cases hact
    obtain ⟨job, chat, added, handle, hl, htask, rfl⟩ := hallow
    simp only [disc, hl.2, Role.move, Progress.read]
    exact h.read hi hl htask
  | addAssistantMessage chatId message => exact hallow.elim
  | callback owner callback =>
    cases callback with
    | loaded =>
      cases owner with
      | none =>
        cases hact
        exact h.frame hi hid ..
      | some job =>
        cases hact
        obtain ⟨chat, added, handle, hl⟩ := hallow
        have hsucceeded := h.succeed hi hl
        rw [← hl.2] at hsucceeded
        exact hsucceeded
    | _ =>
      cases hact
      exact h.frame hi hid ..
  | _ =>
    cases hact
    exact h.frame hi hid ..

def outline (rounds : ℕ) : Outline (machine rounds) storesInOrder Local where
  disc := disc
  final _ := True
  entryLocal _ := idle
  spawnLocal := spawnLocal
  inv := Inv
  entry_wp _ input _ := entry_wp input
  spawn_wp _ _ _ _ hG hp := spawn_wp hG hp
  inv_start s ls input _ h := by
    refine ⟨h.main.append (by simp [idle]), h.jni.append (by simp [idle]),
      fun job ↦ (h.jobs job).append (by simp [idle, number, Role.job]), fun j x hx ↦ ?_, h.sound⟩
    rw [List.getElem?_append] at hx
    split at hx
    · exact h.link j x hx
    · obtain rfl := List.mem_singleton.mp (List.mem_of_getElem? hx)
      exact ⟨fun hc ↦ (by cases hc), fun k hk ↦ (by cases hk), fun k c q hq ↦ by cases hq⟩
  inv_call s ls i l op offer r s' hi hallow hG hact h := ⟨trivial, h.call hi hallow hG hact⟩

/-- In every run of loads and unloads in which no load stores its handle over that of a later one,
the last load wins. -/
theorem last_load_wins (rounds : ℕ) (rows : List ChatMessage) {c : Configuration}
    (h : (machine rounds).Reachable storesInOrder ⟨.init rows, []⟩ c) : LastWins c.shared := by
  have hinit : Inv (.init rows) [] := by
    refine ⟨Sole.nil, Sole.nil, fun _ ↦ Sole.nil, fun i l hl ↦ (by cases hl), ⟨fun k c hk ↦ (by cases hk),
      fun x hx ↦ (by cases hx), fun k hk ↦ ?_, fun k c hk ↦ (by cases hk), fun k c hk ↦ by cases hk⟩⟩
    exact absurd ⟨List.not_mem_nil, List.not_mem_nil, List.not_mem_nil⟩ hk
  obtain ⟨ls, -, hinv⟩ := (outline rounds).reachable h (Outline.holds_init _ hinit)
  exact hinv.sound.wins

/-! Two loads -/

def first : Chat := ⟨1, "A".toList, 5, false⟩

def second : Chat := ⟨2, "B".toList, 5, false⟩

def rows : List ChatMessage := [⟨1, "hi".toList, true⟩, ⟨2, "hello".toList, true⟩]

/-- The second load begins while the native call of the first is on its way. -/
def twoLoads : List (Label managerSig Input) :=
  [.start (.load first "m.gguf".toList)] ++ calls 0 8 ++ calls 1 3 ++
  [.start (.load second "m.gguf".toList)] ++ calls 2 8 ++ calls 3 3

def firstBefore : List (Label managerSig Input) := twoLoads ++ calls 1 2 ++ calls 3 20

def firstAfter : List (Label managerSig Input) := twoLoads ++ calls 3 20 ++ calls 1 2

def Shared.summary (s : Shared) : Option (ℕ × Chat) × List ℕ × ℕ × List (ℕ × ℕ) :=
  (s.latest, s.succeeded, s.ptr, s.made)

theorem first_before_last_wins : ∃ c, (machine 0).run (fun s _ op ↦ inOrder s op)
    ⟨.init rows, []⟩ firstBefore = some c ∧
    Shared.summary c.shared = (some (1, second), [1], 2, [(2, 1), (1, 0)]) ∧ LastWins c.shared := by
  have h : ((machine 0).run (fun s _ op ↦ inOrder s op) ⟨.init rows, []⟩ firstBefore).map (fun c ↦
      Shared.summary c.shared) = some (some (1, second), [1], 2, [(2, 1), (1, 0)]) := by decide +kernel
  obtain ⟨c, hc, hsummary⟩ := Option.map_eq_some_iff.mp h
  refine ⟨c, hc, hsummary, last_load_wins 0 rows ?_⟩
  exact Machine.reachable_of_run _ (fun _ _ ↦ trivial) (fun _ _ _ ↦ id) hc

/-- After `onSuccess` of the second load, `nativePtr` is the model of the first. -/
theorem first_after_loses : ∃ c, (machine 0).run (fun _ _ _ ↦ true) ⟨.init rows, []⟩ firstAfter = some c ∧
    Shared.summary c.shared = (some (1, second), [1], 2, [(2, 0), (1, 1)]) ∧ ¬LastWins c.shared := by
  have h : ((machine 0).run (fun _ _ _ ↦ true) ⟨.init rows, []⟩ firstAfter).map (fun c ↦
      Shared.summary c.shared) = some (some (1, second), [1], 2, [(2, 0), (1, 1)]) := by decide +kernel
  obtain ⟨c, hc, hsummary⟩ := Option.map_eq_some_iff.mp h
  refine ⟨c, hc, hsummary, fun hwins ↦ ?_⟩
  obtain ⟨hlatest, hrest⟩ := Prod.mk.inj hsummary
  obtain ⟨hsucceeded, hrest⟩ := Prod.mk.inj hrest
  obtain ⟨hptr, hmade⟩ := Prod.mk.inj hrest
  have hmem := (hwins 1 second hlatest (hsucceeded ▸ List.mem_singleton_self 1)).1
  rw [hptr, hmade] at hmem
  exact absurd hmem (by decide)

end Aigentik.LastLoad
