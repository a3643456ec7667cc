import Aigentik.Chat.ChatScreen

namespace Aigentik.ChatCoroutines

open Strings Effects ChatScreen

/-- Where a response coroutine is; once it has read the chat, which one it has found. -/
inductive Place
  | queued | generating | answered
  | read (current : Option ℕ)
  | over
  deriving DecidableEq

def Place.phase : Place → Phase
  | .queued => .queued
  | .generating => .generating
  | .answered => .answered
  | .read _ | .over => .over

inductive Role
  | event
  | load (job : ℕ) (chat : Chat) (stage : Stage)
  | response (job chatId : ℕ) (place : Place)

def Role.job : Role → Option ℕ
  | .event => none
  | .load job .. | .response job .. => some job

def Role.moveLoad (f : Chat → Stage → Stage) : Role → Role
  | .load job chat stage => .load job chat (f chat stage)
  | role => role

def Role.moveResponse (place : Place) : Role → Role
  | .response job chatId _ => .response job chatId place
  | role => role

/-- The dispatcher that a coroutine runs on, whether its job was active when it got there, what
it knows of the loading state, and the number of a job that it is about to launch. -/
structure Local where
  main : Bool := false
  jni : Bool := false
  active : Bool := false
  seen : Option ModelLoadingState := none
  owned : Option ℕ := none
  role : Role := .event

/-- The native calls of a response. -/
def Generates (l : Local) (job chatId : ℕ) : Prop := l.jni = true ∧ l.role = .response job chatId .generating

def disc : Discipline chatSig Local where
  allow
    | l, .onMain job => l.main = false ∧ l.jni = false ∧ job = l.role.job
    | l, .offMain => l.main = true
    | l, .startLoad job => l.main = false ∧ l.jni = false ∧ ∃ chat, l.role = .load job chat .launched
    | l, .startResponse job => l.main = false ∧ l.jni = false ∧ ∃ chatId, l.role = .response job chatId .queued
    | l, .onJni job => l.main = false ∧ l.jni = false ∧ l.role.job = some job
    | l, .offJni => l.jni = true
    | l, .isActive job => l.role.job = some job
    | l, .newJob => l.role = .event
    | l, .canSend => l.main = true
    | l, .setLoadingState state => l.main = true ∧
      (state = .success → l.active = true ∧ ∃ job chat, l.role = .load job chat .loaded)
    | l, .load job .. => l.main = true ∧ l.role = .event ∧ l.owned = some job ∧ l.seen = some .inProgress
    | l, .launchResponse job .. => l.main = true ∧ l.role = .event ∧ l.owned = some job ∧ l.seen = some .success
    | l, .unload => l.main = true
    | l, .stopResponseGeneration => l.main = true
    | l, .setInstanceLoaded job => l.main = true ∧ l.active = true ∧
      ∃ chat added, l.role = .load job chat (.filling added [])
    | l, .endInference job => l.role.job = some job
    | l, .readChat job => ∃ chatId, l.role = .response job chatId .answered
    | l, .setNativePtr job _ => ∃ chat, l.role = .load job chat .started
    | l, .addChatMessage job message => l.jni = true ∧ l.active = true ∧
      ∃ chat added todo, l.role = .load job chat (.filling added (message :: todo))
    | l, .getMessagesForModel job chatId => ∃ chat added, l.role = .load job chat (.filling added []) ∧ chatId = chat.id
    | l, .startCompletion job chatId _ => Generates l job chatId
    | l, .completionLoop job chatId => Generates l job chatId
    | l, .stopCompletion job chatId => Generates l job chatId
    | l, .addAssistantMessage job sent chatId _ =>
      l.role = .response job sent (.read (some chatId)) ∧ sent = chatId
    | _, _ => True
  may
    | l, .isActive _, r => ∀ job chatId current, l.role = .response job chatId (.read (some current)) → r = true →
      current = chatId
    | _, _, _ => True
  next
    | l, .onMain _, r => { l with main := true, active := r }
    | l, .offMain, _ => { l with main := false, active := false, seen := none }
    | l, .startLoad _, true => { l with jni := true, active := true, role := l.role.moveLoad fun _ _ ↦ .started }
    | l, .startLoad _, false => { l with jni := true, active := false }
    | l, .startResponse _, true =>
      { l with jni := true, active := true, role := l.role.moveResponse .generating }
    | l, .startResponse _, false => { l with jni := true, active := false }
    | l, .onJni _, r => { l with jni := true, active := r }
    | l, .offJni, _ => { l with jni := false, active := false }
    | l, .newJob, job => { l with owned := some job }
    | l, .canSend, true => { l with seen := some .success }
    | l, .setLoadingState state, _ => { l with seen := some state }
    | l, .load .., _ => { l with owned := none }
    | l, .launchResponse .., _ => { l with owned := none }
    | l, .setInstanceLoaded _, _ => { l with role := l.role.moveLoad fun _ _ ↦ .loaded }
    | l, .endInference _, _ => { l with role := l.role.moveResponse .over }
    | l, .readChat _, current => { l with role := l.role.moveResponse (.read (current.map Chat.id)) }
    | l, .setNativePtr .., _ => { l with role := l.role.moveLoad fun chat _ ↦ .filling [] chat.opening }
    | l, .addChatMessage .., _ => { l with role := l.role.moveLoad fun _ ↦ Stage.add }
    | l, .getMessagesForModel .., messages => { l with role := l.role.moveLoad fun _ ↦ Stage.read messages }
    | l, .stopCompletion .., _ => { l with role := l.role.moveResponse .answered }
    | l, .addAssistantMessage .., _ => { l with role := l.role.moveResponse .over }
    | l, _, _ => l

/-! Events -/

variable {α : Type} {l : Local} {job : ℕ} {chat : Chat}

/-- An event on the main thread, before and after each of its parts. -/
structure Shown (l : Local) : Prop where
  main : l.main = true
  jni : l.jni = false
  role : l.role = .event

structure Waiting (l : Local) : Prop where
  main : l.main = false
  jni : l.jni = false
  role : l.role = .event

abbrev Shows (α : Type) : Except Thrown α → Local → Prop := Prog.exits (fun _ ↦ Shown) fun _ _ ↦ True

abbrev Waits : Except Thrown Unit → Local → Prop := Prog.exits (fun _ ↦ Waiting) fun _ _ ↦ True

theorem waits_bind {p q : Coroutine Unit} (hp : p.wp disc Waits l) (hq : ∀ l, Waiting l → q.wp disc Waits l) :
    (p >>= fun _ ↦ q).wp disc Waits l := by
  refine (Prog.wp_bind _ _).mpr (Prog.wp_mono hp fun o l hl ↦ ?_)
  cases o with
  | ok _ => exact hq l hl
  | error e => trivial

theorem onMainThread_wp {p : Coroutine Unit} (hl : Waiting l) (hp : ∀ l, Shown l → p.wp disc (Shows Unit) l) :
    (onMainThread p).wp disc Waits l := by
  have hjob : none = l.role.job := by
    rw [hl.role]
    rfl
  refine ⟨⟨hl.main, hl.jni, hjob⟩, fun r _ ↦ ?_⟩
  have hshown : Shown { l with main := true, active := r } := ⟨rfl, hl.jni, hl.role⟩
  change Prog.wp disc _ (p >>= _) _
  refine (Prog.wp_bind _ _).mpr (Prog.wp_mono (hp _ hshown) fun o l hl ↦ ?_)
  cases o with
  | ok _ => exact ⟨hl.main, fun _ _ ↦ ⟨rfl, hl.jni, hl.role⟩⟩
  | error e => trivial

theorem loadModel_wp (hl : Shown l) : loadModel.wp disc (Shows Unit) l :=
  ⟨trivial, fun _ _ ↦ ⟨trivial, fun _ _ ↦ hl⟩⟩

theorem switchChat_wp (hl : Shown l) : (switchChat chat).wp disc (Shows Unit) l :=
  ⟨hl.main, fun _ _ ↦ ⟨trivial, fun _ _ ↦ loadModel_wp hl⟩⟩

theorem unloadModel_wp (hl : Shown l) : unloadModel.wp disc (Shows Unit) l := by
  refine ⟨trivial, fun inferring _ ↦ ?_⟩
  cases inferring with
  | true => exact hl
  | false =>
    refine ⟨hl.main, fun _ _ ↦ ⟨⟨hl.main, nofun⟩, fun _ _ ↦ ?_⟩⟩
    exact ⟨hl.main, hl.jni, hl.role⟩

theorem sendUserQuery_wp (query : Str) (hl : Shown l) (hseen : l.seen = some .success) :
    (sendUserQuery query).wp disc (Shows Unit) l := by
  refine ⟨trivial, fun chat _ ↦ ⟨trivial, fun _ _ ↦ ⟨trivial, fun loaded _ ↦ ?_⟩⟩⟩
  cases loaded with
  | false => exact hl
  | true =>
    refine ⟨hl.role, fun job _ ↦ ⟨⟨hl.main, hl.role, rfl, hseen⟩, fun _ _ ↦ ?_⟩⟩
    exact ⟨hl.main, hl.jni, hl.role⟩

theorem onEvent_wp (event : ChatEvent) : (onEvent event).wp disc (fun _ _ ↦ True) {} := by
  have hl : Waiting {} := ⟨rfl, rfl, rfl⟩
  suffices h : (onEvent event).wp disc Waits {} from Prog.wp_mono h fun _ _ _ ↦ trivial
  cases event with
  | switchChat chat => exact onMainThread_wp hl fun l ↦ switchChat_wp
  | newChat => exact ⟨trivial, fun id _ ↦ onMainThread_wp hl fun l ↦ switchChat_wp⟩
  | updateChatModel modelId =>
    refine waits_bind (onMainThread_wp hl fun l hl ↦ ?_) fun l hl ↦ onMainThread_wp hl fun l ↦ loadModel_wp
    exact ⟨trivial, fun chat _ ↦ ⟨trivial, fun _ _ ↦ hl⟩⟩
  | updateChatSettings systemPrompt existingChat =>
    refine waits_bind (onMainThread_wp hl fun l hl ↦ ⟨trivial, fun _ _ ↦ hl⟩) fun l hl ↦
      onMainThread_wp hl fun l hl ↦ ?_
    refine (Prog.wp_bind _ _).mpr (Prog.wp_mono (unloadModel_wp hl) fun o l hl ↦ ?_)
    cases o with
    | ok _ => exact loadModel_wp hl
    | error e => trivial
  | stopGeneration => exact onMainThread_wp hl fun l hl ↦ ⟨hl.main, fun _ _ ↦ hl⟩
  | sendUserQuery query =>
    refine onMainThread_wp hl fun l hl ↦ ⟨hl.main, fun sendable _ ↦ ?_⟩
    cases sendable with
    | true => exact sendUserQuery_wp query ⟨hl.main, hl.jni, hl.role⟩ rfl
    | false => exact ⟨hl.main, hl.jni, hl.role⟩

theorem loadModelCoroutine_wp (chat : Chat) : (loadModelCoroutine chat).wp disc (fun _ _ ↦ True) {} := by
  refine ⟨trivial, fun modelPath _ ↦ ?_⟩
  suffices h : (onMainThread _).wp disc Waits {} from Prog.wp_mono h fun _ _ _ ↦ trivial
  refine onMainThread_wp ⟨rfl, rfl, rfl⟩ fun l hl ↦ ?_
  split
  · exact hl
  · refine ⟨⟨hl.main, nofun⟩, fun _ _ ↦ ⟨hl.role, fun job _ ↦ ?_⟩⟩
    exact ⟨⟨hl.main, hl.role, rfl, rfl⟩, fun _ _ ↦ ⟨hl.main, hl.jni, hl.role⟩⟩

theorem storeQuery_wp (chat : Chat) (query : Str) : (storeQuery chat query).wp disc (fun _ _ ↦ True) {} := by
  unfold storeQuery
  split
  · exact ⟨trivial, fun _ _ ↦ ⟨trivial, fun _ _ ↦ trivial⟩⟩
  · exact ⟨trivial, fun _ _ ↦ trivial⟩

/-! Coroutines of the native dispatcher -/

/-- A coroutine on its dispatcher. -/
structure Working (job : ℕ) (l : Local) : Prop where
  main : l.main = false
  jni : l.jni = true
  own : l.role.job = some job

theorem moveResponse_job (place : Place) (role : Role) : (role.moveResponse place).job = role.job := by
  cases role <;> rfl

abbrev Works (job : ℕ) (α : Type) : Except Thrown α → Local → Prop := fun _ ↦ Working job

/-- A suspending call that leaves the role `after a` where it answers `a`. -/
theorem suspending_wp {p : Coroutine α} {Q : Except Thrown α → Local → Prop} (after : α → Role) (hl : Working job l)
    (hp : (∀ chatId current, l.role = .response job chatId (.read (some current)) → current = chatId) →
      p.wp disc (Prog.exits (fun a l' ↦ l' = { l with jni := false, active := false, role := after a } ∧
        (after a).job = some job) fun _ _ ↦ False) { l with jni := false, active := false })
    (hok : ∀ a, (after a).job = some job → Q (.ok a) { l with jni := true, active := true, role := after a })
    (hthrow : ∀ l', Working job l' → Q (.error .cancelled) l') : (suspending job p).wp disc Q l := by
  refine ⟨hl.jni, fun _ _ ↦ ⟨hl.own, fun r hmay ↦ ?_⟩⟩
  cases r with
  | false =>
    refine ⟨⟨hl.main, rfl, hl.own⟩, fun r _ ↦ ?_⟩
    cases r <;> exact hthrow _ ⟨hl.main, rfl, hl.own⟩
  | true =>
    have hp := hp fun chatId current hrole ↦ hmay job chatId current hrole rfl
    change Prog.wp disc Q ((some <$> p) >>= _) _
    rw [map_eq_pure_bind, bind_assoc]
    refine (Prog.wp_bind _ _).mpr (Prog.wp_mono hp fun o l' hl' ↦ ?_)
    cases o with
    | error e => exact hl'.elim
    | ok a =>
      obtain ⟨rfl, hjob⟩ := hl'
      refine ⟨⟨hl.main, rfl, hjob⟩, fun r _ ↦ ?_⟩
      cases r with
      | true => exact hok a hjob
      | false => exact hthrow _ ⟨hl.main, rfl, hjob⟩

/-- A part of a coroutine that runs on the main thread; the job is active there. -/
theorem withMain_wp {p : Coroutine Unit} (hl : Working job l)
    (hp : p.wp disc (Prog.exits (fun _ l' ↦ l'.main = true ∧ l'.jni = false ∧ l'.role.job = some job) fun _ _ ↦ False)
      { l with main := true, jni := false, active := true }) : (withMain job p).wp disc (Works job Unit) l := by
  refine ⟨hl.jni, fun _ _ ↦ ⟨⟨hl.main, rfl, hl.own.symm⟩, fun started _ ↦ ?_⟩⟩
  have hback {l' : Local} (started : Bool) (hmain : l'.main = true) (hjni : l'.jni = false)
      (hjob : l'.role.job = some job) : Prog.wp disc (Works job Unit) (do
        perform .offMain
        if ← onJni job then
          if started then return () else Prog.throw .cancelled
        else Prog.throw .cancelled) l' := by
    refine ⟨hmain, fun _ _ ↦ ⟨⟨rfl, hjni, hjob⟩, fun r _ ↦ ?_⟩⟩
    cases r with
    | false => exact ⟨rfl, rfl, hjob⟩
    | true => cases started <;> exact ⟨rfl, rfl, hjob⟩
  cases started with
  | false => exact hback false rfl rfl hl.own
  | true =>
    change Prog.wp disc _ (p >>= _) _
    refine (Prog.wp_bind _ _).mpr (Prog.wp_mono hp fun o l' hl' ↦ ?_)
    cases o with
    | error e => exact hl'.elim
    | ok _ =>
      obtain ⟨hmain, hjni, hjob⟩ := hl'
      exact hback true hmain hjni hjob

/-- A load on its dispatcher that still has these messages to add. -/
structure Filling (job : ℕ) (chat : Chat) (todo : List Spoken) (l : Local) : Prop extends Working job l where
  active : l.active = true
  role : ∃ added, l.role = .load job chat (.filling added todo)

abbrev Fills (job : ℕ) (chat : Chat) : Except Thrown Unit → Local → Prop :=
  Prog.exits (fun _ ↦ Filling job chat []) fun _ ↦ Working job

theorem addChatMessage_wp {message : Spoken} {todo : List Spoken} {Q : Except Thrown Unit → Local → Prop}
    (hl : Filling job chat (message :: todo) l) (hQ : ∀ l, Filling job chat todo l → Q (.ok ()) l) :
    (perform (.addChatMessage job message)).wp disc Q l := by
  obtain ⟨added, hrole⟩ := hl.role
  refine ⟨⟨hl.jni, hl.active, chat, added, todo, hrole⟩, fun _ _ ↦ hQ _ ?_⟩
  have hrole' : l.role.moveLoad (fun _ ↦ Stage.add) = .load job chat (.filling (added ++ [message]) todo) := by
    rw [hrole]
    rfl
  exact ⟨⟨hl.main, hl.jni, congrArg Role.job hrole'⟩, hl.active, _, hrole'⟩

theorem addAll_wp (messages : List ChatMessage) (hl : Filling job chat (messages.map ChatMessage.spoken) l) :
    (addAll job messages).wp disc (Fills job chat) l := by
  induction messages generalizing l with
  | nil => exact hl
  | cons message rest ih =>
    refine (Prog.wp_bind _ _).mpr (addChatMessage_wp hl fun l hl ↦ ?_)
    exact ih hl

theorem addSystemPrompt_wp (hl : Filling job chat chat.opening l) :
    (addSystemPrompt job chat).wp disc (Fills job chat) l := by
  unfold addSystemPrompt
  split
  · rename_i hprompt
    have hopening : chat.opening = [chat.system] := if_pos hprompt
    rw [hopening] at hl
    exact addChatMessage_wp hl fun _ hl ↦ hl
  · rename_i hprompt
    have hopening : chat.opening = [] := if_neg hprompt
    rw [hopening] at hl
    exact hl

theorem addStoredMessages_wp (hl : Filling job chat [] l) :
    (addStoredMessages job chat).wp disc (Fills job chat) l := by
  unfold addStoredMessages
  split
  · exact hl
  · obtain ⟨added, hrole⟩ := hl.role
    refine (Prog.wp_bind _ _).mpr (suspending_wp (fun messages ↦ .load job chat (.filling added
      (messages.map ChatMessage.spoken))) hl.toWorking (fun _ ↦ ?_) (fun messages _ ↦ ?_) fun l' hl' ↦ hl')
    · refine ⟨⟨chat, added, hrole, rfl⟩, fun messages _ ↦ ⟨?_, rfl⟩⟩
      simp only [disc, hrole, Role.moveLoad, Stage.read, List.nil_append]
    · exact addAll_wp messages ⟨⟨hl.main, rfl, rfl⟩, rfl, added, rfl⟩

theorem finishLoad_wp (hl : Filling job chat [] l) :
    (withMain job (do
      perform (.setInstanceLoaded job)
      perform (.setLoadingState .success))).wp disc (Works job Unit) l := by
  obtain ⟨added, hrole⟩ := hl.role
  have hrole' : l.role.moveLoad (fun _ _ ↦ .loaded) = .load job chat .loaded := by
    rw [hrole]
    rfl
  refine withMain_wp hl.toWorking ⟨⟨rfl, rfl, chat, added, hrole⟩, fun _ _ ↦ ?_⟩
  refine ⟨⟨rfl, fun _ ↦ ⟨rfl, job, chat, hrole'⟩⟩, fun _ _ ↦ ?_⟩
  exact ⟨rfl, rfl, congrArg Role.job hrole'⟩

theorem fills_bind {p q : Coroutine Unit} (hp : p.wp disc (Fills job chat) l)
    (hq : ∀ l, Filling job chat [] l → q.wp disc (Works job Unit) l) :
    (p >>= fun _ ↦ q).wp disc (Works job Unit) l := by
  refine (Prog.wp_bind _ _).mpr (Prog.wp_mono hp fun o l hl ↦ ?_)
  cases o with
  | ok _ => exact hq l hl
  | error e => exact hl

theorem loadInstance_wp (modelPath : Str) (hl : Working job l) (hrole : l.role = .load job chat .started) :
    (loadInstance job chat modelPath).wp disc (Works job Unit) l := by
  refine (Prog.wp_bind _ _).mpr (suspending_wp (fun returned ↦ .load job chat (if returned then
    .filling [] chat.opening else .started)) hl (fun _ ↦ ?_) (fun returned _ ↦ ?_) fun l' hl' ↦ hl')
  · refine ⟨trivial, fun returned _ ↦ ?_⟩
    cases returned with
    | false => exact ⟨by rw [hrole]; rfl, rfl⟩
    | true => exact ⟨⟨chat, hrole⟩, fun _ _ ↦ ⟨by rw [hrole]; rfl, rfl⟩⟩
  · cases returned with
    | false => exact ⟨hl.main, rfl, rfl⟩
    | true =>
      refine fills_bind (addSystemPrompt_wp ⟨⟨hl.main, rfl, rfl⟩, rfl, [], rfl⟩) fun l hl ↦ ?_
      exact fills_bind (addStoredMessages_wp hl) fun l hl ↦ finishLoad_wp hl

theorem caught_wp {p : Coroutine Unit} (hp : p.wp disc (Works job Unit) l) :
    (p.tryCatch fun _ ↦ return ()).wp disc (Works job Unit) l := by
  refine (Prog.wp_tryCatch _ _).mpr (Prog.wp_mono hp fun o l hl ↦ ?_)
  cases o <;> exact hl

/-- What a coroutine that has started does, before it leaves its dispatcher. -/
theorem leave_wp (job : ℕ) {p : Coroutine Unit} (hp : p.wp disc (Prog.exits (fun _ ↦ Working job) fun _ _ ↦ True) l) :
    (p >>= fun _ ↦ perform .offJni).wp disc (fun _ _ ↦ True) l := by
  refine (Prog.wp_bind _ _).mpr (Prog.wp_mono hp fun o l hl ↦ ?_)
  cases o with
  | ok _ => exact ⟨hl.jni, fun _ _ ↦ trivial⟩
  | error e => trivial

theorem works_exits {p : Coroutine Unit} (hp : p.wp disc (Works job Unit) l) :
    p.wp disc (Prog.exits (fun _ ↦ Working job) fun _ _ ↦ True) l := by
  refine Prog.wp_mono hp fun o l hl ↦ ?_
  cases o with
  | ok _ => exact hl
  | error e => trivial

theorem loadCoroutine_wp (job : ℕ) (chat : Chat) (modelPath : Str) :
    (loadCoroutine job chat modelPath).wp disc (fun _ _ ↦ True) { role := .load job chat .launched } := by
  refine ⟨⟨rfl, rfl, _, rfl⟩, fun active _ ↦ ?_⟩
  cases active with
  | false => exact ⟨rfl, fun _ _ ↦ trivial⟩
  | true =>
    have hload : (loadInstance job chat modelPath).wp disc (Works job Unit)
        { jni := true, active := true, role := .load job chat .started } :=
          loadInstance_wp modelPath ⟨rfl, rfl, rfl⟩ rfl
    refine leave_wp job ((Prog.wp_tryCatch _ _).mpr (Prog.wp_mono hload fun o l hl ↦ ?_))
    cases o with
    | ok _ => exact hl
    | error e =>
      cases e with
      | cancelled => exact hl
      | exception =>
        refine works_exits (caught_wp (withMain_wp hl ⟨⟨rfl, nofun⟩, fun _ _ ↦ ?_⟩))
        exact ⟨rfl, rfl, hl.own⟩

/-- A response on its dispatcher. -/
structure Answering (job chatId : ℕ) (place : Place) (l : Local) : Prop extends Working job l where
  role : l.role = .response job chatId place

theorem collect_wp {chatId : ℕ} (rounds : ℕ) (response : Str) (hl : Answering job chatId .generating l) :
    (collect job chatId rounds response).wp disc (Prog.exits (fun _ ↦ Answering job chatId .answered)
      fun _ ↦ Working job) l := by
  induction rounds generalizing response with
  | zero => exact hl.toWorking
  | succ rounds ih =>
    refine ⟨⟨hl.jni, hl.role⟩, fun result _ ↦ ?_⟩
    cases result with
    | error => exact hl.toWorking
    | endOfGeneration =>
      refine ⟨⟨hl.jni, hl.role⟩, fun _ _ ↦ ?_⟩
      have hrole : l.role.moveResponse .answered = .response job chatId .answered := by
        rw [hl.role]
        rfl
      exact ⟨⟨hl.main, hl.jni, congrArg Role.job hrole⟩, hrole⟩
    | piece text =>
      refine ⟨hl.own, fun active _ ↦ ?_⟩
      cases active with
      | false => exact hl.toWorking
      | true => exact ih _

theorem finishResponse_wp (hl : Working job l) :
    (withMain job (do
      perform (.endInference job)
      perform (.setChat chat))).wp disc (Works job Unit) l := by
  refine withMain_wp hl ⟨hl.own, fun _ _ ↦ ⟨trivial, fun _ _ ↦ ⟨rfl, rfl, ?_⟩⟩⟩
  exact (moveResponse_job _ _).trans hl.own

theorem respond_wp (rounds : ℕ) (query : Str) (hl : Answering job chat.id .generating l) :
    (respond rounds job chat query).wp disc (Works job Unit) l := by
  refine ⟨trivial, fun _ _ ↦ ⟨⟨hl.jni, hl.role⟩, fun _ _ ↦ ?_⟩⟩
  change Prog.wp disc _ (collect _ _ _ _ >>= _) _
  refine (Prog.wp_bind _ _).mpr (Prog.wp_mono (collect_wp rounds [] hl) fun o l hl ↦ ?_)
  cases o with
  | error e => exact hl
  | ok response =>
    refine ⟨⟨chat.id, hl.role⟩, fun found _ ↦ ?_⟩
    have hrole : l.role.moveResponse (.read (found.map Chat.id)) =
        .response job chat.id (.read (found.map Chat.id)) := by
      rw [hl.role]
      rfl
    have hl' : Working job { l with role := l.role.moveResponse (.read (found.map Chat.id)) } :=
      ⟨hl.main, hl.jni, congrArg Role.job hrole⟩
    cases found with
    | none => exact finishResponse_wp hl'
    | some current =>
      change Prog.wp disc _ (suspending _ _ >>= _) _
      refine (Prog.wp_bind _ _).mpr (suspending_wp (fun _ ↦ .response job chat.id .over) hl' (fun hsure ↦ ?_)
        (fun _ _ ↦ finishResponse_wp ⟨hl.main, rfl, rfl⟩) fun l hl ↦ hl)
      have hcurrent : current.id = chat.id := hsure chat.id current.id hrole
      have hover : (l.role.moveResponse (.read (some current.id))).moveResponse .over =
          .response job chat.id .over := by
        rw [hl.role]
        rfl
      exact ⟨⟨hrole, hcurrent.symm⟩, fun _ _ ↦ ⟨congrArg (fun role ↦ ({ l with jni := false, active := false, role } :
        Local)) hover, rfl⟩⟩

theorem responseCoroutine_wp (rounds job : ℕ) (chat : Chat) (query : Str) :
    (responseCoroutine rounds job chat query).wp disc (fun _ _ ↦ True) { role := .response job chat.id .queued } := by
  refine ⟨⟨rfl, rfl, _, rfl⟩, fun active _ ↦ ?_⟩
  cases active with
  | false => exact ⟨rfl, fun _ _ ↦ trivial⟩
  | true =>
    have hrespond : (respond rounds job chat query).wp disc (Works job Unit)
        { jni := true, active := true, role := .response job chat.id .generating } :=
      respond_wp rounds query ⟨⟨rfl, rfl, rfl⟩, rfl⟩
    refine leave_wp job ((Prog.wp_tryCatch _ _).mpr (Prog.wp_mono hrespond fun o l hl ↦ ?_))
    cases o with
    | ok _ => exact hl
    | error e =>
      refine ⟨hl.own, fun _ _ ↦ ?_⟩
      have hown : (l.role.moveResponse .over).job = some job := (moveResponse_job _ _).trans hl.own
      exact works_exits (caught_wp (withMain_wp ⟨hl.main, hl.jni, hown⟩ ⟨rfl, rfl, hown⟩))

/-! What the launched coroutines start with -/

def spawnLocal : ChatOp → Local
  | .load job chat _ => { role := .load job chat .launched }
  | .launchResponse job chat _ => { role := .response job chat.id .queued }
  | _ => {}

theorem spawn_wp {rounds : ℕ} (op : ChatOp) (p : Coroutine Unit) (hp : spawned rounds op = some p) :
    p.wp disc (fun _ _ ↦ True) (spawnLocal op) := by
  cases op with
  | launchLoadModel chat =>
    obtain rfl := Option.some.inj hp
    exact loadModelCoroutine_wp chat
  | launchStore chat query =>
    obtain rfl := Option.some.inj hp
    exact storeQuery_wp chat query
  | load job chat modelPath =>
    obtain rfl := Option.some.inj hp
    exact loadCoroutine_wp job chat modelPath
  | launchResponse job chat query =>
    obtain rfl := Option.some.inj hp
    exact responseCoroutine_wp rounds job chat query
  | _ => cases hp

end Aigentik.ChatCoroutines
