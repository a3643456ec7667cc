import Aigentik.Chat.ChatScreen

namespace Aigentik.SmolLMManager

open Strings Effects
open ChatScreen (Chat ChatMessage Spoken Thrown)

/-- The native methods that take a handle. -/
inductive NativeCall
  | addChatMessage (message : Spoken)
  | startCompletion (query : Str)
  | completionLoop
  | stopCompletion
  | benchModel
  | getResponseGenerationSpeed
  | getContextSizeUsed
  | close
  deriving DecidableEq

/-- How a native call ends. -/
inductive Answer
  | done
  | piece (text : Str)
  | endOfGeneration
  | error
  deriving DecidableEq

inductive Callback
  | loaded
  | loadFailed
  | notLoaded
  | partialResponse (response : Str)
  | success (response : Str)
  | cancelled
  | failed
  | benchmarked
  | unloaded
  deriving DecidableEq

/-- The accesses to dispatchers, jobs and the lock, to the fields of the manager and of its
instance, to the native library and to the database, and the callbacks. Coroutines bear the number
of their job; a native call is entered and left. -/
inductive ManagerOp
  | onMain (job : Option ℕ)
  | offMain
  | start (job : ℕ)
  | onJni (job : ℕ)
  | offJni
  | isActive (job : ℕ)
  | lock
  | unlock
  | cancelInit
  | cancelResponse
  | newJob
  | launchLoad (job : ℕ) (chat : Chat) (modelPath : Str)
  | launchResponse (job : ℕ) (query : Str)
  | launchBenchmark (job : ℕ)
  | setChat (chat : Option Chat)
  | getChat
  | setInstanceLoaded (loaded : Bool)
  | isInstanceLoaded
  | setInferenceOn (on : Bool)
  | isInferenceOn
  | nativePtr
  | setNativePtr (job : Option ℕ) (handle : ℕ)
  | loadModel (job : ℕ) (modelPath : Str)
  | enter (call : NativeCall) (handle : ℕ)
  | leave (call : NativeCall) (handle : ℕ)
  | getMessagesForModel (chatId : ℕ)
  | addAssistantMessage (chatId : ℕ) (message : Str)
  | callback (job : Option ℕ) (callback : Callback)
  deriving DecidableEq

def managerSig : Sig where
  Op := ManagerOp
  Resp
    | .onMain _ | .start _ | .onJni _ | .isActive _ | .isInstanceLoaded | .isInferenceOn => Bool
    | .newJob | .nativePtr => ℕ
    | .getChat => Option Chat
    | .loadModel .. => Option ℕ
    | .leave .. => Answer
    | .getMessagesForModel _ => List ChatMessage
    | _ => Unit

abbrev Coroutine := Prog managerSig Thrown

def perform (op : ManagerOp) : Coroutine Unit := Prog.call (S := managerSig) op fun _ ↦ .ret ()

def onMain (job : Option ℕ) : Coroutine Bool := Prog.perform (S := managerSig) (.onMain job)

def start (job : ℕ) : Coroutine Bool := Prog.perform (S := managerSig) (.start job)

def onJni (job : ℕ) : Coroutine Bool := Prog.perform (S := managerSig) (.onJni job)

def isActive (job : ℕ) : Coroutine Bool := Prog.perform (S := managerSig) (.isActive job)

def newJob : Coroutine ℕ := Prog.perform (S := managerSig) .newJob

def getChat : Coroutine (Option Chat) := Prog.perform (S := managerSig) .getChat

def isInstanceLoaded : Coroutine Bool := Prog.perform (S := managerSig) .isInstanceLoaded

def isInferenceOn : Coroutine Bool := Prog.perform (S := managerSig) .isInferenceOn

def nativePtr : Coroutine ℕ := Prog.perform (S := managerSig) .nativePtr

def loadModel (job : ℕ) (modelPath : Str) : Coroutine (Option ℕ) :=
  Prog.perform (S := managerSig) (.loadModel job modelPath)

def leave (call : NativeCall) (handle : ℕ) : Coroutine Answer := Prog.perform (S := managerSig) (.leave call handle)

def getMessagesForModel (chatId : ℕ) : Coroutine (List ChatMessage) :=
  Prog.perform (S := managerSig) (.getMessagesForModel chatId)

/-! Dispatchers and the lock -/

def onMainThread (p : Coroutine Unit) : Coroutine Unit := do
  let _ ← onMain none
  p
  perform .offMain

/-- A suspending call to another dispatcher, from a coroutine of `jniDispatcher`. A job that is
cancelled does not make the call, or does not get its answer. -/
def suspending {α : Type} (job : ℕ) (p : Coroutine α) : Coroutine α := do
  perform .offJni
  let answer ← if ← isActive job then some <$> p else pure none
  if ← onJni job then
    match answer with
    | some a => return a
    | none => Prog.throw .cancelled
  else Prog.throw .cancelled

/-- `withContext(Dispatchers.Main)`. -/
def withMain (job : ℕ) (p : Coroutine Unit) : Coroutine Unit := do
  perform .offJni
  let started ← onMain (some job)
  if started then p
  perform .offMain
  if ← onJni job then
    if started then return () else Prog.throw .cancelled
  else Prog.throw .cancelled

/-- `stateLock.withLock`. -/
def withStateLock {α : Type} (p : Coroutine α) : Coroutine α := do
  perform .lock
  p.tryFinally (perform .unlock)

/-! The instance -/

/-- The argument is read from `nativePtr`, and then the method is called. -/
def native (call : NativeCall) : Coroutine Answer := do
  let handle ← nativePtr
  perform (.enter call handle)
  leave call handle

/-- A native call that may throw. -/
def checked (call : NativeCall) : Coroutine Unit := do
  match ← native call with
  | .error => Prog.throw .exception
  | _ => return ()

/-- `instance.load`, and whether it has returned. -/
def loadNative (job : ℕ) (modelPath : Str) : Coroutine Bool := do
  match ← loadModel job modelPath with
  | some handle =>
    perform (.setNativePtr (some job) handle)
    return true
  | none => return false

def addChatMessage (message : Spoken) : Coroutine Unit := do
  let _ ← native (.addChatMessage message)
  return ()

def close : Coroutine Unit := do
  if (← nativePtr) ≠ 0 then
    let _ ← native .close
    perform (.setNativePtr none 0)
  else return ()

/-- The rest of the flow, whose pieces are collected. A model that is given no more rounds throws,
as a full context does. -/
def collect (job : ℕ) : ℕ → Str → Coroutine Str
  | 0, _ => Prog.throw .exception
  | rounds + 1, response => do
    match ← native .completionLoop with
    | .piece text =>
      if ← isActive job then
        perform (.callback (some job) (.partialResponse (response ++ text)))
        collect job rounds (response ++ text)
      else Prog.throw .cancelled
    | .endOfGeneration =>
      let _ ← native .stopCompletion
      return response
    | _ => Prog.throw .exception

/-! The coroutines -/

def addAll : List ChatMessage → Coroutine Unit
  | [] => return ()
  | message :: rest => do
    addChatMessage message.spoken
    addAll rest

def addSystemPrompt (chat : Chat) : Coroutine Unit :=
  if chat.systemPrompt ≠ [] then addChatMessage chat.system else return ()

def addStoredMessages (job : ℕ) (chat : Chat) : Coroutine Unit :=
  if chat.isTask then return ()
  else do addAll (← suspending job (getMessagesForModel chat.id))

def loadInstance (job : ℕ) (chat : Chat) (modelPath : Str) : Coroutine Unit := do
  if ← suspending job (loadNative job modelPath) then
    addSystemPrompt chat
    addStoredMessages job chat
    withMain job (do
      perform (.setInstanceLoaded true)
      perform (.callback (some job) .loaded))
  else Prog.throw .exception

def loadCoroutine (job : ℕ) (chat : Chat) (modelPath : Str) : Coroutine Unit := do
  if ← start job then
    (loadInstance job chat modelPath).tryCatch fun
      | .cancelled => return ()
      | .exception => (withMain job (perform (.callback (some job) .loadFailed))).tryCatch fun _ ↦ return ()
  perform .offJni

def respond (rounds job : ℕ) (query : Str) : Coroutine Unit := do
  perform (.setInferenceOn true)
  checked (.startCompletion query)
  let response ← ChatScreen.responseTransform <$> collect job rounds []
  match ← withStateLock getChat with
  | some chat => suspending job (perform (.addAssistantMessage chat.id response))
  | none => pure ()
  withMain job (do
    perform (.setInferenceOn false)
    let _ ← native .getResponseGenerationSpeed
    let _ ← native .getContextSizeUsed
    perform (.callback (some job) (.success response)))

def responseCoroutine (rounds job : ℕ) (query : Str) : Coroutine Unit := do
  if ← start job then
    (respond rounds job query).tryCatch fun e ↦ do
      perform (.setInferenceOn false)
      let callback : Callback := match e with
        | .cancelled => .cancelled
        | .exception => .failed
      (withMain job (perform (.callback (some job) callback))).tryCatch fun _ ↦ return ()
  perform .offJni

/-- An exception of the native call would end the process. -/
def benchmarkCoroutine (job : ℕ) : Coroutine Unit := do
  if ← start job then
    let _ ← native .benchModel
    (withMain job (perform (.callback (some job) .benchmarked))).tryCatch fun _ ↦ return ()
  perform .offJni

/-! The calls from the screen -/

def load (chat : Chat) (modelPath : Str) : Coroutine Unit := withStateLock do
  perform .cancelInit
  perform (.setChat (some chat))
  perform (.launchLoad (← newJob) chat modelPath)

def unload : Coroutine Unit := withStateLock do
  perform .cancelResponse
  perform .cancelInit
  perform (.setInstanceLoaded false)
  perform (.setChat none)
  close

def getResponse (query : Str) : Coroutine Unit := withStateLock do
  if ← isInstanceLoaded then
    perform .cancelResponse
    perform (.launchResponse (← newJob) query)
  else perform (.callback none .notLoaded)

def benchmark : Coroutine Unit := do
  perform (.launchBenchmark (← newJob))

def stopResponseGeneration : Coroutine Unit := withStateLock do
  perform .cancelResponse
  perform (.setInferenceOn false)

/-- `ChatScreenViewModel.unloadModel` -/
def unloadModel : Coroutine Unit := do
  if ← isInferenceOn then return ()
  else
    unload
    perform (.callback none .unloaded)

inductive Input
  | load (chat : Chat) (modelPath : Str)
  | unload
  | unloadModel
  | getResponse (query : Str)
  | benchmark
  | stopResponseGeneration

def entry : Input → Coroutine Unit
  | .load chat modelPath => onMainThread (load chat modelPath)
  | .unload => onMainThread unload
  | .unloadModel => onMainThread unloadModel
  | .getResponse query => onMainThread (getResponse query)
  | .benchmark => onMainThread benchmark
  | .stopResponseGeneration => onMainThread stopResponseGeneration

/-! What the coroutines share -/

/-- A native call in progress, with its thread. -/
structure Running where
  thread : ℕ
  call : NativeCall
  handle : ℕ
  deriving DecidableEq

/-- The dispatchers and the lock, the manager, its instance, the messages that `addChatMessage` has
put into each native model, and the table of messages. The rest records the native calls in
progress, the load that made each model, the loads that have got to `jniDispatcher`, that have
stored a handle and whose `onSuccess` has been called, and the last call of `load` since the last
of `unload`. -/
structure Shared where
  main : Bool
  jni : Bool
  stateLock : Bool
  jobs : ℕ
  cancelled : List ℕ
  chat : Option Chat
  modelInitJob : Option ℕ
  responseGenerationJob : Option ℕ
  isInstanceLoaded : Bool
  isInferenceOn : Bool
  ptr : ℕ
  models : ℕ
  messages : ℕ → List Spoken
  rows : List ChatMessage
  running : List Running
  made : List (ℕ × ℕ)
  started : List ℕ
  stored : List ℕ
  succeeded : List ℕ
  latest : Option (ℕ × Chat)

def Shared.init (rows : List ChatMessage) : Shared where
  main := false
  jni := false
  stateLock := false
  jobs := 0
  cancelled := []
  chat := none
  modelInitJob := none
  responseGenerationJob := none
  isInstanceLoaded := false
  isInferenceOn := false
  ptr := 0
  models := 0
  messages _ := []
  rows := rows
  running := []
  made := []
  started := []
  stored := []
  succeeded := []
  latest := none

namespace Shared

variable (s : Shared)

def cancel (job : Option ℕ) : Shared := { s with cancelled := job.toList ++ s.cancelled }

def create (job : ℕ) : Shared :=
  { s with
    models := s.models + 1
    messages := Function.update s.messages (s.models + 1) []
    made := (s.models + 1, job) :: s.made }

def finish (thread : ℕ) (call : NativeCall) (handle : ℕ) : Shared :=
  { s with
    running := s.running.erase ⟨thread, call, handle⟩
    messages := match call with
      | .addChatMessage message => Function.update s.messages handle (s.messages handle ++ [message])
      | _ => s.messages }

end Shared

/-- A dispatcher runs one coroutine at a time, and a coroutine that is cancelled before it starts
does not run. -/
def act (thread : ℕ) : (op : ManagerOp) → managerSig.Resp op → Shared → Option (managerSig.Resp op × Shared)
  | .onMain job, _, s => if s.main then none else some (job.all (· ∉ s.cancelled), { s with main := true })
  | .offMain, _, s => some ((), { s with main := false })
  | .start job, _, s =>
    if s.jni then none
    else if job ∈ s.cancelled then some (false, { s with jni := true })
    else some (true, { s with jni := true, started := job :: s.started })
  | .onJni job, _, s => if s.jni then none else some (decide (job ∉ s.cancelled), { s with jni := true })
  | .offJni, _, s => some ((), { s with jni := false })
  | .isActive job, _, s => some (decide (job ∉ s.cancelled), s)
  | .lock, _, s => if s.stateLock then none else some ((), { s with stateLock := true })
  | .unlock, _, s => some ((), { s with stateLock := false })
  | .cancelInit, _, s => some ((), { s.cancel s.modelInitJob with latest := none })
  | .cancelResponse, _, s => some ((), s.cancel s.responseGenerationJob)
  | .newJob, _, s => some (s.jobs, { s with jobs := s.jobs + 1 })
  | .launchLoad job chat _, _, s => some ((), { s with modelInitJob := some job, latest := some (job, chat) })
  | .launchResponse job _, _, s => some ((), { s with responseGenerationJob := some job })
  | .launchBenchmark _, _, s => some ((), s)
  | .setChat chat, _, s => some ((), { s with chat })
  | .getChat, _, s => some (s.chat, s)
  | .setInstanceLoaded loaded, _, s => some ((), { s with isInstanceLoaded := loaded })
  | .isInstanceLoaded, _, s => some (s.isInstanceLoaded, s)
  | .setInferenceOn on, _, s => some ((), { s with isInferenceOn := on })
  | .isInferenceOn, _, s => some (s.isInferenceOn, s)
  | .nativePtr, _, s => some (s.ptr, s)
  | .setNativePtr job handle, _, s => some ((), { s with ptr := handle, stored := job.toList ++ s.stored })
  | .loadModel job _, some _, s => some (some (s.models + 1), s.create job)
  | .loadModel .., none, s => some (none, s)
  | .enter call handle, _, s => some ((), { s with running := ⟨thread, call, handle⟩ :: s.running })
  | .leave call handle, answer, s => some (answer, s.finish thread call handle)
  | .getMessagesForModel chatId, _, s => some (s.rows.filter fun m ↦ m.chatId = chatId, s)
  | .addAssistantMessage chatId message, _, s =>
    some ((), { s with rows := s.rows ++ [⟨chatId, message, false⟩] })
  | .callback job .loaded, _, s => some ((), { s with succeeded := job.toList ++ s.succeeded })
  | .callback .., _, s => some ((), s)

def spawned (rounds : ℕ) : ManagerOp → Option (Coroutine Unit)
  | .launchLoad job chat modelPath => some (loadCoroutine job chat modelPath)
  | .launchResponse job query => some (responseCoroutine rounds job query)
  | .launchBenchmark job => some (benchmarkCoroutine job)
  | _ => none

/-- Any number of calls from the screen, with the coroutines that they launch. -/
def machine (rounds : ℕ) : Machine managerSig Thrown Shared Input where
  act := act
  entry := entry
  spawned := spawned rounds

abbrev Configuration := Config managerSig Thrown Shared

/-! Runs along given labels -/

def works : (op : ManagerOp) → managerSig.Resp op
  | .onMain _ | .start _ | .onJni _ | .isActive _ | .isInstanceLoaded | .isInferenceOn => true
  | .newJob | .nativePtr => (0 : ℕ)
  | .getChat => (none : Option Chat)
  | .loadModel .. => (some 0 : Option ℕ)
  | .leave .completionLoop _ => Answer.piece "hi".toList
  | .leave .. => Answer.done
  | .getMessagesForModel _ => ([] : List ChatMessage)
  | .offMain | .offJni | .lock | .unlock | .cancelInit | .cancelResponse | .launchLoad .. | .launchResponse ..
  | .launchBenchmark _ | .setChat _ | .setInstanceLoaded _ | .setInferenceOn _ | .setNativePtr .. | .enter ..
  | .addAssistantMessage .. | .callback .. => ()

abbrev calls (thread times : ℕ) : List (Label managerSig Input) := List.replicate times (.step thread works)

end Aigentik.SmolLMManager
