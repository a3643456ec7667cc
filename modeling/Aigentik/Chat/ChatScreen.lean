import Aigentik.Effects.Pool
import Aigentik.Effects.SharedMap
import Aigentik.Strings.Text

namespace Aigentik.ChatScreen

open Strings Effects

structure Chat where
  id : ℕ
  systemPrompt : Str
  llmModelId : ℤ
  isTask : Bool
  deriving DecidableEq

/-- A row of the table of messages. -/
structure ChatMessage where
  chatId : ℕ
  message : Str
  isUserMessage : Bool
  deriving DecidableEq

/-- A message of a native instance, with the chat that it comes from. -/
structure Spoken where
  chatId : ℕ
  role : Str
  content : Str
  deriving DecidableEq

def ChatMessage.spoken (m : ChatMessage) : Spoken :=
  ⟨m.chatId, if m.isUserMessage then "user" else "assistant", m.message⟩

def Chat.system (chat : Chat) : Spoken := ⟨chat.id, "system", chat.systemPrompt⟩

inductive ModelLoadingState
  | notLoaded | inProgress | success | failure
  deriving DecidableEq

/-- What ends a coroutine early. -/
inductive Thrown
  | cancelled | exception

inductive Result
  | piece (text : Str)
  | endOfGeneration
  | error
  deriving DecidableEq

/-- The accesses to dispatchers and jobs, to the state of the screen, to the manager, to the
native instance and to the database. Coroutines bear the number of their job. -/
inductive ChatOp
  | onMain (job : Option ℕ)
  | offMain
  | startLoad (job : ℕ)
  | startResponse (job : ℕ)
  | onJni (job : ℕ)
  | offJni
  | isActive (job : ℕ)
  | newJob
  | getChat
  | setChat (chat : Chat)
  | canSend
  | setLoadingState (state : ModelLoadingState)
  | launchLoadModel (chat : Chat)
  | launchStore (chat : Chat) (query : Str)
  | load (job : ℕ) (chat : Chat) (modelPath : Str)
  | unload
  | stopResponseGeneration
  | isInstanceLoaded
  | setInstanceLoaded (job : ℕ)
  | launchResponse (job : ℕ) (chat : Chat) (query : Str)
  | isInferenceOn
  | beginInference (job : ℕ)
  | endInference (job : ℕ)
  | readChat (job : ℕ)
  | nativeLoad (modelPath : Str)
  | setNativePtr (job : ℕ) (storeChats : Bool)
  | addChatMessage (job : ℕ) (message : Spoken)
  | startCompletion (job chatId : ℕ) (query : Str)
  | completionLoop (job chatId : ℕ)
  | stopCompletion (job chatId : ℕ)
  | getModelFromId (id : ℤ)
  | insertChat
  | getMessagesForModel (job chatId : ℕ)
  | addAssistantMessage (job sent chatId : ℕ) (message : Str)
  | addUserMessage (chatId : ℕ) (message : Str)
  | deleteMessages (chatId : ℕ)

def chatSig : Sig where
  Op := ChatOp
  Resp
    | .onMain _ | .startLoad _ | .startResponse _ | .onJni _ | .isActive _ | .canSend | .isInstanceLoaded
    | .isInferenceOn | .nativeLoad _ => Bool
    | .newJob | .insertChat => ℕ
    | .getChat => Chat
    | .readChat _ => Option Chat
    | .completionLoop .. => Result
    | .getModelFromId _ => Str
    | .getMessagesForModel .. => List ChatMessage
    | _ => Unit

abbrev Coroutine := Prog chatSig Thrown

def perform (op : ChatOp) : Coroutine Unit := Prog.call (S := chatSig) op fun _ ↦ .ret ()

def onMain (job : Option ℕ) : Coroutine Bool := Prog.perform (S := chatSig) (.onMain job)

def startLoad (job : ℕ) : Coroutine Bool := Prog.perform (S := chatSig) (.startLoad job)

def startResponse (job : ℕ) : Coroutine Bool := Prog.perform (S := chatSig) (.startResponse job)

def onJni (job : ℕ) : Coroutine Bool := Prog.perform (S := chatSig) (.onJni job)

def isActive (job : ℕ) : Coroutine Bool := Prog.perform (S := chatSig) (.isActive job)

def newJob : Coroutine ℕ := Prog.perform (S := chatSig) .newJob

def getChat : Coroutine Chat := Prog.perform (S := chatSig) .getChat

def canSend : Coroutine Bool := Prog.perform (S := chatSig) .canSend

def isInstanceLoaded : Coroutine Bool := Prog.perform (S := chatSig) .isInstanceLoaded

def isInferenceOn : Coroutine Bool := Prog.perform (S := chatSig) .isInferenceOn

def readChat (job : ℕ) : Coroutine (Option Chat) := Prog.perform (S := chatSig) (.readChat job)

def nativeLoad (modelPath : Str) : Coroutine Bool := Prog.perform (S := chatSig) (.nativeLoad modelPath)

def completionLoop (job chatId : ℕ) : Coroutine Result := Prog.perform (S := chatSig) (.completionLoop job chatId)

def getModelFromId (id : ℤ) : Coroutine Str := Prog.perform (S := chatSig) (.getModelFromId id)

def insertChat : Coroutine ℕ := Prog.perform (S := chatSig) .insertChat

def getMessagesForModel (job chatId : ℕ) : Coroutine (List ChatMessage) :=
  Prog.perform (S := chatSig) (.getMessagesForModel job chatId)

/-! Dispatchers -/

/-- What runs on the main thread up to the next suspension. -/
def onMainThread (p : Coroutine Unit) : Coroutine Unit := do
  let _ ← onMain none
  p
  perform .offMain

/-- A suspending call to another dispatcher, from a coroutine of the native one. A job that is
cancelled does not make the call, or does not get its answer. -/
def suspending {α : Type} (job : ℕ) (p : Coroutine α) : Coroutine α := do
  perform .offJni
  let answer ← if ← isActive job then some <$> p else pure none
  if ← onJni job then
    match answer with
    | some a => return a
    | none => Prog.throw .cancelled
  else Prog.throw .cancelled

/-- `withContext(Dispatchers.Main)`. -/
def withMain (job : ℕ) (p : Coroutine Unit) : Coroutine Unit := do
  perform .offJni
  let started ← onMain (some job)
  if started then p
  perform .offMain
  if ← onJni job then
    if started then return () else Prog.throw .cancelled
  else Prog.throw .cancelled

/-! The load coroutine -/

def addAll (job : ℕ) : List ChatMessage → Coroutine Unit
  | [] => return ()
  | message :: rest => do
    perform (.addChatMessage job message.spoken)
    addAll job rest

/-- `instance.load`, and whether it has returned. -/
def loadNative (job : ℕ) (modelPath : Str) (storeChats : Bool) : Coroutine Bool := do
  if ← nativeLoad modelPath then
    perform (.setNativePtr job storeChats)
    return true
  else return false

def addSystemPrompt (job : ℕ) (chat : Chat) : Coroutine Unit :=
  if chat.systemPrompt ≠ [] then perform (.addChatMessage job chat.system) else return ()

def addStoredMessages (job : ℕ) (chat : Chat) : Coroutine Unit :=
  if chat.isTask then return ()
  else do addAll job (← suspending job (getMessagesForModel job chat.id))

def loadInstance (job : ℕ) (chat : Chat) (modelPath : Str) : Coroutine Unit := do
  if ← suspending job (loadNative job modelPath (!chat.isTask)) then
    addSystemPrompt job chat
    addStoredMessages job chat
    withMain job (do
      perform (.setInstanceLoaded job)
      perform (.setLoadingState .success))
  else Prog.throw .exception

def loadCoroutine (job : ℕ) (chat : Chat) (modelPath : Str) : Coroutine Unit := do
  if ← startLoad job then
    (loadInstance job chat modelPath).tryCatch fun
      | .cancelled => return ()
      | .exception => (withMain job (perform (.setLoadingState .failure))).tryCatch fun _ ↦ return ()
  perform .offJni

/-! The response coroutine -/

def renderThinkingFrom : ℕ → Str → Str
  | 0, s => s
  | n + 1, s =>
    match indexOf s "<think>" with
    | none => s
    | some i =>
      let inner := s.drop (i + 7)
      match indexOf inner "</think>" with
      | none => s
      | some j => s.take i ++ "<blockquote><i><h6>" ++ trim (inner.take j) ++ "</i></h6></blockquote>" ++
          renderThinkingFrom n (inner.drop (j + 8))

/-- The replacement of the think tags: each is at least fifteen characters long. -/
def responseTransform (s : Str) : Str := renderThinkingFrom s.length s

/-- The rest of the flow. A model that is given no more rounds throws, as a full context does. -/
def collect (job chatId : ℕ) : ℕ → Str → Coroutine Str
  | 0, _ => Prog.throw .exception
  | rounds + 1, response => do
    match ← completionLoop job chatId with
    | .error => Prog.throw .exception
    | .endOfGeneration =>
      perform (.stopCompletion job chatId)
      return response
    | .piece text =>
      if ← isActive job then collect job chatId rounds (response ++ text)
      else Prog.throw .cancelled

def respond (rounds job : ℕ) (chat : Chat) (query : Str) : Coroutine Unit := do
  perform (.beginInference job)
  perform (.startCompletion job chat.id query)
  let response := responseTransform (← collect job chat.id rounds [])
  match ← readChat job with
  | some current => suspending job (perform (.addAssistantMessage job chat.id current.id response))
  | none => pure ()
  withMain job (do
    perform (.endInference job)
    perform (.setChat chat))

def responseCoroutine (rounds job : ℕ) (chat : Chat) (query : Str) : Coroutine Unit := do
  if ← startResponse job then
    (respond rounds job chat query).tryCatch fun _ ↦ do
      perform (.endInference job)
      (withMain job (return ())).tryCatch fun _ ↦ return ()
  perform .offJni

/-! The events -/

/-- An exception of the query would end the process. -/
def loadModelCoroutine (chat : Chat) : Coroutine Unit := do
  let modelPath ← getModelFromId chat.llmModelId
  onMainThread (do
    if chat.llmModelId = -1 then return ()
    else
      perform (.setLoadingState .inProgress)
      perform (.load (← newJob) chat modelPath))

def loadModel : Coroutine Unit := do
  perform (.launchLoadModel (← getChat))

def unloadModel : Coroutine Unit := do
  if ← isInferenceOn then return ()
  else
    perform .unload
    perform (.setLoadingState .notLoaded)

def stopGeneration : Coroutine Unit := perform .stopResponseGeneration

def switchChat (chat : Chat) : Coroutine Unit := do
  stopGeneration
  perform (.setChat chat)
  loadModel

def storeQuery (chat : Chat) (query : Str) : Coroutine Unit := do
  if chat.isTask then perform (.deleteMessages chat.id)
  perform (.addUserMessage chat.id query)

def sendUserQuery (query : Str) : Coroutine Unit := do
  let chat ← getChat
  perform (.launchStore chat query)
  if ← isInstanceLoaded then perform (.launchResponse (← newJob) chat query)
  else return ()

inductive ChatEvent
  | switchChat (chat : Chat)
  | newChat
  | updateChatModel (modelId : ℤ)
  | updateChatSettings (systemPrompt : Str) (existingChat : Chat)
  | stopGeneration
  | sendUserQuery (query : Str)

/-- The input field sends a query only while a model is loaded for a chat that has one. -/
def onEvent : ChatEvent → Coroutine Unit
  | .switchChat chat => onMainThread (switchChat chat)
  | .newChat => do
    let id ← insertChat
    onMainThread (switchChat ⟨id, "You are a helpful assistant.", -1, false⟩)
  | .updateChatModel modelId => do
    onMainThread (do
      let chat ← getChat
      perform (.setChat { chat with llmModelId := modelId }))
    onMainThread loadModel
  | .updateChatSettings systemPrompt existingChat => do
    onMainThread (perform (.setChat { existingChat with systemPrompt }))
    onMainThread (do
      unloadModel
      loadModel)
  | .stopGeneration => onMainThread stopGeneration
  | .sendUserQuery query => onMainThread (do
    if ← canSend then sendUserQuery query else return ())

/-! What the coroutines share -/

/-- The native model: its list of messages and the answer it is writing. The rest records the
load that has made it, and what a load that ended well had to put into it. -/
structure Instance where
  job : ℕ
  storeChats : Bool
  messages : List Spoken
  response : Str
  opening : Option (ℕ × List Spoken)
  deriving DecidableEq

def Instance.say (inst : Instance) (chatId : ℕ) (role content : Str) : Instance :=
  { inst with messages := inst.messages ++ [⟨chatId, role, content⟩] }

/-- The assistant's message, which is then forgotten. -/
def Instance.answer (inst : Instance) (chatId : ℕ) : Instance :=
  { inst.say chatId "assistant" inst.response with response := [] }

/-- How far a load has come; what it has added to the instance, and what it still has to add. -/
inductive Stage
  | launched | started
  | filling (added todo : List Spoken)
  | loaded
  deriving DecidableEq

structure Load where
  chat : Chat
  stage : Stage
  deriving DecidableEq

/-- A response coroutine before it starts, until its last native call, until it reads the chat
to store its answer for, and after that. -/
inductive Phase
  | queued | generating | answered | over
  deriving DecidableEq

structure Response where
  chatId : ℕ
  phase : Phase
  deriving DecidableEq

/-- An answer in the database: the chat of its query, and the one that it is stored under. -/
structure Stored where
  job : ℕ
  sent : ℕ
  chatId : ℕ
  deriving DecidableEq

structure Manager where
  chat : Option Chat
  modelInitJob : Option ℕ
  responseGenerationJob : Option ℕ
  isInstanceLoaded : Bool
  isInferenceOn : Bool

/-- The dispatchers, the state of the screen, the manager, the native instance and the table of
messages. The rest records loads and responses, the instances that native calls of a response
were made on, with the chat of its query, and the answers that have been stored. -/
structure Shared where
  main : Bool
  jni : Bool
  jobs : ℕ
  cancelled : List ℕ
  chat : Chat
  modelLoadingState : ModelLoadingState
  manager : Manager
  native : Option Instance
  messages : List ChatMessage
  loads : SharedMap ℕ Load
  responses : SharedMap ℕ Response
  generated : List (ℕ × Instance)
  stored : List Stored

def Shared.init (defaultChat : Chat) (messages : List ChatMessage) : Shared where
  main := false
  jni := false
  jobs := 0
  cancelled := []
  chat := defaultChat
  modelLoadingState := .notLoaded
  manager := ⟨none, none, none, false, false⟩
  native := none
  messages := messages
  loads := .empty
  responses := .empty
  generated := []
  stored := []

namespace Shared

variable (s : Shared)

def cancel (job : Option ℕ) : Shared := { s with cancelled := job.toList ++ s.cancelled }

def moveLoad (job : ℕ) (f : Load → Stage) : Shared :=
  match s.loads.get job with
  | some load => { s with loads := s.loads.put job { load with stage := f load } }
  | none => s

def moveResponse (job : ℕ) (phase : Phase) : Shared :=
  match s.responses.get job with
  | some response => { s with responses := s.responses.put job { response with phase } }
  | none => s

end Shared

def Stage.add : Stage → Stage
  | .filling added (message :: todo) => .filling (added ++ [message]) todo
  | stage => stage

def Stage.read (messages : List ChatMessage) : Stage → Stage
  | .filling added todo => .filling added (todo ++ messages.map ChatMessage.spoken)
  | stage => stage

def Chat.opening (chat : Chat) : List Spoken := if chat.systemPrompt ≠ [] then [chat.system] else []

def Load.contents (load : Load) : List Spoken :=
  match load.stage with
  | .filling added todo => added ++ todo
  | _ => []

/-- A dispatcher runs one coroutine at a time, and a coroutine that is cancelled before it starts
does not run. A native call without an instance ends the process. -/
def act : (op : ChatOp) → chatSig.Resp op → Shared → Option (chatSig.Resp op × Shared)
  | .onMain job, _, s => if s.main then none else some (job.all (· ∉ s.cancelled), { s with main := true })
  | .offMain, _, s => some ((), { s with main := false })
  | .startLoad job, _, s =>
    if s.jni then none
    else if job ∈ s.cancelled then some (false, { s with jni := true })
    else some (true, { s.moveLoad job fun _ ↦ .started with jni := true })
  | .startResponse job, _, s =>
    if s.jni then none
    else if job ∈ s.cancelled then some (false, { s with jni := true })
    else some (true, { s.moveResponse job .generating with jni := true })
  | .onJni job, _, s => if s.jni then none else some (decide (job ∉ s.cancelled), { s with jni := true })
  | .offJni, _, s => some ((), { s with jni := false })
  | .isActive job, _, s => some (decide (job ∉ s.cancelled), s)
  | .newJob, _, s => some (s.jobs, { s with jobs := s.jobs + 1 })
  | .getChat, _, s => some (s.chat, s)
  | .setChat chat, _, s => some ((), { s with chat })
  | .canSend, _, s => some (decide (s.modelLoadingState = .success ∧ s.chat.llmModelId ≠ -1), s)
  | .setLoadingState state, _, s => some ((), { s with modelLoadingState := state })
  | .launchLoadModel _, _, s => some ((), s)
  | .launchStore .., _, s => some ((), s)
  | .load job chat _, _, s => some ((), { s.cancel s.manager.modelInitJob with
      manager.chat := some chat, manager.modelInitJob := some job, loads := s.loads.put job ⟨chat, .launched⟩ })
  | .unload, _, s => some ((), { (s.cancel s.manager.responseGenerationJob).cancel s.manager.modelInitJob with
      manager.isInstanceLoaded := false, manager.chat := none, native := none })
  | .stopResponseGeneration, _, s => some ((), { s.cancel s.manager.responseGenerationJob with
      manager.isInferenceOn := false })
  | .isInstanceLoaded, _, s => some (s.manager.isInstanceLoaded, s)
  | .setInstanceLoaded job, _, s => match s.loads.get job with
    | some load => some ((), { s.moveLoad job fun _ ↦ .loaded with
        manager.isInstanceLoaded := true
        native := s.native.map fun inst ↦ { inst with opening := some (load.chat.id, load.contents) } })
    | none => none
  | .launchResponse job chat _, _, s => some ((), { s.cancel s.manager.responseGenerationJob with
      manager.responseGenerationJob := some job, responses := s.responses.put job ⟨chat.id, .queued⟩ })
  | .isInferenceOn, _, s => some (s.manager.isInferenceOn, s)
  | .beginInference _, _, s => some ((), { s with manager.isInferenceOn := true })
  | .endInference job, _, s => some ((), { s.moveResponse job .over with manager.isInferenceOn := false })
  | .readChat job, _, s => some (s.manager.chat, s.moveResponse job .over)
  | .nativeLoad _, returned, s => some (returned, s)
  | .setNativePtr job storeChats, _, s => some ((), { s.moveLoad job fun l ↦ .filling [] l.chat.opening with
      native := some ⟨job, storeChats, [], [], none⟩ })
  | .addChatMessage job message, _, s => match s.native with
    | some inst => some ((), { s.moveLoad job fun l ↦ l.stage.add with
        native := some (inst.say message.chatId message.role message.content) })
    | none => none
  | .startCompletion _ chatId query, _, s => match s.native with
    | some inst => some ((), { s with
        native := some (inst.say chatId "user" query), generated := s.generated ++ [(chatId, inst)] })
    | none => none
  | .completionLoop _ chatId, result, s => match s.native with
    | some inst => some (result, { s with
        generated := s.generated ++ [(chatId, inst)]
        native := some (match result with
          | .piece text => { inst with response := inst.response ++ text }
          | .endOfGeneration => inst.answer chatId
          | .error => inst) })
    | none => none
  | .stopCompletion job chatId, _, s => match s.native with
    | some inst => some ((), { s.moveResponse job .answered with
        native := some (if inst.storeChats then inst.answer chatId else { inst with response := [] }) })
    | none => none
  | .getModelFromId _, modelPath, s => some (modelPath, s)
  | .insertChat, id, s => some (id, s)
  | .getMessagesForModel job chatId, _, s =>
    let messages := s.messages.filter fun m ↦ m.chatId = chatId
    some (messages, s.moveLoad job fun l ↦ l.stage.read messages)
  | .addAssistantMessage job sent chatId message, _, s => some ((), { s with
      messages := s.messages ++ [⟨chatId, message, false⟩], stored := s.stored ++ [⟨job, sent, chatId⟩] })
  | .addUserMessage chatId message, _, s => some ((), { s with messages := s.messages ++ [⟨chatId, message, true⟩] })
  | .deleteMessages chatId, _, s => some ((), { s with messages := s.messages.filter fun m ↦ m.chatId ≠ chatId })

def spawned (rounds : ℕ) : ChatOp → Option (Coroutine Unit)
  | .launchLoadModel chat => some (loadModelCoroutine chat)
  | .launchStore chat query => some (storeQuery chat query)
  | .load job chat modelPath => some (loadCoroutine job chat modelPath)
  | .launchResponse job chat query => some (responseCoroutine rounds job chat query)
  | _ => none

/-- Any number of events, with the coroutines that they launch. -/
def machine (rounds : ℕ) : Machine chatSig Thrown Shared ChatEvent where
  act _ := act
  entry := onEvent
  spawned := spawned rounds

abbrev Configuration := Config chatSig Thrown Shared

/-- The default chat is shown, and its model is about to be loaded. -/
def opened (defaultChat : Chat) (messages : List ChatMessage) : Configuration :=
  ⟨.init defaultChat messages, [loadModelCoroutine defaultChat]⟩

/-! Runs along given labels, with a native model that has nothing to say -/

def quiet : (op : ChatOp) → chatSig.Resp op
  | .onMain _ | .startLoad _ | .startResponse _ | .onJni _ | .isActive _ | .canSend | .isInstanceLoaded
  | .isInferenceOn => false
  | .nativeLoad _ => true
  | .newJob | .insertChat => (0 : ℕ)
  | .getChat => (⟨0, [], -1, false⟩ : Chat)
  | .readChat _ => (none : Option Chat)
  | .completionLoop .. => Result.endOfGeneration
  | .getModelFromId _ => ([] : Str)
  | .getMessagesForModel .. => ([] : List ChatMessage)
  | .offMain | .offJni | .setChat _ | .setLoadingState _ | .launchLoadModel _ | .launchStore _ _ | .load _ _ _
  | .unload | .stopResponseGeneration | .setInstanceLoaded _ | .setNativePtr _ _ | .launchResponse _ _ _
  | .beginInference _ | .endInference _ | .addChatMessage _ _ | .startCompletion _ _ _ | .stopCompletion _ _
  | .addAssistantMessage _ _ _ _ | .addUserMessage _ _ | .deleteMessages _ => ()

abbrev calls (thread times : ℕ) : List (Label chatSig ChatEvent) := List.replicate times (.step thread quiet)

end Aigentik.ChatScreen
