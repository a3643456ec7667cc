import Aigentik.Ai.AgentLLMFacade
import Aigentik.Effects.Pool

namespace Aigentik.OnDemandLoading

open Strings Effects AgentLLMFacade

inductive State
  | notLoaded | loading | warming | ready | error
  deriving DecidableEq

/-- How `smolLM.load` ends. The `catch` of `doLoad` takes exceptions, not errors. -/
inductive LoadEnd
  | returned
  | exception (e : Throwable)
  | error (e : Throwable)
  deriving DecidableEq

inductive NativeCall
  | addSystemPrompt (prompt : Str)
  | getResponse (query : Str)
  deriving DecidableEq

/-- The accesses to fields, locks, coroutines and the native model. A load bears the number
of the deferred that it was launched for; `request` records the call of a generation. -/
inductive FacadeOp
  | request
  | stateIs (state : State)
  | setState (state : State)
  | getPath
  | setPath (path : Str)
  | lock
  | unlock
  | enter (call : NativeCall)
  | leave (call : NativeCall)
  | close
  | loadBegin (d : ℕ) (path : Str)
  | loadEnd (d : ℕ)
  | lockMutex
  | unlockMutex
  | getDeferred
  | newDeferred
  | setDeferred (d : Option ℕ)
  | launchLoad (d : ℕ)
  | complete (d : ℕ) (result : Bool)
  | await (d : ℕ)
  | getJob
  | setJob (job : Option ℕ)
  | cancel (job : ℕ)
  | newJob
  | launchIdleUnload (job : ℕ)
  | delay (job : ℕ)

def facadeSig : Sig where
  Op := FacadeOp
  Resp
    | .stateIs _ | .await _ | .delay _ => Bool
    | .getPath => Str
    | .leave _ => Except Throwable Str
    | .loadEnd _ => LoadEnd
    | .getDeferred | .getJob => Option ℕ
    | .newDeferred | .newJob => ℕ
    | _ => Unit

abbrev Facade := Prog facadeSig Throwable

def perform (op : FacadeOp) : Facade Unit := Prog.call (S := facadeSig) op fun _ ↦ .ret ()

def stateIs (state : State) : Facade Bool := Prog.perform (S := facadeSig) (.stateIs state)

def getPath : Facade Str := Prog.perform (S := facadeSig) .getPath

def getDeferred : Facade (Option ℕ) := Prog.perform (S := facadeSig) .getDeferred

def newDeferred : Facade ℕ := Prog.perform (S := facadeSig) .newDeferred

def await (d : ℕ) : Facade Bool := Prog.perform (S := facadeSig) (.await d)

def getJob : Facade (Option ℕ) := Prog.perform (S := facadeSig) .getJob

def newJob : Facade ℕ := Prog.perform (S := facadeSig) .newJob

def delay (job : ℕ) : Facade Bool := Prog.perform (S := facadeSig) (.delay job)

def native (call : NativeCall) : Facade Str := do
  perform (.enter call)
  Prog.ofExcept (← Prog.perform (S := facadeSig) (.leave call))

def load (d : ℕ) (modelPath : Str) : Facade LoadEnd := do
  perform (.loadBegin d modelPath)
  Prog.perform (S := facadeSig) (.loadEnd d)

/-! The coroutines -/

def storeModelPath (path : Str) : Facade Unit := perform (.setPath path)

def unloadModel : Facade Unit := do
  if ← stateIs .notLoaded then return ()
  else
    perform .lock
    perform .close
    perform (.setState .notLoaded)
    perform .unlock
    perform (.setJob none)

def cancelIdleUnload : Facade Unit := do
  match ← getJob with
  | some job => perform (.cancel job)
  | none => return ()

/-- The path is blank, or the caller awaits a load. -/
def ensureLoaded : Facade Bool := do
  cancelIdleUnload
  perform (.setJob none)
  if ← stateIs .ready then return true
  else
    perform .lockMutex
    if ← stateIs .ready then
      perform .unlockMutex
      return true
    else match ← getDeferred with
      | some d =>
        perform .unlockMutex
        await d
      | none =>
        if isBlank (← getPath) then
          perform .unlockMutex
          return false
        else
          let d ← newDeferred
          perform (.setDeferred (some d))
          perform (.launchLoad d)
          perform .unlockMutex
          await d

/-- What `lock.withLock` does with the model. -/
def generating (prompt : Prompt) : Facade Str := do
  perform .lock
  Prog.tryFinally
    (do
      let _ ← native (.addSystemPrompt prompt.system)
      native (.getResponse prompt.user))
    (perform .unlock)

/-- The outcome of a generation whose exceptions are caught. -/
def attempt (prompt : Prompt) : Facade ModelOutcome :=
  Prog.tryCatch (do return .text (← generating prompt)) fun _ ↦ return .threw

def warmUp : Facade Unit := do
  let _ ← attempt ⟨"You are a helpful assistant.", "Hello"⟩

/-- The load for the deferred `d`. -/
def doLoad (d : ℕ) (modelPath : Str) : Facade Bool := do
  if ← stateIs .loading then return false
  else if ← stateIs .warming then return false
  else
    perform (.setState .loading)
    match ← load d modelPath with
    | .returned =>
      perform (.setState .warming)
      warmUp
      perform (.setState .ready)
      return true
    | .exception _ =>
      perform (.setState .error)
      return false
    | .error e => Prog.throw e

def loadCoroutine (d : ℕ) : Facade Unit := do
  let result ← doLoad d (← getPath)
  perform .lockMutex
  perform (.setDeferred none)
  perform .unlockMutex
  perform (.complete d result)

/-- A job that is cancelled during its delay ends there. -/
def idleUnload (job : ℕ) : Facade Unit := do
  if ← delay job then unloadModel
  else return ()

def scheduleIdleUnload : Facade Unit := do
  cancelIdleUnload
  let job ← newJob
  perform (.launchIdleUnload job)
  perform (.setJob (some job))

def loadModel (modelPath : Str) : Facade Bool := do
  storeModelPath modelPath
  ensureLoaded

variable (agentName ownerName : Str)

def generateSmsReply (senderName : Option Str) (senderPhone message : Str)
    (relationship instructions : Option Str) : Facade Reply := do
  perform .request
  if ← ensureLoaded then
    let raw ← attempt (smsPrompt agentName ownerName senderName senderPhone message relationship instructions)
    scheduleIdleUnload
    return smsReply agentName ownerName senderName raw
  else return smsReply agentName ownerName senderName .unavailable

def generateChatReply (message : Str) : Facade Reply := do
  perform .request
  if ← ensureLoaded then
    let raw ← attempt (chatPrompt agentName ownerName message)
    scheduleIdleUnload
    return chatReply raw
  else return chatReply .unavailable

/-- No unload is scheduled where the generation has thrown. -/
def interpretCommand (P : Platform) (commandText : Str) : Facade CommandResult := do
  perform .request
  if ← ensureLoaded then
    match ← attempt (interpretPrompt commandText) with
    | .text raw =>
      scheduleIdleUnload
      return interpretReply P commandText (.text raw)
    | outcome => return interpretReply P commandText outcome
  else return interpretReply P commandText .unavailable

/-! What the threads share -/

/-- What a generating caller has been told: nothing yet, that the model is ready, or
the deferred of a load. -/
inductive Ticket
  | asking | ready
  | joined (d : ℕ)
  deriving DecidableEq

/-- `loadMutex`, `loadDeferred` and the deferreds. The rest records which loads are being
started, run, or are in `smolLM.load`, how that ended, and what callers have got. -/
structure Loads where
  mutex : Bool
  loadDeferred : Option ℕ
  created : ℕ
  completed : List (ℕ × Bool)
  starting : List ℕ
  running : List ℕ
  inLoad : List ℕ
  results : List (ℕ × Bool)
  resumed : List (ℕ × Bool)

/-- The fields of the facade, and whether the native handle is open. The rest records the
threads in a native call, an unload between its two writes, and the callers' tickets. -/
structure Shared where
  state : State
  handle : Bool
  cachedModelPath : Str
  lock : Bool
  idleUnloadJob : Option ℕ
  jobs : ℕ
  cancelled : List ℕ
  loads : Loads
  native : List ℕ
  closing : Bool
  tickets : List (ℕ × Ticket)

def Shared.init : Shared where
  state := .notLoaded
  handle := false
  cachedModelPath := []
  lock := false
  idleUnloadJob := none
  jobs := 0
  cancelled := []
  loads := ⟨false, none, 0, [], [], [], [], [], []⟩
  native := []
  closing := false
  tickets := []

/-- Only the ticket of a generating caller is kept. -/
def Shared.told (s : Shared) (thread : ℕ) (ticket : Ticket) : Shared :=
  if ∃ t ∈ s.tickets, t.1 = thread then { s with tickets := (thread, ticket) :: s.tickets } else s

def Loads.ended (l : Loads) (d : ℕ) (ended : LoadEnd) : Loads :=
  { l with
    inLoad := l.inLoad.filter (· ≠ d)
    results := match ended with
      | .returned => (d, true) :: l.results
      | .exception _ => (d, false) :: l.results
      | .error _ => l.results }

/-- The locks, the fields and the deferreds answer, or block; the native model answers as
it may, without errors unless `errors`. -/
def act (errors : Bool) (thread : ℕ) : (op : FacadeOp) → facadeSig.Resp op → Shared →
    Option (facadeSig.Resp op × Shared)
  | .request, _, s => some ((), { s with tickets := (thread, .asking) :: s.tickets })
  | .stateIs state, _, s =>
    some (decide (s.state = state), if state = .ready ∧ s.state = .ready then s.told thread .ready else s)
  | .setState state, _, s => some ((), { s with state, closing := s.closing && state ≠ .notLoaded })
  | .getPath, _, s => some (s.cachedModelPath, s)
  | .setPath path, _, s => some ((), { s with cachedModelPath := path })
  | .lock, _, s => if s.lock then none else some ((), { s with lock := true })
  | .unlock, _, s =>
    some ((), { s with lock := false, tickets := s.tickets.filter fun t ↦ t.1 ≠ thread })
  | .enter _, _, s => some ((), { s with native := thread :: s.native })
  | .leave _, offer, s => some (offer, { s with native := s.native.filter (· ≠ thread) })
  | .close, _, s => some ((), { s with handle := false, closing := true })
  | .loadBegin d _, _, s => some ((), { s with loads.inLoad := d :: s.loads.inLoad })
  | .loadEnd d, offer, s =>
    match offer with
    | .returned => some (offer, { s with handle := true, loads := s.loads.ended d offer })
    | .exception _ => some (offer, { s with loads := s.loads.ended d offer })
    | .error _ => if errors then some (offer, { s with loads := s.loads.ended d offer }) else none
  | .lockMutex, _, s => if s.loads.mutex then none else some ((), { s with loads.mutex := true })
  | .unlockMutex, _, s => some ((), { s with loads.mutex := false })
  | .getDeferred, _, s => some (s.loads.loadDeferred, match s.loads.loadDeferred with
    | some d => s.told thread (.joined d)
    | none => s)
  | .newDeferred, _, s => some (s.loads.created, { s with
      loads.created := s.loads.created + 1, loads.starting := s.loads.created :: s.loads.starting })
  | .setDeferred none, _, s => some ((), { s with loads.loadDeferred := none })
  | .setDeferred (some d), _, s => some ((), { s.told thread (.joined d) with loads.loadDeferred := some d })
  | .launchLoad d, _, s => some ((), { s with
      loads.starting := s.loads.starting.filter (· ≠ d), loads.running := d :: s.loads.running })
  | .complete d result, _, s => some ((), { s with
      loads.completed := s.loads.completed ++ [(d, result)]
      loads.running := s.loads.running.filter (· ≠ d) })
  | .await d, _, s => match s.loads.completed.lookup d with
    | some result => some (result, { s with loads.resumed := (d, result) :: s.loads.resumed })
    | none => none
  | .getJob, _, s => some (s.idleUnloadJob, s)
  | .setJob job, _, s => some ((), { s with idleUnloadJob := job })
  | .cancel job, _, s => some ((), { s with cancelled := job :: s.cancelled })
  | .newJob, _, s => some (s.jobs, { s with jobs := s.jobs + 1 })
  | .launchIdleUnload _, _, s => some ((), s)
  | .delay job, _, s => some (decide (job ∉ s.cancelled), s)

def spawned : FacadeOp → Option (Facade Unit)
  | .launchLoad d => some (loadCoroutine d)
  | .launchIdleUnload job => some (idleUnload job)
  | _ => none

/-- A call of the facade. -/
inductive Call
  | generateSmsReply (senderName : Option Str) (senderPhone message : Str)
    (relationship instructions : Option Str)
  | generateChatReply (message : Str)
  | interpretCommand (commandText : Str)
  | loadModel (modelPath : Str)
  | storeModelPath (path : Str)
  | unloadModel

def forget {α : Type} (p : Facade α) : Facade Unit := p >>= fun _ ↦ return ()

variable (P : Platform)

def entry : Call → Facade Unit
  | .generateSmsReply senderName senderPhone message relationship instructions =>
    forget (generateSmsReply agentName ownerName senderName senderPhone message relationship instructions)
  | .generateChatReply message => forget (generateChatReply agentName ownerName message)
  | .interpretCommand commandText => forget (interpretCommand P commandText)
  | .loadModel modelPath => forget (loadModel modelPath)
  | .storeModelPath path => storeModelPath path
  | .unloadModel => unloadModel

/-- Any number of calls of the facade, with the coroutines that they launch. -/
def machine (errors : Bool) : Machine facadeSig Throwable Shared Call where
  act := act errors
  entry := entry agentName ownerName P
  spawned := spawned

abbrev Configuration := Config facadeSig Throwable Shared

/-! Runs along given labels, with a native model that answers nothing -/

def quiet : (op : FacadeOp) → facadeSig.Resp op
  | .stateIs _ | .await _ | .delay _ => false
  | .getPath => []
  | .leave _ => .ok []
  | .loadEnd _ => .returned
  | .getDeferred | .getJob => none
  | .newDeferred | .newJob => (0 : ℕ)
  | .request | .setState _ | .setPath _ | .lock | .unlock | .enter _ | .close | .loadBegin _ _
  | .lockMutex | .unlockMutex | .setDeferred _ | .launchLoad _ | .complete _ _ | .setJob _ | .cancel _
  | .launchIdleUnload _ => ()

abbrev sample : Machine facadeSig Throwable Shared Call := machine "Aigentik" "Owner" asciiPlatform false

abbrev calls (thread times : ℕ) : List (Label facadeSig Call) := List.replicate times (.step thread quiet)

end Aigentik.OnDemandLoading
