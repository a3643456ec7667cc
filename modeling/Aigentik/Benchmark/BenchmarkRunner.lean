import Aigentik.Agent.ActionPolicyEngine
import Aigentik.Routing.ModelRouter

namespace Aigentik

open Strings Effects

/-- The fields of an `ExperimentConfig` that a run reads. -/
structure ExperimentConfig where
  experimentId : Str
  modelTier : Str
  corpusPath : Str
  maxTasks : ℤ
  enableAdaptiveRouting : Bool
  deriving DecidableEq

/-- A row of `task_metrics`; `taskId` is its primary key. -/
structure TaskMetric where
  taskId : Str
  experimentId : Str
  taskType : Str
  modelTier : Str
  startTimestampMs : ℤ
  endTimestampMs : ℤ
  latencyMs : ℤ
  tokenCount : ℕ
  tokensPerSecond : ℚ
  ramBeforeMb : ℤ
  ramPeakMb : ℤ
  ramAfterMb : ℤ
  batteryPercentBefore : ℚ
  batteryPercentAfter : ℚ
  thermalStatus : ℤ
  confidenceScore : ℚ
  policyDecision : Str
  actionExecuted : Bool
  outputQualityScore : Option ℚ
  oomKill : Bool
  errorCode : Option Str
  deriving DecidableEq

namespace LatencyTracer

inductive Stage
  | notificationReceived | routingStart | llmLoadStart | llmLoadEnd | inferenceStart | firstToken | inferenceEnd
  | policyCheck | actionExecuted
  deriving DecidableEq

end LatencyTracer

open LatencyTracer in
/-- The time of each stage that has been marked. -/
abbrev LatencyTracer := Stage → Option ℤ

namespace LatencyTracer

def mark (tracer : LatencyTracer) (stage : Stage) (now : ℤ) : LatencyTracer := Function.update tracer stage (some now)

/-- The first of two marks that is there. -/
def either (tracer : LatencyTracer) (stage other : Stage) : Option ℤ := (tracer stage).or (tracer other)

def totalLatencyMs (tracer : LatencyTracer) : ℤ :=
  match tracer.either .notificationReceived .routingStart, tracer.either .actionExecuted .inferenceEnd with
  | some start, some finish => finish - start
  | _, _ => -1

def inferenceLatencyMs (tracer : LatencyTracer) : ℤ :=
  match tracer .inferenceStart, tracer .inferenceEnd with
  | some start, some finish => finish - start
  | _, _ => -1

end LatencyTracer

namespace BenchmarkRunner

open ExperimentConfig AgentLLMFacade ModelRouter

structure CorpusTask where
  taskId : Str
  taskType : Str
  input : Str
  context : Str
  adversarial : Bool
  expectedRisk : Str
  groundTruthSafe : Bool
  deriving DecidableEq

/-! The corpus -/

/-- A value of a JSON object; one that is neither a string nor a boolean by its text. -/
inductive JsonValue
  | string (s : Str)
  | boolean (b : Bool)
  | other (text : Str)
  deriving DecidableEq

abbrev JsonObject := Str → Option JsonValue

namespace JsonObject

variable (json : JsonObject)

def optString (name fallback : Str) : Str :=
  match json name with
  | some (.string s) => s
  | some (.boolean b) => if b then "true" else "false"
  | some (.other text) => text
  | none => fallback

def optBoolean (P : Platform) (name : Str) (fallback : Bool) : Bool :=
  match json name with
  | some (.boolean b) => b
  | some (.string s) =>
    if P.equalsIgnoreCase s "true" then true
    else if P.equalsIgnoreCase s "false" then false
    else fallback
  | some (.other _) | none => fallback

end JsonObject

def mapTaskType (raw : Str) : Str :=
  if raw = "message_reply".toList then TYPE_REPLY
  else if raw = "command_parse".toList then TYPE_PARSE
  else if raw = "summarization".toList then TYPE_SUMMARIZE
  else if raw = "retrieval".toList then TYPE_RETRIEVE
  else if raw = "calendar_reasoning".toList then TYPE_CALENDAR
  else raw

def ifBlank (s fallback : Str) : Str := if isBlank s then fallback else s

variable (P : Platform) (parse : Str → Option JsonObject)

def readTask (lineNum : ℕ) (json : JsonObject) : CorpusTask :=
  let rawType := ifBlank (json.optString "type" []) (json.optString "task_type" TYPE_REPLY)
  { taskId := json.optString "task_id" ("task_" ++ Nat.toDigits 10 lineNum)
    taskType := mapTaskType rawType
    input := json.optString "input" []
    context := ifBlank (json.optString "context" []) (json.optString "contact_relation" [])
    adversarial := json.optBoolean P "adversarial" false
    expectedRisk := json.optString "expected_risk_tier" []
    groundTruthSafe := json.optBoolean P "ground_truth_safe" true }

/-- The tasks of the lines from number `lineNum` on; `parse` is the constructor of `JSONObject`,
with `none` for its exception. -/
def readCorpusFrom : ℕ → List Str → List CorpusTask
  | _, [] => []
  | lineNum, line :: rest =>
    if isBlank line || startsWith line "//" then readCorpusFrom (lineNum + 1) rest
    else
      match parse line with
      | some json => readTask P lineNum json :: readCorpusFrom (lineNum + 1) rest
      | none => readCorpusFrom (lineNum + 1) rest

def readCorpus (lines : List Str) : List CorpusTask := readCorpusFrom P parse 1 lines

/-! The calls -/

/-- The methods of the facade that load the model before they answer. -/
inductive ModelCall
  | generateSmsReply (senderName : Option Str) (senderPhone message : Str) (relationship instructions : Option Str)
  | generateChatReply (message : Str)
  | interpretCommand (commandText : Str)
  deriving DecidableEq

/-- The progress goes to the settings screen, which stores the two numbers. -/
inductive Op
  | exists (path : Str)
  | lineSequence (path : Str)
  | currentTimeMillis
  | readRssKb
  | routing (op : ModelRouter.Op)
  | model (call : ModelCall)
  | insert (metric : TaskMetric)
  | onProgress (completed total : ℕ)
  deriving DecidableEq

abbrev sig : Sig where
  Op := Op
  Resp
    | .exists _ => Bool
    | .lineSequence _ => Except Throwable (List Str)
    | .currentTimeMillis | .readRssKb => ℤ
    | .routing op => ModelRouter.sig.Resp op
    | .model (.interpretCommand _) => Except Throwable CommandResult
    | .model _ => Except Throwable Str
    | .insert _ | .onProgress .. => Unit

abbrev Run (α : Type) := Prog sig Throwable α

abbrev call (op : Op) : Run (sig.Resp op) := .call op .ret

abbrev routingHom : ModelRouter.sig.Hom sig where
  op := .routing
  resp _ := .refl _

def attempt {α : Type} (call : Run (Except Throwable α)) : Run α := do
  Prog.ofExcept (← call)

/-! A task -/

def mark (tracer : LatencyTracer) (stage : LatencyTracer.Stage) : Run LatencyTracer := do
  return tracer.mark stage (← call .currentTimeMillis)

def commandText (cmd : CommandResult) : Str :=
  cmd.action ++ (cmd.target.elim [] (" ".toList ++ ·)) ++ (cmd.content.elim [] (": ".toList ++ ·))

/-- The keyword parser on the small tier, for a command; else the model. -/
def generate (profile : ModelProfile) (task : CorpusTask) : Run Str :=
  if !profile.useLlm && task.taskType = TYPE_PARSE then
    return commandText (parseSimpleCommand P task.input)
  else if task.taskType = TYPE_REPLY ∨ task.taskType = TYPE_PARSE then
    attempt (call (.model (.generateSmsReply (if isBlank task.context then none else some task.context) "benchmark"
      task.input none none)))
  else if task.taskType = TYPE_SUMMARIZE ∨ task.taskType = TYPE_RETRIEVE ∨ task.taskType = TYPE_CALENDAR then
    attempt (call (.model (.generateChatReply (trim (task.context ++ "\n" ++ task.input)))))
  else attempt (call (.model (.generateChatReply task.input)))

/-- At least one token for a text that is not blank. -/
def tokenCount (output : Str) : ℕ :=
  max (utf16Length output / 4) (if isBlank output then 0 else 1)

def decisionLabel : ActionPolicyEngine.Decision → Str
  | .allow => "allow"
  | .requireApproval => "require_approval"
  | .block => "block"

/-- The first of two marks, or the present time. -/
def timestamp (tracer : LatencyTracer) (stage other : LatencyTracer.Stage) : Run ℤ :=
  match tracer.either stage other with
  | some time => return time
  | none => call .currentTimeMillis

variable (config : ExperimentConfig)

def runTask (task : CorpusTask) : Run TaskMetric := do
  let ramBefore ← call .readRssKb
  let batteryBefore ← call (.routing .getBatteryPercent)
  let thermalStatus ← call (.routing .getThermalStatus)
  let tracer ← mark (fun _ ↦ none) .routingStart
  let forceTier := if config.enableAdaptiveRouting then none else some config.modelTier
  let routingDecision ← (route P task.input forceTier).lift routingHom
  let tracer ← mark tracer .llmLoadStart
  let tracer ← mark tracer .llmLoadEnd
  let tracer ← mark tracer .inferenceStart
  let output ← generate P routingDecision.profile task
  let tracer ← mark tracer .firstToken
  let tracer ← mark tracer .inferenceEnd
  let tracer ← mark tracer .actionExecuted
  let tokens := tokenCount output
  let ramAfter ← call .readRssKb
  let batteryAfter ← call (.routing .getBatteryPercent)
  let pd := ActionPolicyEngine.evaluatePublicReply P "benchmark" task.taskType output
  let inferenceMs := max tracer.inferenceLatencyMs 1
  let tps : ℚ := if 0 < tokens then tokens / (inferenceMs / 1000) else 0
  let startTimestampMs ← timestamp tracer .notificationReceived .routingStart
  let endTimestampMs ← timestamp tracer .actionExecuted .inferenceEnd
  return {
    taskId := task.taskId
    experimentId := config.experimentId
    taskType := task.taskType
    modelTier := routingDecision.selectedTier
    startTimestampMs
    endTimestampMs
    latencyMs := max tracer.totalLatencyMs 0
    tokenCount := tokens
    tokensPerSecond := tps
    ramBeforeMb := ramBefore.tdiv 1024
    ramPeakMb := (max ramBefore ramAfter).tdiv 1024
    ramAfterMb := ramAfter.tdiv 1024
    batteryPercentBefore := batteryBefore
    batteryPercentAfter := batteryAfter
    thermalStatus
    confidenceScore := pd.confidence
    policyDecision := decisionLabel pd.decision
    actionExecuted := !isBlank output && pd.allowed
    outputQualityScore := none
    oomKill := false
    errorCode := if task.adversarial then some "adversarial".toList else none }

def errorMetric (task : CorpusTask) (errorCode : Str) (now : ℤ) : TaskMetric where
  taskId := task.taskId
  experimentId := config.experimentId
  taskType := task.taskType
  modelTier := config.modelTier
  startTimestampMs := now
  endTimestampMs := now
  latencyMs := 0
  tokenCount := 0
  tokensPerSecond := 0
  ramBeforeMb := 0
  ramPeakMb := 0
  ramAfterMb := 0
  batteryPercentBefore := -1
  batteryPercentAfter := -1
  thermalStatus := 0
  confidenceScore := 0
  policyDecision := POLICY_BLOCK
  actionExecuted := false
  outputQualityScore := none
  oomKill := P.containsIgnoreCase errorCode "OOM"
  errorCode := some (errorCode.take 64)

/-! The experiment -/

/-- One round of the loop: what a task throws is an exception, and is recorded as an error row. -/
def runOne (limit completed : ℕ) (task : CorpusTask) : Run Unit :=
  Prog.tryCatch (do
    let metric ← runTask P config task
    call (.insert metric)
    call (.onProgress (completed + 1) limit)) fun e ↦ do
    call (.insert (errorMetric P config task e.simpleName (← call .currentTimeMillis)))
    call (.onProgress (completed + 1) limit)

def runTasks (limit : ℕ) : ℕ → List CorpusTask → Run ℕ
  | completed, [] => return completed
  | completed, task :: rest => do
    runOne P config limit completed task
    runTasks limit (completed + 1) rest

/-- The tasks of a run, up to `maxTasks` where that is positive. -/
def limited (tasks : List CorpusTask) : List CorpusTask :=
  tasks.take (if 0 < config.maxTasks then min config.maxTasks.toNat tasks.length else tasks.length)

def run : Run ℕ := do
  if ← call (.exists config.corpusPath) then
    let lines ← attempt (call (.lineSequence config.corpusPath))
    let tasks := limited config (readCorpus P parse lines)
    runTasks P config tasks.length 0 tasks
  else return 0

/-! The calls of a round -/

section Calls

variable {P} {C : Op → Prop}

theorem ofExcept_calls {α : Type} (r : Except Throwable α) : (Prog.ofExcept r : Run α).Calls C := by
  cases r <;> trivial

theorem generate_calls (hmodel : ∀ c, C (.model c)) (profile : ModelProfile) (task : CorpusTask) :
    (generate P profile task).Calls C := by
  unfold generate
  split
  · trivial
  · split
    · exact ⟨hmodel _, ofExcept_calls⟩
    · split <;> exact ⟨hmodel _, ofExcept_calls⟩

theorem timestamp_calls (hclock : C .currentTimeMillis) (tracer : LatencyTracer) (stage other : LatencyTracer.Stage) :
    (timestamp tracer stage other).Calls C := by
  unfold timestamp
  cases tracer.either stage other with
  | some time => trivial
  | none => exact ⟨hclock, fun _ ↦ trivial⟩

end Calls

end BenchmarkRunner

end Aigentik
