import Aigentik.Platform
import Mathlib.Data.Rat.Floor

/-! The routing of a task to a model tier. Floating-point numbers are rationals. -/

namespace Aigentik

open Strings Effects

namespace ExperimentConfig

def TYPE_REPLY : Str := "reply"

def TYPE_PARSE : Str := "parse"

def TYPE_SUMMARIZE : Str := "summarize"

def TYPE_RETRIEVE : Str := "retrieve"

def TYPE_CALENDAR : Str := "calendar"

def POLICY_BLOCK : Str := "block"

end ExperimentConfig

structure ModelProfile where
  tier : Str
  maxContextTokens : ℕ
  latencyP50Ms : ℕ
  latencyP90Ms : ℕ
  estimatedRamMb : ℕ
  useLlm : Bool
  deriving DecidableEq

namespace ModelProfile

def SMALL : ModelProfile := ⟨"small", 256, 50, 200, 0, false⟩

def MEDIUM : ModelProfile := ⟨"medium", 2048, 12000, 22000, 800, true⟩

def LARGE : ModelProfile := ⟨"large", 4096, 25000, 45000, 1200, true⟩

def forTier (P : Platform) (tier : Str) : ModelProfile :=
  let tier := P.lowercase tier
  if tier = "small".toList then SMALL
  else if tier = "large".toList then LARGE
  else MEDIUM

theorem small_forTier {P : Platform} (hsmall : P.lowercase "small".toList = "small".toList) :
    forTier P "small".toList = SMALL := by
  simp only [forTier, hsmall, if_true]

end ModelProfile

namespace TaskClassifier

open ExperimentConfig

def containsAny (s : Str) (tokens : List String) : Bool := tokens.any fun t ↦ contains s t

def startsWithAny (s : Str) (prefixes : List String) : Bool := prefixes.any fun p ↦ startsWith s p

def classify (P : Platform) (input : Str) : Str :=
  let lower := P.lowercase input
  if containsAny lower ["schedule", "appointment", "meeting", "calendar", "reschedule", "free slot", "conflict",
      "block time", "book a"] ||
      (containsAny lower ["available", "free"] && containsAny lower ["when", "what time", "today", "tomorrow"]) then
    TYPE_CALENDAR
  else if utf16Length lower > 300 || containsAny lower ["summarize", "summary", "digest", "tldr", "tl;dr", "in brief",
      "give me an overview", "what happened"] then
    TYPE_SUMMARIZE
  else if containsAny lower ["find ", "look up", "search for", "who is", "what is", "phone number",
      "email address", "contact info", "get me"] then
    TYPE_RETRIEVE
  else if startsWithAny lower ["send ", "text ", "enable ", "disable ", "check email", "sync contacts", "status",
      "channels", "never reply", "always reply", "set contact"] ||
      containsAny lower ["broadcast", "mass text", "delete", "wipe", "clear all"] then
    TYPE_PARSE
  else TYPE_REPLY

/-- `split` at every match of an expression that matches no empty text. -/
def split (r : Re) : ℕ → Str → List Str
  | 0, s => [s]
  | n + 1, s =>
    match r.find s with
    | none => [s]
    | some m => m.before :: split r n m.rest

def complexityScore (input : Str) : ℚ :=
  let words := (split (.plus true .space) (trim input).length (trim input)).length
  if words < 8 then 2 / 10
  else if words < 20 then 4 / 10
  else if words < 50 then 6 / 10
  else if words < 100 then 8 / 10
  else 1

end TaskClassifier

namespace DeviceStateReader

structure DeviceState where
  batteryPercent : ℚ
  isCharging : Bool
  thermalStatus : ℤ
  availableRamMb : ℤ
  deriving DecidableEq

namespace DeviceState

variable (device : DeviceState)

def isThermallyConstrained : Bool := device.thermalStatus ≥ 3

def isBatteryLow : Bool := !device.isCharging && (0 ≤ device.batteryPercent && device.batteryPercent ≤ 15)

def isRamConstrained : Bool := 0 ≤ device.availableRamMb && device.availableRamMb ≤ 400

end DeviceState

end DeviceStateReader

namespace ModelRouter

open ExperimentConfig DeviceStateReader

structure RoutingDecision where
  selectedTier : Str
  profile : ModelProfile
  taskType : Str
  complexity : ℚ
  reason : Str
  deriving DecidableEq

def intText (n : ℤ) : Str := if n < 0 then '-' :: Nat.toDigits 10 n.natAbs else Nat.toDigits 10 n.natAbs

/-- A score with one decimal. -/
def scoreText (q : ℚ) : Str := intText (⌊q * 10⌋ / 10) ++ "." ++ intText (⌊q * 10⌋ % 10)

def selectTier (taskType : Str) (complexity : ℚ) (device : DeviceState) (forceTier : Option Str) : Str × Str :=
  match forceTier with
  | some tier => (tier, "forced by experiment config")
  | none =>
    if device.isThermallyConstrained then
      ("small", "thermal constraint (status=" ++ intText device.thermalStatus ++ ")")
    else if device.isBatteryLow then
      ("small", "low battery (" ++ intText ⌊device.batteryPercent⌋ ++ "%, not charging)")
    else if device.isRamConstrained then
      ("small", "low RAM (" ++ intText device.availableRamMb ++ "MB available)")
    else if taskType = TYPE_PARSE ∧ complexity < 4 / 10 then
      ("small", "simple command (parse, complexity=" ++ scoreText complexity ++ ")")
    else if taskType ∈ [TYPE_SUMMARIZE, TYPE_CALENDAR] ∨ 8 / 10 ≤ complexity then
      ("large", "complex task (" ++ taskType ++ ", complexity=" ++ scoreText complexity ++ ")")
    else ("medium", "default routing (" ++ taskType ++ ", complexity=" ++ scoreText complexity ++ ")")

/-- The readings of the device, and the log of the decisions. -/
inductive Op
  | getBatteryPercent
  | isCharging
  | getThermalStatus
  | readAvailableRamMb
  | log (decision : RoutingDecision) (device : DeviceState)
  deriving DecidableEq

abbrev sig : Sig where
  Op := Op
  Resp
    | .getBatteryPercent => ℚ
    | .isCharging => Bool
    | .getThermalStatus | .readAvailableRamMb => ℤ
    | .log .. => Unit

abbrev Routing (α : Type) := Prog sig Throwable α

abbrev call (op : Op) : Routing (sig.Resp op) := .call op .ret

def read : Routing DeviceState := do
  let battery ← call .getBatteryPercent
  let charging ← call .isCharging
  let thermal ← call .getThermalStatus
  let ram ← call .readAvailableRamMb
  return ⟨battery, charging, thermal, ram⟩

def decisionFor (P : Platform) (input : Str) (device : DeviceState) (forceTier : Option Str) : RoutingDecision :=
  let taskType := TaskClassifier.classify P input
  let complexity := TaskClassifier.complexityScore input
  let (tier, reason) := selectTier taskType complexity device forceTier
  ⟨tier, ModelProfile.forTier P tier, taskType, complexity, reason⟩

def route (P : Platform) (input : Str) (forceTier : Option Str) : Routing RoutingDecision := do
  let device ← read
  let decision := decisionFor P input device forceTier
  call (.log decision device)
  return decision

/-- Where nothing is forced, the small tier is for a constrained device or a simple command. -/
theorem small_iff (taskType : Str) (complexity : ℚ) (device : DeviceState) :
    (selectTier taskType complexity device none).1 = "small".toList ↔
      device.isThermallyConstrained = true ∨ device.isBatteryLow = true ∨ device.isRamConstrained = true ∨
        (taskType = TYPE_PARSE ∧ complexity < 4 / 10) := by
  unfold selectTier
  dsimp only
  split_ifs <;> simp_all

end ModelRouter

end Aigentik
