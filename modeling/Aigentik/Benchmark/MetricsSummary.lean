import Aigentik.Benchmark.BenchmarkRunner
import Mathlib.Data.List.Sort

namespace Aigentik.MetricsExporter

open Strings

def statusLabel (status : ℤ) : Str :=
  if status = 0 then "none".toList
  else if status = 1 then "light".toList
  else if status = 2 then "moderate".toList
  else if status = 3 then "severe".toList
  else if status = 4 then "critical".toList
  else if status = 5 then "emergency".toList
  else if status = 6 then "shutdown".toList
  else "unknown".toList

/-- `(size * p / 100).coerceIn(0, size - 1)`, in 32 bits. -/
def percentileIndex (size p : ℤ) : ℤ := max 0 (min (((size * p).bmod 4294967296).tdiv 100) (size - 1))

def percentile (latencies : List ℤ) (p : ℤ) : ℤ :=
  if latencies = [] then 0 else latencies.getD (percentileIndex latencies.length p).toNat 0

/-- The mean of floats, without their rounding. -/
def average (values : List ℚ) : ℚ := if values = [] then 0 else values.sum / values.length

def groupBy {κ : Type} [BEq κ] (key : TaskMetric → κ) (metrics : List TaskMetric) : List (κ × List TaskMetric) :=
  (metrics.map key).eraseDups.map fun k ↦ (k, metrics.filter fun m ↦ key m == k)

def sortedLatencies (metrics : List TaskMetric) : List ℤ := (metrics.map TaskMetric.latencyMs).insertionSort (· ≤ ·)

/-- The object of a task type. -/
structure TypeSummary where
  count : ℕ
  latencyP50Ms : ℤ
  latencyP90Ms : ℤ
  errorCount : ℕ

/-- The object written to `summary.json`; its nested objects are functions of their names. -/
structure Summary where
  experimentId : Str
  description : Str
  exportedAt : Str
  taskCountTotal : ℕ
  taskCountSuccessful : ℕ
  taskCountErrors : ℕ
  taskCountOom : ℕ
  latencyP50Ms : ℤ
  latencyP90Ms : ℤ
  latencyP99Ms : ℤ
  latencyMinMs : ℤ
  latencyMaxMs : ℤ
  tokensPerSecondMean : ℚ
  batteryDeltaMeanPct : ℚ
  byTaskType : Str → Option TypeSummary
  thermalDistribution : Str → Option ℕ

def successful (metrics : List TaskMetric) : List TaskMetric :=
  metrics.filter fun m ↦ m.errorCode.isNone && !m.oomKill

def typeSummary (group : List TaskMetric) : TypeSummary :=
  let typeLats := sortedLatencies (group.filter fun m ↦ m.errorCode.isNone)
  { count := group.length
    latencyP50Ms := percentile typeLats 50
    latencyP90Ms := percentile typeLats 90
    errorCount := group.countP fun m ↦ m.errorCode.isSome }

def summary (experimentId description exportedAt : Str) (metrics : List TaskMetric) : Summary :=
  let latencies := sortedLatencies (successful metrics)
  let batteryDeltas := ((successful metrics).filter fun m ↦
    0 ≤ m.batteryPercentBefore && 0 ≤ m.batteryPercentAfter).map fun m ↦ m.batteryPercentBefore - m.batteryPercentAfter
  { experimentId, description, exportedAt
    taskCountTotal := metrics.length
    taskCountSuccessful := (successful metrics).length
    taskCountErrors := metrics.countP fun m ↦ m.errorCode.isSome
    taskCountOom := metrics.countP fun m ↦ m.oomKill
    latencyP50Ms := percentile latencies 50
    latencyP90Ms := percentile latencies 90
    latencyP99Ms := percentile latencies 99
    latencyMinMs := latencies.headD 0
    latencyMaxMs := latencies.getLastD 0
    tokensPerSecondMean := average ((successful metrics).map TaskMetric.tokensPerSecond)
    batteryDeltaMeanPct := average batteryDeltas
    byTaskType := (groupBy TaskMetric.taskType metrics).foldl
      (fun json group ↦ Function.update json group.1 (some (typeSummary group.2))) fun _ ↦ none
    thermalDistribution := (groupBy TaskMetric.thermalStatus metrics).foldl
      (fun json group ↦ Function.update json (statusLabel group.1) (some group.2.length)) fun _ ↦ none }

theorem successful_add_errors {metrics : List TaskMetric} (h : metrics.countP (fun m ↦ m.oomKill) = 0) :
    (successful metrics).length + metrics.countP (fun m ↦ m.errorCode.isSome) = metrics.length := by
  have hsuccessful : successful metrics = metrics.filter fun m ↦ decide ¬m.errorCode.isSome = true := by
    refine List.filter_congr fun m hm ↦ ?_
    rw [Bool.eq_false_of_not_eq_true (List.countP_eq_zero.mp h m hm)]
    cases m.errorCode <;> rfl
  rw [hsuccessful, ← List.countP_eq_length_filter, Nat.add_comm]
  exact (List.length_eq_countP_add_countP _).symm

end Aigentik.MetricsExporter
