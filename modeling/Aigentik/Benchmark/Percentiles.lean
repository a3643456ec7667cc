import Aigentik.Benchmark.MetricsSummary
import Aigentik.Collections.SortedRanks

namespace Aigentik.MetricsExporter

open Strings Collections

variable {latencies : List ℤ} {n p q : ℤ}

/-! The index, where the product stays within an `Int` -/

theorem percentileIndex_eq (hn : 0 < n) (hp : 0 ≤ p) (hbound : n * p ≤ 2147483647) :
    percentileIndex n p = min (n * p / 100) (n - 1) := by
  have hprod : 0 ≤ n * p := mul_nonneg hn.le hp
  rw [percentileIndex, Int.bmod_eq_of_le (by omega) (by omega), Int.tdiv_eq_ediv_of_nonneg hprod]
  omega

theorem percentileIndex_mono (hn : 0 < n) (hp : 0 ≤ p) (hpq : p ≤ q) (hbound : n * q ≤ 2147483647) :
    percentileIndex n p ≤ percentileIndex n q := by
  have hprod : n * p ≤ n * q := mul_le_mul_of_nonneg_left hpq hn.le
  rw [percentileIndex_eq hn hp (hprod.trans hbound), percentileIndex_eq hn (hp.trans hpq) hbound]
  omega

theorem percentileIndex_toNat_lt (hne : latencies ≠ []) :
    (percentileIndex latencies.length p).toNat < latencies.length := by
  have hpos := List.length_pos_iff.mpr hne
  rw [percentileIndex]
  omega

theorem percentile_eq_getElem (hlt : (percentileIndex latencies.length p).toNat < latencies.length) :
    percentile latencies p = latencies[(percentileIndex latencies.length p).toNat] := by
  have hne : latencies ≠ [] := List.length_pos_iff.mp (Nat.zero_lt_of_lt hlt)
  rw [percentile, if_neg hne]
  exact (List.getElem_eq_getD 0).symm

/-! The two ranks of a percentile, and its order -/

theorem percentile_ranks (hsorted : latencies.Pairwise (· ≤ ·)) (hne : latencies ≠ []) (hp : 0 ≤ p) (hp' : p ≤ 100)
    (hbound : latencies.length * p ≤ 2147483647) :
    100 * (latencies.countP (· < percentile latencies p) : ℤ) ≤ latencies.length * p ∧
      latencies.length * p ≤ 100 * (latencies.countP (· ≤ percentile latencies p) : ℤ) := by
  have hpos : (0 : ℤ) < latencies.length := by exact_mod_cast List.length_pos_iff.mpr hne
  have hindex := percentileIndex_eq hpos hp hbound
  have hprod : 0 ≤ latencies.length * p := mul_nonneg hpos.le hp
  have htop : latencies.length * p ≤ latencies.length * 100 := mul_le_mul_of_nonneg_left hp' hpos.le
  have hlt := percentileIndex_toNat_lt (p := p) hne
  have hbelow := countP_lt_getElem_le hsorted.sortedLE hlt
  have hnotAbove := lt_countP_le_getElem hsorted.sortedLE hlt
  rw [← percentile_eq_getElem hlt] at hbelow hnotAbove
  omega

theorem percentile_mono (hsorted : latencies.Pairwise (· ≤ ·)) (hp : 0 ≤ p) (hpq : p ≤ q)
    (hbound : latencies.length * q ≤ 2147483647) : percentile latencies p ≤ percentile latencies q := by
  by_cases hne : latencies = []
  · rw [percentile, percentile, if_pos hne, if_pos hne]
  · have hpos : (0 : ℤ) < latencies.length := by exact_mod_cast List.length_pos_iff.mpr hne
    rw [percentile_eq_getElem (percentileIndex_toNat_lt hne), percentile_eq_getElem (percentileIndex_toNat_lt hne)]
    exact hsorted.sortedLE.getElem_le_getElem_of_le (Int.toNat_le_toNat (percentileIndex_mono hpos hp hpq hbound))

/-! The summaries -/

theorem sortedLatencies_sorted (metrics : List TaskMetric) : (sortedLatencies metrics).Pairwise (· ≤ ·) :=
  List.pairwise_insertionSort _ _

theorem length_sortedLatencies (metrics : List TaskMetric) : (sortedLatencies metrics).length = metrics.length := by
  rw [sortedLatencies, List.length_insertionSort, List.length_map]

theorem typeSummary_p50_le_p90 {group : List TaskMetric}
    (hbound : (group.countP fun m ↦ m.errorCode.isNone : ℤ) * 90 ≤ 2147483647) :
    (typeSummary group).latencyP50Ms ≤ (typeSummary group).latencyP90Ms := by
  refine percentile_mono (sortedLatencies_sorted _) (by decide) (by decide) ?_
  rwa [length_sortedLatencies, ← List.countP_eq_length_filter]

theorem foldl_update {κ β γ : Type} [DecidableEq κ] (value : β → γ) (group : κ → β) (keys : List κ)
    (json : κ → Option γ) (k : κ) :
    (keys.map fun k ↦ (k, group k)).foldl
        (fun (json : κ → Option γ) g ↦ Function.update json g.1 (some (value g.2))) json k =
      if k ∈ keys then some (value (group k)) else json k := by
  induction keys generalizing json with
  | nil => rfl
  | cons k' keys ih =>
    rw [List.map_cons, List.foldl_cons, ih]
    by_cases hk : k = k'
    · simp [hk]
    · simp [hk]

theorem byTaskType_eq (experimentId description exportedAt : Str) (metrics : List TaskMetric) (type : Str) :
    (summary experimentId description exportedAt metrics).byTaskType type =
      if type ∈ metrics.map TaskMetric.taskType then
        some (typeSummary (metrics.filter fun m ↦ m.taskType == type)) else none := by
  have hput := foldl_update typeSummary (fun type ↦ metrics.filter fun m ↦ m.taskType == type)
    (metrics.map TaskMetric.taskType).eraseDups (fun _ ↦ none) type
  refine hput.trans ?_
  simp only [List.mem_eraseDups]

/-- A percentile of sorted latencies has at most its share of them below it and at least that share not above it; it
grows with the rank asked for, so that the percentiles of every summary are in order. -/
theorem percentile_is_quantile :
    (∀ (latencies : List ℤ) (p : ℤ), latencies.Pairwise (· ≤ ·) → latencies ≠ [] → 0 ≤ p → p ≤ 100 →
      latencies.length * p ≤ 2147483647 →
        100 * (latencies.countP (· < percentile latencies p) : ℤ) ≤ latencies.length * p ∧
          latencies.length * p ≤ 100 * (latencies.countP (· ≤ percentile latencies p) : ℤ)) ∧
    (∀ (latencies : List ℤ) (p q : ℤ), latencies.Pairwise (· ≤ ·) → 0 ≤ p → p ≤ q → q ≤ 100 →
      latencies.length * q ≤ 2147483647 → percentile latencies p ≤ percentile latencies q) ∧
    ∀ (experimentId description exportedAt : Str) (metrics : List TaskMetric),
      let json := summary experimentId description exportedAt metrics
      (json.taskCountSuccessful * 99 ≤ 2147483647 →
        json.latencyP50Ms ≤ json.latencyP90Ms ∧ json.latencyP90Ms ≤ json.latencyP99Ms) ∧
      ∀ type t, json.byTaskType type = some t →
        (metrics.countP fun m ↦ m.taskType == type && m.errorCode.isNone) * 90 ≤ 2147483647 →
          t.latencyP50Ms ≤ t.latencyP90Ms := by
  refine ⟨fun latencies p hsorted hne hp hp' hbound ↦ percentile_ranks hsorted hne hp hp' hbound,
    fun latencies p q hsorted hp hpq _ hbound ↦ percentile_mono hsorted hp hpq hbound,
    fun experimentId description exportedAt metrics ↦ ⟨fun hbound ↦ ?_, fun type t ht hbound ↦ ?_⟩⟩
  · have hlength : ((sortedLatencies (successful metrics)).length : ℤ) * 99 ≤ 2147483647 := by
      rw [length_sortedLatencies]
      exact_mod_cast hbound
    have hsorted := sortedLatencies_sorted (successful metrics)
    exact ⟨percentile_mono hsorted (by decide) (by decide) (by omega),
      percentile_mono hsorted (by decide) (by decide) hlength⟩
  · rw [byTaskType_eq] at ht
    split at ht
    · rw [← Option.some_inj.mp ht]
      refine typeSummary_p50_le_p90 ?_
      rw [List.countP_filter]
      simp only [Bool.and_comm]
      exact_mod_cast hbound
    · cases ht

def chatMetric (taskId : Str) (latencyMs : ℤ) : TaskMetric :=
  { taskId, experimentId := "e".toList, taskType := "chat".toList, modelTier := "small".toList, startTimestampMs := 0
    endTimestampMs := latencyMs, latencyMs, tokenCount := 0, tokensPerSecond := 0, ramBeforeMb := 0, ramPeakMb := 0
    ramAfterMb := 0, batteryPercentBefore := 80, batteryPercentAfter := 79, thermalStatus := 0, confidenceScore := 0
    policyDecision := "NONE".toList, actionExecuted := false, outputQualityScore := none, oomKill := false
    errorCode := none }

theorem percentile_is_quantile_of_chats :
    100 * (([3, 5, 5, 9].countP (· < percentile [3, 5, 5, 9] 50) : ℕ) : ℤ) ≤ 200 ∧
      percentile [3, 5, 5, 9] 50 ≤ percentile [3, 5, 5, 9] 90 ∧
      let json := summary "e".toList [] [] [chatMetric "a".toList 9, chatMetric "b".toList 3]
      (json.latencyP50Ms ≤ json.latencyP90Ms ∧ json.latencyP90Ms ≤ json.latencyP99Ms) ∧
        ∃ t, json.byTaskType "chat".toList = some t ∧ t.latencyP50Ms ≤ t.latencyP90Ms := by
  have hsummary := percentile_is_quantile.2.2 "e".toList [] [] [chatMetric "a".toList 9, chatMetric "b".toList 3]
  exact ⟨(percentile_is_quantile.1 [3, 5, 5, 9] 50 (by decide) (by decide) (by decide) (by decide) (by decide)).1,
    percentile_is_quantile.2.1 [3, 5, 5, 9] 50 90 (by decide) (by decide) (by decide) (by decide) (by decide),
    hsummary.1 (by decide), _, rfl, hsummary.2 "chat".toList _ rfl (by decide)⟩

end Aigentik.MetricsExporter
