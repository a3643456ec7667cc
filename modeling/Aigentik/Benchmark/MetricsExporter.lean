import Aigentik.Benchmark.BenchmarkRunner
import Aigentik.Strings.Csv
import Aigentik.Strings.Lines

namespace Aigentik.MetricsExporter

open Strings Csv ModelRouter

/-- `"%.nf".format` in the default locale, which decides on the digits and the separator; it writes
neither quotes nor line ends. -/
structure Locale where
  format : ℕ → ℚ → Str
  oneLine : ∀ n x, ∀ c ∈ format n x, c = ',' ∨ isSpecial c = false

def csvEscape (s : Str) : Str :=
  if ',' ∈ s ∨ '"' ∈ s ∨ '\n' ∈ s then '"' :: (doubled s ++ ['"']) else s

def boolText (b : Bool) : Str := if b then "true".toList else "false".toList

def header : List Str :=
  ["task_id".toList, "experiment_id".toList, "task_type".toList, "model_tier".toList,
    "start_timestamp_ms".toList, "end_timestamp_ms".toList, "latency_ms".toList,
    "token_count".toList, "tokens_per_second".toList,
    "ram_before_mb".toList, "ram_peak_mb".toList, "ram_after_mb".toList,
    "battery_before".toList, "battery_after".toList, "thermal_status".toList,
    "confidence_score".toList, "policy_decision".toList, "action_executed".toList,
    "output_quality_score".toList, "oom_kill".toList, "error_code".toList]

variable (L : Locale)

def quality (m : TaskMetric) : Str :=
  match m.outputQualityScore with
  | some score => L.format 3 score
  | none => []

def errorText (m : TaskMetric) : Str :=
  match m.errorCode with
  | some code => csvEscape code
  | none => []

def columns (m : TaskMetric) : List Str :=
  [csvEscape m.taskId, csvEscape m.experimentId, m.taskType, m.modelTier,
    intText m.startTimestampMs, intText m.endTimestampMs, intText m.latencyMs,
    intText m.tokenCount, L.format 2 m.tokensPerSecond,
    intText m.ramBeforeMb, intText m.ramPeakMb, intText m.ramAfterMb,
    L.format 1 m.batteryPercentBefore, L.format 1 m.batteryPercentAfter, intText m.thermalStatus,
    L.format 3 m.confidenceScore, m.policyDecision, boolText m.actionExecuted,
    quality L m, boolText m.oomKill, errorText m]

/-- `appendLine(row.joinToString(","))`. -/
def line (row : List Str) : Str := joinToString [','] row ++ ['\n']

def metricsCsv (metrics : List TaskMetric) : Str := line header ++ metrics.flatMap fun m ↦ line (columns L m)

/-! What a reader of the file is to find -/

structure Matches (m : TaskMetric) (rec : List Str) : Prop where
  length : rec.length = 21
  taskId : rec[0]? = some m.taskId
  experimentId : rec[1]? = some m.experimentId
  taskType : rec[2]? = some m.taskType
  modelTier : rec[3]? = some m.modelTier
  policyDecision : rec[16]? = some m.policyDecision
  errorCode : rec[20]? = some (m.errorCode.getD [])

/-- The header, and a record for each of the metrics. -/
def RoundTrip (metrics : List TaskMetric) : Prop :=
  ∃ recs, parse (metricsCsv L metrics) = some (header :: recs) ∧ List.Forall₂ Matches metrics recs

/-- Text that is put in quotes if it has a line end. -/
def Escapable (s : Str) : Prop := '\r' ∈ s → ',' ∈ s ∨ '"' ∈ s ∨ '\n' ∈ s

def formatted (m : TaskMetric) : List Str :=
  [L.format 2 m.tokensPerSecond, L.format 1 m.batteryPercentBefore, L.format 1 m.batteryPercentAfter,
    L.format 3 m.confidenceScore, quality L m]

structure Clean (m : TaskMetric) : Prop where
  taskId : Escapable m.taskId
  experimentId : Escapable m.experimentId
  taskType : Plain m.taskType
  modelTier : Plain m.modelTier
  formatted : ∀ w ∈ formatted L m, ',' ∉ w
  policyDecision : Plain m.policyDecision
  errorCode : ∀ code ∈ m.errorCode, Escapable code

variable {L} {m : TaskMetric} {s v : Str}

theorem spells_csvEscape (h : Escapable v) : Spells (csvEscape v) v := by
  unfold csvEscape
  by_cases hquoted : ',' ∈ v ∨ '"' ∈ v ∨ '\n' ∈ v
  · rw [if_pos hquoted]
    exact .inr rfl
  · rw [if_neg hquoted]
    refine .inl ⟨rfl, fun c hc ↦ isSpecial_eq_false.mpr ?_⟩
    obtain ⟨hcomma, hquote, hlf⟩ : ',' ∉ v ∧ '"' ∉ v ∧ '\n' ∉ v := by simpa [not_or] using hquoted
    refine ⟨?_, ?_, ?_, ?_⟩
    · intro heq
      subst heq
      exact hcomma hc
    · intro heq
      subst heq
      exact hquote hc
    · intro heq
      subst heq
      exact hlf hc
    · intro heq
      subst heq
      exact hquoted (h hc)

theorem spells_of_plain (h : Plain v) : Spells v v := .inl ⟨rfl, h⟩

theorem plain_toDigits (n : ℕ) : Plain (Nat.toDigits 10 n) := by
  intro c hc
  have hdigit := Nat.isDigit_of_mem_toDigits (by decide) (by decide) hc
  refine isSpecial_eq_false.mpr ⟨?_, ?_, ?_, ?_⟩ <;> rintro rfl <;> exact absurd hdigit (by decide)

theorem plain_intText (n : ℤ) : Plain (intText n) := by
  unfold intText
  split
  · exact plain_cons.mpr ⟨rfl, plain_toDigits _⟩
  · exact plain_toDigits _

theorem plain_boolText (b : Bool) : Plain (boolText b) := by
  cases b <;> decide

/-! The columns -/

variable (L) in
/-- The columns between the tier and the decision. -/
def numbers (m : TaskMetric) : List Str :=
  [intText m.startTimestampMs, intText m.endTimestampMs, intText m.latencyMs,
    intText m.tokenCount, L.format 2 m.tokensPerSecond,
    intText m.ramBeforeMb, intText m.ramPeakMb, intText m.ramAfterMb,
    L.format 1 m.batteryPercentBefore, L.format 1 m.batteryPercentAfter, intText m.thermalStatus,
    L.format 3 m.confidenceScore]

variable (L) in
/-- The columns between the decision and the error. -/
def outcome (m : TaskMetric) : List Str := [boolText m.actionExecuted, quality L m, boolText m.oomKill]

theorem numbers_ne_nil (L : Locale) (m : TaskMetric) : numbers L m ≠ [] := List.cons_ne_nil _ _

theorem outcome_ne_nil (L : Locale) (m : TaskMetric) : outcome L m ≠ [] := List.cons_ne_nil _ _

theorem columns_eq (L : Locale) (m : TaskMetric) : columns L m =
    csvEscape m.taskId :: csvEscape m.experimentId :: m.taskType :: m.modelTier ::
      (numbers L m ++ m.policyDecision :: (outcome L m ++ [errorText m])) := rfl

def values (L : Locale) (m : TaskMetric) : List Str :=
  m.taskId :: m.experimentId :: m.taskType :: m.modelTier ::
    (numbers L m ++ m.policyDecision :: (outcome L m ++ [m.errorCode.getD []]))

def OneLine (w : Str) : Prop := ∀ c ∈ w, c = ',' ∨ isSpecial c = false

theorem OneLine.of_plain (h : Plain v) : OneLine v := fun c hc ↦ .inr (h c hc)

theorem OneLine.plain (h : OneLine v) (hcomma : ',' ∉ v) : Plain v := fun c hc ↦
  (h c hc).resolve_left fun heq ↦ hcomma (heq ▸ hc)

theorem oneLine_quality (L : Locale) (m : TaskMetric) : OneLine (quality L m) := by
  unfold quality
  split
  · exact L.oneLine 3 _
  · exact fun _ h ↦ nomatch h

theorem oneLine_numbers (L : Locale) (m : TaskMetric) : ∀ w ∈ numbers L m, OneLine w := by
  have hint (n : ℤ) : OneLine (intText n) := .of_plain (plain_intText n)
  simp only [numbers, List.forall_mem_cons]
  exact ⟨hint _, hint _, hint _, hint _, L.oneLine 2 _, hint _, hint _, hint _, L.oneLine 1 _, L.oneLine 1 _, hint _,
    L.oneLine 3 _, fun _ h ↦ nomatch h⟩

theorem oneLine_outcome (L : Locale) (m : TaskMetric) : ∀ w ∈ outcome L m, OneLine w := by
  have hbool (b : Bool) : OneLine (boolText b) := .of_plain (plain_boolText b)
  simp only [outcome, List.forall_mem_cons]
  exact ⟨hbool _, oneLine_quality L m, hbool _, fun _ h ↦ nomatch h⟩

theorem oneLine_join {ws : List Str} (h : ∀ w ∈ ws, OneLine w) : OneLine (joinToString [','] ws) := by
  induction ws with
  | nil => exact fun _ h ↦ nomatch h
  | cons w ws ih =>
    obtain ⟨hw, hws⟩ := List.forall_mem_cons.mp h
    by_cases hnil : ws = []
    · rw [hnil]
      exact hw
    · rw [joinToString_cons _ hnil]
      intro c hc
      rcases List.mem_append.mp hc with hc | hc
      · rcases List.mem_append.mp hc with hc | hc
        · exact hw c hc
        · exact .inl (List.mem_singleton.mp hc)
      · exact ih hws c hc

/-- A comma between two columns, and those in them. -/
theorem count_join {ws : List Str} (hne : ws ≠ []) :
    (joinToString [','] ws).count ',' + 1 = ws.length + (ws.map (List.count ',')).sum := by
  induction ws with
  | nil => exact absurd rfl hne
  | cons w ws ih =>
    by_cases hnil : ws = []
    · rw [hnil]
      simp [joinToString]
      omega
    · rw [joinToString_cons _ hnil, List.count_append, List.count_append, List.map_cons, List.sum_cons,
        List.length_cons]
      have hrest := ih hnil
      have hone : List.count ',' [','] = 1 := rfl
      omega

theorem commas_iff (L : Locale) (m : TaskMetric) :
    (∀ w ∈ formatted L m, ',' ∉ w) ↔ (∀ w ∈ numbers L m, ',' ∉ w) ∧ ∀ w ∈ outcome L m, ',' ∉ w := by
  have hint (n : ℤ) : ',' ∉ intText n := fun hc ↦ (isSpecial_eq_false.mp (plain_intText n _ hc)).1 rfl
  have hbool (b : Bool) : ',' ∉ boolText b := fun hc ↦ (isSpecial_eq_false.mp (plain_boolText b _ hc)).1 rfl
  simp only [formatted, numbers, outcome, List.forall_mem_cons, List.not_mem_nil, false_implies, implies_true, and_true,
    hint, hbool, not_false_eq_true, true_and, and_assoc]

theorem spells_errorText (h : ∀ code ∈ m.errorCode, Escapable code) : Spells (errorText m) (m.errorCode.getD []) := by
  unfold errorText
  cases hcode : m.errorCode with
  | none => exact spells_of_plain fun _ h ↦ nomatch h
  | some code => exact spells_csvEscape (h code hcode)

theorem spells_columns (h : Clean L m) : List.Forall₂ Spells (columns L m) (values L m) := by
  obtain ⟨hnumbers, houtcome⟩ := (commas_iff L m).mp h.formatted
  have hplain {ws : List Str} (hone : ∀ w ∈ ws, OneLine w) (hcomma : ∀ w ∈ ws, ',' ∉ w) : List.Forall₂ Spells ws ws :=
    List.forall₂_same.mpr fun w hw ↦ spells_of_plain ((hone w hw).plain (hcomma w hw))
  refine .cons (spells_csvEscape h.taskId) (.cons (spells_csvEscape h.experimentId) (.cons (spells_of_plain h.taskType)
    (.cons (spells_of_plain h.modelTier) ?_)))
  refine List.rel_append (hplain (oneLine_numbers L m) hnumbers) (.cons (spells_of_plain h.policyDecision) ?_)
  exact List.rel_append (hplain (oneLine_outcome L m) houtcome) (.cons (spells_errorText h.errorCode) .nil)

theorem matches_values (L : Locale) (m : TaskMetric) : Matches m (values L m) := ⟨rfl, rfl, rfl, rfl, rfl, rfl, rfl⟩

theorem read_line {ws vs : List Str} (h : List.Forall₂ Spells ws vs) (hne : ws ≠ []) (records : List (List Str))
    (s : Str) :
    Reader.read { records } (line ws ++ s) = Reader.read { records := records ++ [vs] } s := by
  rw [line, List.append_assoc, List.singleton_append, Reader.read_record h hne ⟨rfl, rfl⟩]
  rfl

theorem header_spelled : List.Forall₂ Spells header header := by
  have hplain : ∀ w ∈ header, Plain w := by decide
  exact List.forall₂_same.mpr fun w hw ↦ spells_of_plain (hplain w hw)

theorem read_header (s : Str) : Reader.read {} (line header ++ s) = Reader.read { records := [header] } s :=
  read_line header_spelled (List.cons_ne_nil _ _) [] s

theorem read_lines {metrics : List TaskMetric} (h : ∀ m ∈ metrics, Clean L m) (records : List (List Str)) :
    Reader.read { records } (metrics.flatMap fun m ↦ line (columns L m)) =
      some (records ++ metrics.map (values L)) := by
  induction metrics generalizing records with
  | nil => simp [Reader.read, Reader.finish]
  | cons m metrics ih =>
    obtain ⟨hm, hrest⟩ := List.forall_mem_cons.mp h
    rw [List.flatMap_cons, read_line (spells_columns hm) (List.cons_ne_nil _ _), ih hrest, List.map_cons,
      List.append_assoc]
    rfl

/-! A record that was read -/

variable {r : Reader} {out : List (List Str)} {rec : List Str} {c : Char}

/-- A field that is put in quotes if it needs them, and read as it was. -/
theorem escapable_of_gives (hr : r.Fresh) (hquote : c ≠ '"') (h : r.read (csvEscape v ++ c :: s) = some out)
    (hgives : r.Gives out v) : Escapable v := by
  by_cases hquoted : ',' ∈ v ∨ '"' ∈ v ∨ '\n' ∈ v
  · exact fun _ ↦ hquoted
  · have hsame : csvEscape v = v := if_neg hquoted
    rw [hsame] at h
    have hplain := Reader.plain_of_gives hr hquote h hgives
    exact fun hcr ↦ absurd rfl (isSpecial_eq_false.mp (hplain _ hcr)).2.2.2

theorem line_columns (L : Locale) (m : TaskMetric) (s : Str) : line (columns L m) ++ s =
    csvEscape m.taskId ++ ',' :: (csvEscape m.experimentId ++ ',' :: (m.taskType ++ ',' :: (m.modelTier ++ ',' ::
      (joinToString [','] (numbers L m) ++ ',' :: (m.policyDecision ++ ',' ::
        (joinToString [','] (outcome L m) ++ ',' :: (errorText m ++ '\n' :: s))))))) := by
  have hnext (w : Str) {ws : List Str} (hne : ws ≠ []) :
      joinToString [','] (w :: ws) = w ++ ',' :: joinToString [','] ws := by
    rw [joinToString_cons _ hne, List.append_assoc]
    rfl
  have hnumbers := numbers_ne_nil L m
  have houtcome := outcome_ne_nil L m
  rw [columns_eq, line, hnext _ (List.cons_ne_nil _ _), hnext _ (List.cons_ne_nil _ _), hnext _ (List.cons_ne_nil _ _),
    hnext _ (List.append_ne_nil_of_left_ne_nil hnumbers _), joinToString_append _ hnumbers (List.cons_ne_nil _ _),
    hnext _ (List.append_ne_nil_of_left_ne_nil houtcome _), joinToString_append _ houtcome (List.cons_ne_nil _ _)]
  simp [joinToString]

structure Between (records : List (List Str)) (record : List Str) (r : Reader) : Prop extends r.Fresh where
  records : r.records = records
  record : r.record = record

theorem Between.next {records : List (List Str)} {record : List Str} {w : Str} (hr : Between records record r)
    (hw : Spells w v) (h : r.read (w ++ ',' :: s) = some out) :
    ∃ r', Between records (record ++ [v]) r' ∧ r'.read s = some out := by
  rw [Reader.read_field hw hr.toFresh] at h
  exact ⟨{ r with record := r.record ++ [v] }, ⟨⟨hr.place, hr.field⟩, hr.records, congrArg (· ++ [v]) hr.record⟩, h⟩

theorem Between.gives {records : List (List Str)} {record : List Str} (hr : Between records record r)
    (hrec : out[records.length]? = some rec) (hv : rec[record.length]? = some v) : r.Gives out v :=
  ⟨rec, by rw [hr.records]; exact hrec, by rw [hr.record]; exact hv⟩

theorem Between.isPrefix {records : List (List Str)} {record : List Str} (hr : Between records record r)
    (hne : record ≠ []) (h : r.read s = some out) (hrec : out[records.length]? = some rec) :
    record <+: rec ∧ record.length < rec.length := by
  obtain ⟨rec', hrec', hprefix⟩ := (Reader.extends_of_read h).record (hr.record ▸ hne)
  rw [hr.records, hrec] at hrec'
  cases hrec'
  rwa [hr.record] at hprefix

/-- The numbers are as many fields as columns, or more. -/
theorem Between.block {records : List (List Str)} {record ws : List Str} (hr : Between records record r) (hne : ws ≠ [])
    (hws : ∀ w ∈ ws, OneLine w) (h : r.read (joinToString [','] ws ++ ',' :: s) = some out) :
    ∃ vs : List Str, vs.length = ws.length + (ws.map (List.count ',')).sum ∧ (∀ v ∈ vs, Plain v) ∧
      ∃ r', Between records (record ++ vs) r' ∧ r'.read s = some out := by
  have hfield : Plain r.field := by
    rw [hr.toFresh.field]
    exact fun _ h ↦ nomatch h
  obtain ⟨vs, hlength, hplain, hread⟩ := Reader.read_commas hr.isOpen hfield (oneLine_join hws) s
  rw [hread] at h
  exact ⟨vs, hlength.trans (count_join hne), hplain, { r with record := r.record ++ vs, field := [], place := .start },
    ⟨⟨rfl, rfl⟩, hr.records, congrArg (· ++ vs) hr.record⟩, h⟩

theorem no_commas {ws : List Str} (h : (ws.map (List.count ',')).sum = 0) : ∀ w ∈ ws, ',' ∉ w := fun _ hw ↦
  List.count_eq_zero.mp (List.sum_eq_zero_iff_forall_eq_nat.mp h _ (List.mem_map_of_mem hw))

/-- A record with the right texts, in the right places, comes from a clean metric. -/
theorem clean_of_read {records : List (List Str)} (h : Reader.read { records } (line (columns L m) ++ s) = some out)
    (hrec : out[records.length]? = some rec) (hm : Matches m rec) : Clean L m := by
  rw [line_columns] at h
  have h₀ : Between records [] { records } := ⟨⟨rfl, rfl⟩, rfl, rfl⟩
  have htaskId := escapable_of_gives h₀.toFresh (by decide) h (h₀.gives hrec hm.taskId)
  obtain ⟨r₁, h₁, h⟩ := h₀.next (spells_csvEscape htaskId) h
  have hexperimentId := escapable_of_gives h₁.toFresh (by decide) h (h₁.gives hrec hm.experimentId)
  obtain ⟨r₂, h₂, h⟩ := h₁.next (spells_csvEscape hexperimentId) h
  have htaskType := Reader.plain_of_gives h₂.toFresh (by decide) h (h₂.gives hrec hm.taskType)
  obtain ⟨r₃, h₃, h⟩ := h₂.next (spells_of_plain htaskType) h
  have hmodelTier := Reader.plain_of_gives h₃.toFresh (by decide) h (h₃.gives hrec hm.modelTier)
  obtain ⟨r₄, h₄, h⟩ := h₃.next (spells_of_plain hmodelTier) h
  obtain ⟨vs, hvs, hplain, r₅, h₅, h⟩ := h₄.block (numbers_ne_nil L m) (oneLine_numbers L m) h
  have htwelve : (numbers L m).length = 12 := rfl
  have hdecision : Plain m.policyDecision := by
    by_cases hmore : 12 < vs.length
    · -- with a comma too many, the decision is read from the numbers
      obtain ⟨⟨rest, hrest⟩, -⟩ := h₅.isPrefix (List.cons_ne_nil _ _) h hrec
      have hdecision := hm.policyDecision
      rw [← hrest] at hdecision
      have hfour : (m.taskId :: m.experimentId :: m.taskType :: m.modelTier :: (vs ++ rest))[16]? = vs[12]? :=
        List.getElem?_append_left hmore
      exact hplain _ (List.mem_of_getElem? (hfour.symm.trans hdecision))
    · refine Reader.plain_of_gives h₅.toFresh (by decide) h (h₅.gives hrec ?_)
      have hsixteen : ([m.taskId, m.experimentId, m.taskType, m.modelTier] ++ vs).length = 16 := by
        rw [List.length_append]
        simp only [List.length_cons, List.length_nil]
        omega
      exact hsixteen ▸ hm.policyDecision
  obtain ⟨r₆, h₆, h⟩ := h₅.next (spells_of_plain hdecision) h
  obtain ⟨us, hus, -, r₇, h₇, h⟩ := h₆.block (outcome_ne_nil L m) (oneLine_outcome L m) h
  have hthree : (outcome L m).length = 3 := rfl
  obtain ⟨-, hless⟩ := h₇.isPrefix (List.cons_ne_nil _ _) h hrec
  have hlength := hm.length
  simp only [List.length_append, List.length_cons, List.length_nil] at hless
  have hnumbers : ∀ w ∈ numbers L m, ',' ∉ w := no_commas (by omega)
  have houtcome : ∀ w ∈ outcome L m, ',' ∉ w := no_commas (by omega)
  refine ⟨htaskId, hexperimentId, htaskType, hmodelTier, (commas_iff L m).mpr ⟨hnumbers, houtcome⟩, hdecision, ?_⟩
  intro code hcode
  have herror : errorText m = csvEscape code := by
    unfold errorText
    rw [hcode]
  have hvalue := hm.errorCode
  rw [hcode] at hvalue
  rw [herror] at h
  refine escapable_of_gives h₇.toFresh (by decide) h (h₇.gives hrec ?_)
  have htwenty :
      ([m.taskId, m.experimentId, m.taskType, m.modelTier] ++ vs ++ [m.policyDecision] ++ us).length = 20 := by
    simp only [List.length_append, List.length_cons, List.length_nil]
    omega
  exact htwenty ▸ hvalue

/-- Each line that was read as it should be has made its record, and the next one starts behind it. -/
theorem cleans_of_read {metrics : List TaskMetric} {records recs : List (List Str)}
    (h : Reader.read { records } (metrics.flatMap fun m ↦ line (columns L m)) = some (records ++ recs))
    (hm : List.Forall₂ Matches metrics recs) : ∀ m ∈ metrics, Clean L m := by
  induction hm generalizing records with
  | nil => exact fun _ hm ↦ nomatch hm
  | @cons m rec metrics recs hm _ ih =>
    rw [List.flatMap_cons] at h
    have hrec : (records ++ rec :: recs)[records.length]? = some rec := by simp
    have hclean := clean_of_read h hrec hm
    rw [read_line (spells_columns hclean) (List.cons_ne_nil _ _)] at h
    obtain ⟨later, hlater⟩ := (Reader.extends_of_read h).records
    have hsame : records ++ [values L m] ++ later = records ++ rec :: recs := hlater
    rw [List.append_assoc] at hsame
    obtain ⟨hvalues, -⟩ := List.cons.inj (List.append_cancel_left hsame)
    have hnext : records ++ rec :: recs = records ++ [values L m] ++ recs := by rw [hvalues, List.append_assoc]; rfl
    rw [hnext] at h
    exact List.forall_mem_cons.mpr ⟨hclean, ih h⟩

/-- The file reads back exactly if its texts have no line ends that are left unquoted, the columns
without quotes have nothing special, and the locale writes no commas into the numbers. -/
theorem roundTrip_iff (L : Locale) (metrics : List TaskMetric) : RoundTrip L metrics ↔ ∀ m ∈ metrics, Clean L m := by
  unfold RoundTrip parse metricsCsv
  rw [read_header]
  constructor
  · intro h'
    obtain ⟨recs, hread, hm⟩ := h'
    exact cleans_of_read hread hm
  · intro h
    refine ⟨metrics.map (values L), read_lines h [header], ?_⟩
    rw [List.forall₂_map_right_iff]
    exact List.forall₂_same.mpr fun m _ ↦ matches_values L m

/-! Zeros in a locale with a decimal comma -/

def commaLocale : Locale where
  format n _ := '0' :: ',' :: List.replicate n '0'
  oneLine n _ c hc := by
    rcases List.mem_cons.mp hc with rfl | hc
    · exact .inr rfl
    · rcases List.mem_cons.mp hc with rfl | hc
      · exact .inl rfl
      · rw [List.eq_of_mem_replicate hc]
        exact .inr rfl

def idle : TaskMetric where
  taskId := "t1"
  experimentId := "e1"
  taskType := "reply"
  modelTier := "small"
  startTimestampMs := 0
  endTimestampMs := 0
  latencyMs := 0
  tokenCount := 0
  tokensPerSecond := 0
  ramBeforeMb := 0
  ramPeakMb := 0
  ramAfterMb := 0
  batteryPercentBefore := 0
  batteryPercentAfter := 0
  thermalStatus := 0
  confidenceScore := 0
  policyDecision := "allow"
  actionExecuted := true
  outputQualityScore := none
  oomKill := false
  errorCode := none

/-- Four numbers are two fields each. -/
theorem idle_torn : (parse (metricsCsv commaLocale [idle])).map (List.map List.length) = some [21, 25] ∧
    ¬RoundTrip commaLocale [idle] := by
  have hlengths : (parse (metricsCsv commaLocale [idle])).map (List.map List.length) = some [21, 25] := by
    decide +kernel
  refine ⟨hlengths, ?_⟩
  intro h
  obtain ⟨recs, hread, hm⟩ := h
  rw [hread] at hlengths
  cases hm with
  | cons hfirst hrest =>
    cases hrest
    simp [hfirst.length] at hlengths

end Aigentik.MetricsExporter
