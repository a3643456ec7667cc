import Aigentik.Benchmark.BenchmarkRunner
import Aigentik.Effects.KeyedTable
import Aigentik.Effects.Sequential
import Mathlib.Data.List.Sort

namespace Aigentik.MetricRows

open Strings Effects KeyedTable BenchmarkRunner

/-- The table `task_metrics`: no two rows have the same primary key. -/
structure Table where
  rows : List TaskMetric
  nodup : (rows.map TaskMetric.taskId).Nodup

namespace Table

variable (t : Table)

def insert (metric : TaskMetric) : Table := ⟨replace TaskMetric.taskId metric t.rows, nodup_replace t.nodup⟩

def insertAll (metrics : List TaskMetric) : Table := metrics.foldl insert t

def getForExperiment (experimentId : Str) : List TaskMetric :=
  (t.rows.filter fun m ↦ m.experimentId = experimentId).insertionSort fun m m' ↦
    m.startTimestampMs ≤ m'.startTimestampMs

end Table

/-- A configuration, and its corpus: no file, or what reading it gives. -/
structure Experiment where
  config : ExperimentConfig
  corpus : Option (Except Throwable (List Str))

/-- Every call but an insertion leaves the table as it is. -/
def reacts (corpus : Option (Except Throwable (List Str))) : Reacts sig Table
  | .insert metric, t, _, t' => t' = t.insert metric
  | .exists _, t, found, t' => found = corpus.isSome ∧ t' = t
  | .lineSequence _, t, lines, t' => corpus = some lines ∧ t' = t
  | _, t, _, t' => t' = t

variable (P : Platform) (parse : Str → Option JsonObject)

/-- Experiments one after the other, with their outcomes. -/
def step (past : List (Done Experiment Throwable ℕ) × Table) (e : Experiment) (o : Except Throwable ℕ) (t : Table) :
    Prop :=
  (run P parse e.config).Runs (reacts e.corpus) past.2 o t

def processed (e : Experiment) : List CorpusTask :=
  match e.corpus with
  | some (.ok lines) => limited e.config (readCorpus P parse lines)
  | some (.error _) | none => []

def processedIds (e : Experiment) : List Str := (processed P parse e).map CorpusTask.taskId

variable {P parse} {config : ExperimentConfig} {task : CorpusTask} {t t' : Table} {e : Experiment}
  {corpus : Option (Except Throwable (List Str))}

/-! What a run inserts -/

/-- The calls that leave the table as it is, whatever the corpus. -/
def Reading : Op → Prop
  | .insert _ | .exists _ | .lineSequence _ => False
  | _ => True

theorem reading_must {α : Type} {p : Run α} (hp : p.Calls Reading) :
    p.Must (reacts corpus) (fun _ t' ↦ t' = t) t := by
  refine hp.must (fun op s r s' hop hs hr ↦ ?_) rfl
  subst hs
  cases op <;> first | exact hop.elim | exact hr

/-- A row for the task, in the experiment. -/
def RowFor (config : ExperimentConfig) (task : CorpusTask) (metric : TaskMetric) : Prop :=
  metric.taskId = task.taskId ∧ metric.experimentId = config.experimentId

/-- The row of a task that ran to its end. -/
structure Normal (config : ExperimentConfig) (task : CorpusTask) (metric : TaskMetric) : Prop where
  row : RowFor config task metric
  oomKill : metric.oomKill = false
  errorCode : metric.errorCode = if task.adversarial then some "adversarial".toList else none

theorem runTask_must : (runTask P config task).Must (reacts corpus)
    (Prog.exits (fun metric t' ↦ t' = t ∧ Normal config task metric) fun _ t' ↦ t' = t) t := by
  rintro ramBefore _ rfl batteryBefore _ rfl thermalStatus _ rfl routingStart _ rfl
  rintro battery _ rfl charging _ rfl thermal _ rfl ram _ rfl logged _ rfl
  rintro loadStart _ rfl loadEnd _ rfl inferenceStart _ rfl
  change Prog.Must _ _ (generate P _ task >>= _) _
  refine (Prog.must_bind _ _).mpr ((reading_must (generate_calls (fun _ ↦ trivial) ..)).mono fun o t' ht ↦ ?_)
  subst ht
  cases o with
  | error _ => rfl
  | ok output =>
    rintro firstToken _ rfl inferenceEnd _ rfl actionExecuted _ rfl ramAfter _ rfl batteryAfter _ rfl
    change Prog.Must _ _ (timestamp _ _ _ >>= _) _
    refine (Prog.must_bind _ _).mpr ((reading_must (timestamp_calls trivial ..)).mono fun o t' ht ↦ ?_)
    subst ht
    cases o with
    | error _ => rfl
    | ok startTimestampMs =>
      change Prog.Must _ _ (timestamp _ _ _ >>= _) _
      refine (Prog.must_bind _ _).mpr ((reading_must (timestamp_calls trivial ..)).mono fun o t' ht ↦ ?_)
      subst ht
      cases o with
      | error _ => rfl
      | ok endTimestampMs => exact ⟨rfl, ⟨rfl, rfl⟩, rfl, rfl⟩

/-- A round inserts one row for its task, whatever happens to the task. -/
theorem runOne_must (limit completed : ℕ) : (runOne P config limit completed task).Must (reacts corpus)
    (Prog.exits (fun _ t' ↦ ∃ metric, RowFor config task metric ∧ t' = t.insert metric) fun _ _ ↦ False) t := by
  refine (Prog.must_tryCatch _ _).mpr ((Prog.must_bind _ _).mpr (runTask_must.mono fun o t' ho ↦ ?_))
  cases o with
  | error e =>
    obtain rfl : t' = t := ho
    rintro now _ rfl _ _ rfl _ _ rfl
    exact ⟨_, ⟨rfl, rfl⟩, rfl⟩
  | ok metric =>
    obtain ⟨rfl, hnormal⟩ := ho
    rintro _ _ rfl _ _ rfl
    exact ⟨metric, hnormal.row, rfl⟩

/-- One row for each of the tasks, in their order. -/
def RowsFor (config : ExperimentConfig) (tasks : List CorpusTask) (metrics : List TaskMetric) : Prop :=
  metrics.map TaskMetric.taskId = tasks.map CorpusTask.taskId ∧ ∀ m ∈ metrics, m.experimentId = config.experimentId

theorem runTasks_must (limit completed : ℕ) (tasks : List CorpusTask) :
    (runTasks P config limit completed tasks).Must (reacts corpus)
      (Prog.exits (fun n t' ↦ n = completed + tasks.length ∧ ∃ metrics, RowsFor config tasks metrics ∧
        t' = t.insertAll metrics) fun _ _ ↦ False) t := by
  induction tasks generalizing completed t with
  | nil => exact ⟨rfl, [], ⟨rfl, by simp⟩, rfl⟩
  | cons task rest ih =>
    refine (Prog.must_bind _ _).mpr ((runOne_must limit completed).mono fun o t' ho ↦ ?_)
    cases o with
    | error _ => exact ho
    | ok _ =>
      obtain ⟨metric, ⟨hid, hexp⟩, rfl⟩ := ho
      refine (ih (completed + 1)).mono fun o t' ho ↦ ?_
      cases o with
      | error _ => exact ho
      | ok n =>
        obtain ⟨hn, metrics, ⟨hids, hexps⟩, rfl⟩ := ho
        refine ⟨by rw [hn, List.length_cons]; omega, metric :: metrics, ⟨?_, ?_⟩, rfl⟩
        · rw [List.map_cons, List.map_cons, hid, hids]
        · exact List.forall_mem_cons.mpr ⟨hexp, hexps⟩

/-- What a run of an experiment leaves, and what it returns. -/
theorem run_must : (run P parse e.config).Must (reacts e.corpus) (fun o t' ↦ ∃ metrics,
    RowsFor e.config (processed P parse e) metrics ∧ t' = t.insertAll metrics ∧ ∀ n, o = .ok n → n = metrics.length)
    t := by
  intro found _ h
  obtain ⟨hfound, rfl⟩ := h
  cases found with
  | false =>
    have hnone : e.corpus = none := by simpa using hfound.symm
    refine ⟨[], ⟨?_, by simp⟩, rfl, fun n hn ↦ (Except.ok.inj hn).symm⟩
    rw [processed, hnone]
    rfl
  | true =>
    intro lines _ h
    obtain ⟨hcorpus, rfl⟩ := h
    cases lines with
    | error _ =>
      refine ⟨[], ⟨?_, by simp⟩, rfl, fun n hn ↦ by cases hn⟩
      rw [processed, hcorpus]
      rfl
    | ok lines =>
      have hprocessed : processed P parse e = limited e.config (readCorpus P parse lines) := by
        rw [processed, hcorpus]
      rw [hprocessed]
      refine (runTasks_must _ 0 _).mono fun o t' ho ↦ ?_
      cases o with
      | error _ => exact ho.elim
      | ok n =>
        obtain ⟨hn, metrics, hrows, rfl⟩ := ho
        refine ⟨metrics, hrows, rfl, fun m hm ↦ ?_⟩
        have hlength := congrArg List.length hrows.1
        rw [List.length_map, List.length_map] at hlength
        cases hm
        omega

/-! The rows of one experiment -/

def rowsOf (t : Table) (experimentId : Str) : List TaskMetric := t.rows.filter fun m ↦ m.experimentId = experimentId

variable {id : Str} {metric : TaskMetric} {metrics : List TaskMetric}

theorem getForExperiment_perm : (t.getForExperiment id).Perm (rowsOf t id) := List.perm_insertionSort _ _

theorem rowsOf_nodup : ((rowsOf t id).map TaskMetric.taskId).Nodup := t.nodup.sublist (List.filter_sublist.map _)

/-- An insertion takes the row with its key, whichever experiment it belongs to. -/
theorem rowsOf_insert : rowsOf (t.insert metric) id =
    (rowsOf t id).filter (fun m ↦ m.taskId ≠ metric.taskId) ++ if metric.experimentId = id then [metric] else [] := by
  simp only [rowsOf, Table.insert, replace, List.filter_append, List.filter_filter, List.filter_cons, List.filter_nil,
    decide_eq_true_eq, Bool.and_comm]

theorem rowsOf_insertAll_other (h : ∀ m ∈ metrics, m.experimentId ≠ id) : rowsOf (t.insertAll metrics) id =
    (rowsOf t id).filter fun m ↦ m.taskId ∉ metrics.map TaskMetric.taskId := by
  induction metrics generalizing t with
  | nil => simp [Table.insertAll]
  | cons metric metrics ih =>
    obtain ⟨hne, hrest⟩ := List.forall_mem_cons.mp h
    change rowsOf ((t.insert metric).insertAll metrics) id = _
    rw [ih hrest, rowsOf_insert, if_neg hne, List.append_nil, List.filter_filter]
    refine List.filter_congr fun m _ ↦ ?_
    rw [← Bool.decide_and, List.map_cons, decide_eq_decide, List.mem_cons, not_or, and_comm]

/-- Rows of one experiment with new and distinct keys are all there. -/
theorem rowsOf_insertAll_own (h : ∀ m ∈ metrics, m.experimentId = id)
    (hnodup : ((rowsOf t id ++ metrics).map TaskMetric.taskId).Nodup) :
    rowsOf (t.insertAll metrics) id = rowsOf t id ++ metrics := by
  induction metrics generalizing t with
  | nil => simp [Table.insertAll]
  | cons metric metrics ih =>
    obtain ⟨hid, hrest⟩ := List.forall_mem_cons.mp h
    have hinsert : rowsOf (t.insert metric) id = rowsOf t id ++ [metric] := by
      rw [rowsOf_insert, if_pos hid, filter_of_fresh]
      rw [List.map_append, List.map_cons, List.nodup_append] at hnodup
      intro hmem
      exact hnodup.2.2 _ hmem _ List.mem_cons_self rfl
    change rowsOf ((t.insert metric).insertAll metrics) id = _
    have hassoc : rowsOf (t.insert metric) id ++ metrics = rowsOf t id ++ metric :: metrics := by simp [hinsert]
    rw [ih hrest (by rw [hassoc]; exact hnodup), hassoc]

/-! Experiments one after the other -/

variable {past later : List (Done Experiment Throwable ℕ)} {t₀ t₁ t₂ t₃ : Table}

/-- Other experiments take away the rows whose keys they use, and nothing else. -/
theorem rowsOf_serial (h : Serial (step P parse) t past t') (hother : ∀ x ∈ past, x.1.config.experimentId ≠ id) :
    rowsOf t' id = (rowsOf t id).filter fun m ↦ ∀ x ∈ past, m.taskId ∉ processedIds P parse x.1 := by
  induction h with
  | init => simp
  | @next past t₁ t₂ e o _ hrun ih =>
    obtain ⟨metrics, ⟨hids, hexps⟩, rfl, -⟩ := run_must.of_runs hrun
    have hne : e.config.experimentId ≠ id := hother (e, o) (by simp)
    rw [rowsOf_insertAll_other fun m hm ↦ (hexps m hm).symm ▸ hne, ih fun x hx ↦ hother x (List.mem_append_left _ hx),
      List.filter_filter]
    refine List.filter_congr fun m _ ↦ ?_
    rw [← Bool.decide_and, hids, decide_eq_decide]
    simp [processedIds, or_imp, forall_and, and_comm]

/-- One row for each processed task. -/
def Complete (P : Platform) (parse : Str → Option JsonObject) (e : Experiment) (n : ℕ) (t : Table) : Prop :=
  ((t.getForExperiment e.config.experimentId).map TaskMetric.taskId).Perm (processedIds P parse e) ∧
    (t.getForExperiment e.config.experimentId).length = n

/-- After a run that has returned, in a table that had no rows of its experiment: the rows are complete
and later experiments leave them so exactly when the ids of the tasks are distinct, in the run and
from those of the later ones. -/
theorem rows_complete_iff (P : Platform) (parse : Str → Option JsonObject) (e : Experiment) (n : ℕ)
    (hpast : Serial (step P parse) t₀ past t₁) (hrun : (run P parse e.config).Runs (reacts e.corpus) t₁ (.ok n) t₂)
    (hlater : Serial (step P parse) t₂ later t₃) (hfresh : t₀.getForExperiment e.config.experimentId = [])
    (hdistinct : ∀ x ∈ past ++ later, x.1.config.experimentId ≠ e.config.experimentId) :
    (Complete P parse e n t₂ ∧ t₃.getForExperiment e.config.experimentId = t₂.getForExperiment e.config.experimentId) ↔
      (processedIds P parse e).Nodup ∧
        ∀ x ∈ later, ∀ taskId ∈ processedIds P parse e, taskId ∉ processedIds P parse x.1 := by
  obtain ⟨metrics, ⟨hids, hexps⟩, rfl, hn⟩ := run_must.of_runs hrun
  have hempty : rowsOf t₁ e.config.experimentId = [] := by
    have hnone : rowsOf t₀ e.config.experimentId = [] := List.Perm.nil_eq (hfresh ▸ getForExperiment_perm) |>.symm
    rw [rowsOf_serial hpast fun x hx ↦ hdistinct x (List.mem_append_left _ hx), hnone, List.filter_nil]
  have hrows : (processedIds P parse e).Nodup →
      rowsOf (t₁.insertAll metrics) e.config.experimentId = metrics := fun hnodup ↦ by
    rw [rowsOf_insertAll_own hexps (by rw [hempty, List.nil_append, hids]; exact hnodup), hempty, List.nil_append]
  have hkept := rowsOf_serial hlater fun x hx ↦ hdistinct x (List.mem_append_right _ hx)
  constructor
  · intro h
    obtain ⟨⟨hperm, -⟩, hsame⟩ := h
    have hnodup : (processedIds P parse e).Nodup :=
      hperm.nodup_iff.mp ((getForExperiment_perm.map _).nodup_iff.mpr rowsOf_nodup)
    have hlength : (rowsOf t₃ e.config.experimentId).length = metrics.length := by
      rw [← getForExperiment_perm.length_eq, hsame, getForExperiment_perm.length_eq, hrows hnodup]
    rw [hkept, hrows hnodup, List.length_filter_eq_length_iff] at hlength
    refine ⟨hnodup, fun x hx taskId hmem ↦ ?_⟩
    rw [processedIds, ← hids] at hmem
    obtain ⟨m, hm, rfl⟩ := List.mem_map.mp hmem
    exact of_decide_eq_true (hlength m hm) x hx
  · intro h
    obtain ⟨hnodup, hother⟩ := h
    have hsame : rowsOf t₃ e.config.experimentId = rowsOf (t₁.insertAll metrics) e.config.experimentId := by
      rw [hkept, hrows hnodup, List.filter_eq_self]
      intro m hm
      refine decide_eq_true fun x hx ↦ hother x hx m.taskId ?_
      rw [processedIds, ← hids]
      exact List.mem_map_of_mem hm
    refine ⟨⟨?_, ?_⟩, ?_⟩
    · refine (getForExperiment_perm.map _).trans ?_
      rw [hrows hnodup, hids]
      rfl
    · rw [getForExperiment_perm.length_eq, hrows hnodup]
      exact (hn n rfl).symm
    · exact congrArg (List.insertionSort _) hsame

/-! Two experiments with one task each -/

def taskLine (taskId : Str) : Str :=
  "\x7b\"task_id\":\"" ++ taskId ++ "\",\"type\":\"parse\",\"input\":\"status\"\x7d"

def fields (taskId : Str) : JsonObject := fun name ↦
  if name = "task_id".toList then some (.string taskId)
  else if name = "type".toList then some (.string "parse")
  else if name = "input".toList then some (.string "status")
  else none

/-- `JSONObject` on the lines of two tasks. -/
def parseLine (line : Str) : Option JsonObject :=
  (["t1".toList, "t2".toList].find? fun taskId ↦ line = taskLine taskId).map fields

def experiment (experimentId : String) (taskId : String) : Experiment :=
  ⟨⟨experimentId, "small", "corpus.jsonl", 0, false⟩, some (.ok [taskLine taskId])⟩

def answer (corpus : Except Throwable (List Str)) : (op : Op) → Table → sig.Resp op × Table
  | .insert metric, t => ((), t.insert metric)
  | .exists _, t => (true, t)
  | .lineSequence _, t => (corpus, t)
  | .currentTimeMillis, t | .readRssKb, t => ((0 : ℤ), t)
  | .routing .getBatteryPercent, t => ((80 : ℚ), t)
  | .routing .isCharging, t => (false, t)
  | .routing .getThermalStatus, t => ((0 : ℤ), t)
  | .routing .readAvailableRamMb, t => ((2000 : ℤ), t)
  | .routing (.log ..), t | .onProgress .., t => ((), t)
  | .model (.interpretCommand _), t =>
    ((.ok ⟨"unknown", none, none, false, none⟩ : Except Throwable AgentLLMFacade.CommandResult), t)
  | .model (.generateSmsReply ..), t | .model (.generateChatReply _), t => ((.ok "Sure." : Except Throwable Str), t)

theorem reacts_answer (corpus : Except Throwable (List Str)) (op : Op) (t : Table) :
    reacts (some corpus) op t (answer corpus op t).1 (answer corpus op t).2 := by
  cases op with
  | routing op => cases op <;> rfl
  | model c => cases c <;> rfl
  | «exists» _ | lineSequence _ => exact ⟨rfl, rfl⟩
  | _ => rfl

def ran (experimentId taskId : String) (t : Table) : Except Throwable ℕ × Table :=
  (run asciiPlatform parseLine (experiment experimentId taskId).config).exec (answer (.ok [taskLine taskId])) t

theorem runs_ran (experimentId taskId : String) (t : Table) :
    (run asciiPlatform parseLine (experiment experimentId taskId).config).Runs
      (reacts (experiment experimentId taskId).corpus) t (ran experimentId taskId t).1 (ran experimentId taskId t).2 :=
  Prog.runs_exec (C := fun _ ↦ True) (fun op s _ ↦ reacts_answer _ op s) _ t fun _ _ ↦ trivial

def empty : Table := ⟨[], List.nodup_nil⟩

def first : Table := (ran "exp1" "t1" empty).2

theorem runs_first : (run asciiPlatform parseLine (experiment "exp1" "t1").config).Runs
    (reacts (experiment "exp1" "t1").corpus) empty (.ok 1) first := by
  have hreturned : (ran "exp1" "t1" empty).1 = .ok 1 := by decide +kernel
  have hruns := runs_ran "exp1" "t1" empty
  rw [hreturned] at hruns
  exact hruns

theorem serial_second (taskId : String) : Serial (step asciiPlatform parseLine) first
    [(experiment "exp2" taskId, (ran "exp2" taskId first).1)] (ran "exp2" taskId first).2 :=
  .next .init (runs_ran "exp2" taskId first)

theorem distinct_tasks_complete : Complete asciiPlatform parseLine (experiment "exp1" "t1") 1 first ∧
    (ran "exp2" "t2" first).2.getForExperiment "exp1" = first.getForExperiment "exp1" := by
  refine (rows_complete_iff asciiPlatform parseLine (experiment "exp1" "t1") 1 .init runs_first (serial_second "t2")
    rfl ?_).mpr ⟨by decide +kernel, ?_⟩
  · intro x hx
    obtain rfl := List.mem_singleton.mp hx
    decide
  · intro x hx
    obtain rfl := List.mem_singleton.mp hx
    decide +kernel

/-- The second experiment runs the corpus of the first one, whose rows it takes. -/
theorem second_takes_rows : (ran "exp1" "t1" empty).1 = .ok 1 ∧
    (first.getForExperiment "exp1").length = 1 ∧ (ran "exp2" "t1" first).2.getForExperiment "exp1" = [] := by
  decide +kernel

end Aigentik.MetricRows
