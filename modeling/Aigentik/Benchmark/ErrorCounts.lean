import Aigentik.Benchmark.MetricRows
import Aigentik.Benchmark.MetricsSummary

namespace Aigentik.ErrorCounts

open Strings Effects BenchmarkRunner MetricRows MetricsExporter

/-- What the handler of a round catches, and running out of memory, which is an `Error`. -/
structure ThrowableClasses where
  isException : Throwable → Bool
  isOutOfMemory : Throwable → Bool
  not_exception : ∀ e, isOutOfMemory e = true → isException e = false

variable (C : ThrowableClasses) (P : Platform) (parse : Str → Option JsonObject) (config : ExperimentConfig)

/-! The run, with the throwables that its handler lets through -/

def runOne (limit completed : ℕ) (task : CorpusTask) : Run Unit :=
  Prog.tryCatch (do
    let metric ← runTask P config task
    call (.insert metric)
    call (.onProgress (completed + 1) limit)) fun e ↦
    if C.isException e then do
      call (.insert (errorMetric P config task e.simpleName (← call .currentTimeMillis)))
      call (.onProgress (completed + 1) limit)
    else .throw e

def runTasks (limit : ℕ) : ℕ → List CorpusTask → Run ℕ
  | completed, [] => return completed
  | completed, task :: rest => do
    runOne C P config limit completed task
    runTasks limit (completed + 1) rest

def run : Run ℕ := do
  if ← call (.exists config.corpusPath) then
    let lines ← attempt (call (.lineSequence config.corpusPath))
    let tasks := limited config (readCorpus P parse lines)
    runTasks C P config tasks.length 0 tasks
  else return 0

/-- Where nothing but exceptions is thrown, this is the run that records whatever a task throws. -/
theorem run_eq (h : ∀ e, C.isException e = true) : run C P parse config = BenchmarkRunner.run P parse config := by
  have hone (limit completed : ℕ) (task : CorpusTask) :
      runOne C P config limit completed task = BenchmarkRunner.runOne P config limit completed task := by
    simp only [runOne, BenchmarkRunner.runOne, h, if_true]
  have htasks (limit completed : ℕ) (tasks : List CorpusTask) :
      runTasks C P config limit completed tasks = BenchmarkRunner.runTasks P config limit completed tasks := by
    induction tasks generalizing completed with
    | nil => rfl
    | cons task rest ih => simp only [runTasks, BenchmarkRunner.runTasks, hone, ih]
  simp only [run, BenchmarkRunner.run, htasks]

/-! The rounds of a run -/

/-- A task that was run, with its outcome and the time of it. -/
structure Attempt where
  task : CorpusTask
  outcome : Except Throwable TaskMetric
  now : ℤ

def Attempt.failed (a : Attempt) : Bool :=
  match a.outcome with
  | .ok _ => false
  | .error _ => true

def Attempt.outOfMemory (a : Attempt) : Bool :=
  match a.outcome with
  | .ok _ => false
  | .error e => C.isOutOfMemory e

/-- The row that is inserted. -/
def Attempt.row (a : Attempt) : TaskMetric :=
  match a.outcome with
  | .ok metric => metric
  | .error e => errorMetric P config a.task e.simpleName a.now

def Attempt.Caught (a : Attempt) : Prop := ∀ e, a.outcome = .error e → C.isException e = true

/-- The rounds from a table on, in a run with this corpus. -/
inductive Rounds (corpus : Option (Except Throwable (List Str))) :
    ℕ → List CorpusTask → Table → List Attempt → Except Throwable ℕ → Table → Prop
  | done (completed : ℕ) (t : Table) : Rounds corpus completed [] t [] (.ok completed) t
  | recorded {completed : ℕ} {a : Attempt} {rest : List CorpusTask} {attempts : List Attempt} {t t' : Table}
      {o : Except Throwable ℕ} : (runTask P config a.task).Runs (reacts corpus) t a.outcome t → a.Caught C →
      Rounds corpus (completed + 1) rest (t.insert (a.row P config)) attempts o t' →
      Rounds corpus completed (a.task :: rest) t (a :: attempts) o t'
  | aborted {a : Attempt} {e : Throwable} (completed : ℕ) (rest : List CorpusTask) {t : Table} :
      (runTask P config a.task).Runs (reacts corpus) t a.outcome t → a.outcome = .error e → C.isException e = false →
      Rounds corpus completed (a.task :: rest) t [a] (.error e) t

variable {C P parse config} {corpus : Option (Except Throwable (List Str))} {t t' : Table} {a : Attempt}
  {attempts : List Attempt} {tasks : List CorpusTask} {o : Except Throwable ℕ} {limit completed : ℕ}

theorem runOne_must (task : CorpusTask) : (runOne C P config limit completed task).Must (reacts corpus)
    (Prog.exits
      (fun _ t' ↦ ∃ a : Attempt, a.task = task ∧ (runTask P config task).Runs (reacts corpus) t a.outcome t ∧
        a.Caught C ∧ t' = t.insert (a.row P config))
      fun e t' ↦ t' = t ∧ (runTask P config task).Runs (reacts corpus) t (.error e) t ∧ C.isException e = false) t := by
  refine (Prog.must_tryCatch _ _).mpr ((Prog.must_bind _ _).mpr (Prog.must_iff.mpr fun o t' hruns ↦ ?_))
  have hsame := runTask_must.of_runs hruns
  cases o with
  | ok metric =>
    obtain ⟨rfl, -⟩ := hsame
    rintro _ _ rfl _ _ rfl
    exact ⟨⟨task, .ok metric, 0⟩, rfl, hruns, (fun e he ↦ by cases he), rfl⟩
  | error e =>
    obtain rfl : t' = t := hsame
    simp only [Prog.exits]
    by_cases hcaught : C.isException e = true
    · rw [if_pos hcaught]
      rintro now _ rfl _ _ rfl _ _ rfl
      refine ⟨⟨task, .error e, now⟩, rfl, hruns, fun e' he ↦ ?_, rfl⟩
      cases he
      exact hcaught
    · rw [if_neg hcaught]
      exact ⟨rfl, hruns, by simpa using hcaught⟩

theorem runOne_runs_recorded (hruns : (runTask P config a.task).Runs (reacts corpus) t a.outcome t) (h : a.Caught C) :
    (runOne C P config limit completed a.task).Runs (reacts corpus) t (.ok ()) (t.insert (a.row P config)) := by
  unfold Attempt.row
  cases houtcome : a.outcome with
  | ok metric =>
    rw [houtcome] at hruns
    exact (hruns.bind (.call (r := ()) rfl (.call (r := ()) rfl (.ret () _)))).tryCatch_ok
  | error e =>
    rw [houtcome] at hruns
    refine hruns.bind_error.tryCatch_error ?_
    rw [if_pos (h e houtcome)]
    exact .call (r := a.now) rfl (.call (r := ()) rfl (.call (r := ()) rfl (.ret () _)))

theorem runOne_runs_aborted {task : CorpusTask} {e : Throwable}
    (hruns : (runTask P config task).Runs (reacts corpus) t (.error e) t) (h : C.isException e = false) :
    (runOne C P config limit completed task).Runs (reacts corpus) t (.error e) t := by
  refine hruns.bind_error.tryCatch_error ?_
  rw [if_neg (by rw [h]; exact Bool.false_ne_true)]
  exact .throw e t

/-- The runs of the loop are its rounds. -/
theorem runTasks_runs_iff : (runTasks C P config limit completed tasks).Runs (reacts corpus) t o t' ↔
    ∃ attempts, Rounds C P config corpus completed tasks t attempts o t' := by
  constructor
  · intro h
    induction tasks generalizing completed t o t' with
    | nil =>
      cases h
      exact ⟨[], .done _ _⟩
    | cons task rest ih =>
      have hmust : (runTasks C P config limit completed (task :: rest)).Must (reacts corpus)
          (fun o t' ↦ ∃ attempts, Rounds C P config corpus completed (task :: rest) t attempts o t') t := by
        refine (Prog.must_bind _ _).mpr ((runOne_must task).mono fun o t' ho ↦ ?_)
        cases o with
        | ok _ =>
          obtain ⟨a, rfl, hruns, hcaught, rfl⟩ := ho
          refine Prog.must_iff.mpr fun o t' hrest ↦ ?_
          obtain ⟨attempts, hrounds⟩ := ih hrest
          exact ⟨a :: attempts, .recorded hruns hcaught hrounds⟩
        | error e =>
          obtain ⟨rfl, hruns, huncaught⟩ := ho
          exact ⟨[⟨task, .error e, 0⟩], .aborted (a := ⟨task, .error e, 0⟩) completed rest hruns rfl huncaught⟩
      exact hmust.of_runs h
  · intro h
    obtain ⟨attempts, hrounds⟩ := h
    induction hrounds with
    | done completed t => exact .ret completed t
    | recorded hruns hcaught _ ih => exact (runOne_runs_recorded hruns hcaught).bind ih
    | aborted completed rest hruns houtcome huncaught =>
      exact (runOne_runs_aborted (houtcome ▸ hruns) huncaught).bind_error

variable (C P parse config) in
/-- The rounds of a run over a corpus with these lines. -/
def RunRounds (lines : List Str) (t : Table) (attempts : List Attempt) (o : Except Throwable ℕ) (t' : Table) : Prop :=
  Rounds C P config (some (.ok lines)) 0 (limited config (readCorpus P parse lines)) t attempts o t'

theorem run_runs_iff {lines : List Str} : (run C P parse config).Runs (reacts (some (.ok lines))) t o t' ↔
    ∃ attempts, RunRounds C P parse config lines t attempts o t' := by
  constructor
  · intro h
    refine Prog.Must.of_runs (Q := fun o t' ↦ ∃ attempts, RunRounds C P parse config lines t attempts o t') ?_ h
    intro found _ hfound
    obtain ⟨rfl, rfl⟩ := hfound
    intro read _ hread
    obtain ⟨hread, rfl⟩ := hread
    cases hread
    exact Prog.must_iff.mpr fun o t' hruns ↦ runTasks_runs_iff.mp hruns
  · intro h
    exact .call (r := true) ⟨rfl, rfl⟩
      (.call (r := (Except.ok lines : Except Throwable _)) ⟨rfl, rfl⟩ (runTasks_runs_iff.mpr h))

/-- Either every task was run and recorded, or an error has ended the run. -/
theorem Rounds.recorded_or_aborted (h : Rounds C P config corpus completed tasks t attempts o t') :
    (attempts.map Attempt.task = tasks ∧ (∀ a ∈ attempts, a.Caught C) ∧ o = .ok (completed + tasks.length) ∧
      t' = t.insertAll (attempts.map (Attempt.row P config))) ∨
    (∃ e, o = .error e) ∧ ∃ a ∈ attempts, ¬a.Caught C := by
  induction h with
  | done completed t => exact .inl ⟨rfl, by simp, rfl, rfl⟩
  | recorded hruns hcaught _ ih =>
    rcases ih with hall | haborted
    · obtain ⟨htasks, hcaughts, ho, rfl⟩ := hall
      refine .inl ⟨congrArg _ htasks, List.forall_mem_cons.mpr ⟨hcaught, hcaughts⟩, ?_, rfl⟩
      rw [ho, List.length_cons, Nat.add_right_comm, Nat.add_assoc]
    · obtain ⟨herror, a, ha, huncaught⟩ := haborted
      exact .inr ⟨herror, a, List.mem_cons_of_mem _ ha, huncaught⟩
  | @aborted a e completed rest _ hruns houtcome huncaught =>
    refine .inr ⟨⟨e, rfl⟩, a, List.mem_singleton_self a, fun hcaught ↦ ?_⟩
    rw [hcaught e houtcome] at huncaught
    cases huncaught

theorem Rounds.normal (h : Rounds C P config corpus completed tasks t attempts o t') :
    ∀ a ∈ attempts, ∀ metric, a.outcome = .ok metric → Normal config a.task metric := by
  have hone {a : Attempt} {t : Table} (hruns : (runTask P config a.task).Runs (reacts corpus) t a.outcome t) :
      ∀ metric, a.outcome = .ok metric → Normal config a.task metric := by
    intro metric hok
    have hmust := runTask_must.of_runs hruns
    rw [hok] at hmust
    exact hmust.2
  induction h with
  | done completed t => simp
  | recorded hruns _ _ ih => exact List.forall_mem_cons.mpr ⟨hone hruns, ih⟩
  | aborted completed rest hruns _ _ => exact List.forall_mem_singleton.mpr (hone hruns)

/-! The rows after a run -/

def unreplaced : List Attempt → List Attempt
  | [] => []
  | a :: rest => if a.task.taskId ∈ rest.map fun b ↦ b.task.taskId then unreplaced rest else a :: unreplaced rest

variable (config) in
/-- The rows of the experiment for other tasks than those of the run. -/
def stale (t : Table) (attempts : List Attempt) : List TaskMetric :=
  (rowsOf t config.experimentId).filter fun m ↦ m.taskId ∉ attempts.map fun a ↦ a.task.taskId

theorem rowFor_row (h : ∀ metric, a.outcome = .ok metric → Normal config a.task metric) :
    RowFor config a.task (a.row P config) := by
  unfold Attempt.row
  cases houtcome : a.outcome with
  | ok metric => exact (h metric houtcome).row
  | error e => exact ⟨rfl, rfl⟩

theorem rowsOf_attempts (h : ∀ a ∈ attempts, RowFor config a.task (a.row P config)) :
    rowsOf (t.insertAll (attempts.map (Attempt.row P config))) config.experimentId =
      stale config t attempts ++ (unreplaced attempts).map (Attempt.row P config) := by
  induction attempts generalizing t with
  | nil => simp [stale, unreplaced, Table.insertAll]
  | cons a rest ih =>
    obtain ⟨⟨hid, hexp⟩, hrest⟩ := List.forall_mem_cons.mp h
    have hold : ((rowsOf t config.experimentId).filter fun m ↦ m.taskId ≠ a.task.taskId).filter
        (fun m ↦ m.taskId ∉ rest.map fun a ↦ a.task.taskId) = stale config t (a :: rest) := by
      rw [stale, List.filter_filter]
      refine List.filter_congr fun m _ ↦ ?_
      rw [← Bool.decide_and, List.map_cons, decide_eq_decide, List.mem_cons, not_or, and_comm]
    rw [List.map_cons]
    change rowsOf ((t.insert _).insertAll _) _ = _
    rw [ih hrest, stale, rowsOf_insert, if_pos hexp, List.filter_append, hid, hold, List.append_assoc, unreplaced]
    congr 1
    by_cases hlater : a.task.taskId ∈ rest.map fun b ↦ b.task.taskId
    · rw [if_pos hlater, List.filter_singleton]
      simp [hid, hlater]
    · rw [if_neg hlater, List.filter_singleton, List.map_cons]
      simp [hid, hlater]

/-! What the summary counts -/

variable (config) in
/-- The summary that is exported from the table after a run. -/
def exported (description exportedAt : Str) (t : Table) : Summary :=
  summary config.experimentId description exportedAt (t.getForExperiment config.experimentId)

variable (C P parse config) in
/-- The accounting of a run that ended with `o` in the table `t'`. -/
structure Accounted (description exportedAt : Str) (lines : List Str) (attempts : List Attempt)
    (o : Except Throwable ℕ) (t' : Table) : Prop where
  processed : o = .ok (limited config (readCorpus P parse lines)).length
  errors : (exported config description exportedAt t').taskCountErrors = attempts.countP Attempt.failed
  oom : (exported config description exportedAt t').taskCountOom = attempts.countP (Attempt.outOfMemory C)
  total : (exported config description exportedAt t').taskCountSuccessful +
    (exported config description exportedAt t').taskCountErrors =
      (exported config description exportedAt t').taskCountTotal
  adversarial : ∀ a ∈ attempts, a.task.adversarial = true → ∀ metric, a.outcome = .ok metric →
    metric ∈ successful (t'.getForExperiment config.experimentId)

variable (P) in
/-- The row says that the task ran out of memory. -/
def Attempt.namesOom (a : Attempt) : Bool :=
  match a.outcome with
  | .ok _ => false
  | .error e => P.containsIgnoreCase e.simpleName "OOM"

variable (C P config) in
structure AccountedWhen (t : Table) (attempts : List Attempt) : Prop where
  exceptions : ∀ a ∈ attempts, a.Caught C
  adversarial : ∀ a ∈ attempts, a.task.adversarial = true → a.failed = true
  errors : (stale config t attempts).countP (fun m ↦ m.errorCode.isSome) + (unreplaced attempts).countP Attempt.failed =
    attempts.countP Attempt.failed
  staleOom : ∀ m ∈ stale config t attempts, m.oomKill = false
  oom : ∀ a ∈ unreplaced attempts, a.namesOom P = false

theorem mem_of_mem_unreplaced (h : a ∈ unreplaced attempts) : a ∈ attempts := by
  induction attempts with
  | nil => exact h
  | cons b rest ih =>
    rw [unreplaced] at h
    split at h
    · exact List.mem_cons_of_mem _ (ih h)
    · rcases List.mem_cons.mp h with rfl | h
      · exact List.mem_cons_self
      · exact List.mem_cons_of_mem _ (ih h)

/-- An error row is that of a task that failed or is adversarial. -/
theorem errorCode_row (h : ∀ metric, a.outcome = .ok metric → Normal config a.task metric) :
    (a.row P config).errorCode.isSome = (a.failed || a.task.adversarial) := by
  unfold Attempt.row Attempt.failed
  cases houtcome : a.outcome with
  | ok metric =>
    rw [(h metric houtcome).errorCode]
    cases a.task.adversarial <;> rfl
  | error e => rfl

theorem oomKill_row (h : ∀ metric, a.outcome = .ok metric → Normal config a.task metric) :
    (a.row P config).oomKill = a.namesOom P := by
  unfold Attempt.row Attempt.namesOom
  cases houtcome : a.outcome with
  | ok metric => exact (h metric houtcome).oomKill
  | error e => rfl

/-- Nothing that is caught ran out of memory. -/
theorem countP_outOfMemory (h : ∀ a ∈ attempts, a.Caught C) : attempts.countP (Attempt.outOfMemory C) = 0 := by
  refine List.countP_eq_zero.mpr fun a ha hmemory ↦ ?_
  unfold Attempt.outOfMemory at hmemory
  cases houtcome : a.outcome with
  | ok metric => simp [houtcome] at hmemory
  | error e =>
    rw [houtcome] at hmemory
    have hexception := h a ha e houtcome
    rw [C.not_exception e hmemory] at hexception
    cases hexception

section Rows

variable {rows : List TaskMetric}
  (hrows : rows.Perm (stale config t attempts ++ (unreplaced attempts).map (Attempt.row P config)))
  (hnormal : ∀ a ∈ attempts, ∀ metric, a.outcome = .ok metric → Normal config a.task metric)

include hrows hnormal

theorem oomKills_eq_zero_iff : rows.countP (fun m ↦ m.oomKill) = 0 ↔
    (∀ m ∈ stale config t attempts, m.oomKill = false) ∧ ∀ a ∈ unreplaced attempts, a.namesOom P = false := by
  rw [hrows.countP_eq, List.countP_append, Nat.add_eq_zero_iff, List.countP_map, List.countP_eq_zero,
    List.countP_eq_zero]
  refine and_congr (by simp) (forall₂_congr fun a ha ↦ ?_)
  rw [Function.comp_apply, oomKill_row (hnormal a (mem_of_mem_unreplaced ha)), Bool.not_eq_true]

theorem errorCodes_eq (hadversarial : ∀ a ∈ attempts, a.task.adversarial = true → a.failed = true) :
    rows.countP (fun m ↦ m.errorCode.isSome) =
      (stale config t attempts).countP (fun m ↦ m.errorCode.isSome) + (unreplaced attempts).countP Attempt.failed := by
  rw [hrows.countP_eq, List.countP_append, List.countP_map]
  congr 1
  refine List.countP_congr fun a ha ↦ ?_
  have hmem := mem_of_mem_unreplaced ha
  rw [Function.comp_apply, errorCode_row (hnormal a hmem)]
  cases hcase : a.task.adversarial with
  | false => simp
  | true => simp [hadversarial a hmem hcase]

end Rows

/-- The row of an adversarial task is never among the successful ones. -/
theorem failed_of_successful {rows : List TaskMetric} (hcase : a.task.adversarial = true)
    (hnormal : ∀ metric, a.outcome = .ok metric → Normal config a.task metric)
    (hcounted : ∀ metric, a.outcome = .ok metric → metric ∈ successful rows) : a.failed = true := by
  unfold Attempt.failed
  cases houtcome : a.outcome with
  | error e => rfl
  | ok metric =>
    have hcode := (List.mem_filter.mp (hcounted metric houtcome)).2
    rw [(hnormal metric houtcome).errorCode, if_pos hcase] at hcode
    cases hcode

/-- The counts are right exactly if nothing but exceptions was thrown, no adversarial task ran normally,
the error rows left from before make up for the failures whose rows were replaced, and no row that is
left names an OOM. -/
theorem error_accounting_iff (description exportedAt : Str) {lines : List Str}
    (h : RunRounds C P parse config lines t attempts o t') :
    Accounted C P parse config description exportedAt lines attempts o t' ↔ AccountedWhen C P config t attempts := by
  have hnormal := h.normal
  rcases h.recorded_or_aborted with hall | haborted
  · obtain ⟨-, hcaughts, ho, rfl⟩ := hall
    have hrows : ((t.insertAll (attempts.map (Attempt.row P config))).getForExperiment config.experimentId).Perm
        (stale config t attempts ++ (unreplaced attempts).map (Attempt.row P config)) := by
      rw [← rowsOf_attempts fun a ha ↦ rowFor_row (hnormal a ha)]
      exact getForExperiment_perm
    have hmemory := countP_outOfMemory hcaughts
    constructor
    · intro hacc
      have hadversarial : ∀ a ∈ attempts, a.task.adversarial = true → a.failed = true := fun a ha hcase ↦
        failed_of_successful hcase (hnormal a ha) (hacc.adversarial a ha hcase)
      obtain ⟨hstale, hnames⟩ := (oomKills_eq_zero_iff hrows hnormal).mp (hacc.oom.trans hmemory)
      exact ⟨hcaughts, hadversarial, (errorCodes_eq hrows hnormal hadversarial).symm.trans hacc.errors, hstale, hnames⟩
    · intro hwhen
      have hkills := (oomKills_eq_zero_iff hrows hnormal).mpr ⟨hwhen.staleOom, hwhen.oom⟩
      refine ⟨?_, (errorCodes_eq hrows hnormal hwhen.adversarial).trans hwhen.errors, hkills.trans hmemory.symm, ?_, ?_⟩
      · rw [ho, Nat.zero_add]
      · exact successful_add_errors hkills
      · intro a ha hcase metric houtcome
        have hfailed := hwhen.adversarial a ha hcase
        rw [Attempt.failed, houtcome] at hfailed
        cases hfailed
  · obtain ⟨⟨e, rfl⟩, a, ha, huncaught⟩ := haborted
    exact iff_of_false (fun hacc ↦ by cases hacc.processed) fun hwhen ↦ huncaught (hwhen.exceptions a ha)

/-! A run with one task, adversarial or not -/

def classes : ThrowableClasses where
  isException e := e.simpleName ≠ "OutOfMemoryError".toList
  isOutOfMemory e := e.simpleName = "OutOfMemoryError".toList
  not_exception _ h := decide_eq_false (not_not.mpr (of_decide_eq_true h))

def corpusLine (adversarial : Bool) : Str :=
  "\x7b\"task_id\":\"t1\",\"type\":\"parse\",\"input\":\"status\",\"adversarial\":".toList ++
    (if adversarial then "true".toList else "false".toList) ++ ['\x7d']

/-- `JSONObject` on the two lines. -/
def parseCorpusLine (line : Str) : Option JsonObject :=
  ([false, true].find? fun adversarial ↦ line = corpusLine adversarial).map fun adversarial name ↦
    if name = "adversarial".toList then some (.boolean adversarial) else MetricRows.fields "t1" name

def corpusConfig : ExperimentConfig := (experiment "exp1" "t1").config

def corpusTask (adversarial : Bool) : CorpusTask :=
  ⟨"t1", ExperimentConfig.TYPE_PARSE, "status", [], adversarial, [], true⟩

def taskRun (adversarial : Bool) : Except Throwable TaskMetric × Table :=
  (runTask asciiPlatform corpusConfig (corpusTask adversarial)).exec (answer (.ok [corpusLine adversarial])) empty

def ranNormally (adversarial : Bool) : Attempt := ⟨corpusTask adversarial, (taskRun adversarial).1, 0⟩

def rowAfter (adversarial : Bool) : Table := empty.insert ((ranNormally adversarial).row asciiPlatform corpusConfig)

theorem rounds_ranNormally (adversarial : Bool) : RunRounds classes asciiPlatform parseCorpusLine corpusConfig
    [corpusLine adversarial] empty [ranNormally adversarial] (.ok 1) (rowAfter adversarial) := by
  have hruns : (runTask asciiPlatform corpusConfig (corpusTask adversarial)).Runs
      (reacts (some (.ok [corpusLine adversarial]))) empty (taskRun adversarial).1 (taskRun adversarial).2 :=
    Prog.runs_exec (C := fun _ ↦ True) (fun op s _ ↦ reacts_answer _ op s) _ _ fun _ _ ↦ trivial
  have htable : (taskRun adversarial).2 = empty := by cases adversarial <;> rfl
  have htasks : limited corpusConfig (readCorpus asciiPlatform parseCorpusLine [corpusLine adversarial]) =
      [corpusTask adversarial] := by
    cases adversarial <;> decide +kernel
  have hok : (ranNormally adversarial).failed = false := by cases adversarial <;> rfl
  rw [htable] at hruns
  rw [RunRounds, htasks]
  refine .recorded (a := ranNormally adversarial) hruns (fun e he ↦ ?_) (.done 1 _)
  rw [Attempt.failed, he] at hok
  cases hok

theorem normal_task_accounted : Accounted classes asciiPlatform parseCorpusLine corpusConfig [] []
    [corpusLine false] [ranNormally false] (.ok 1) (rowAfter false) := by
  refine (error_accounting_iff [] [] (rounds_ranNormally false)).mpr ⟨?_, ?_, rfl, ?_, ?_⟩
  · exact List.forall_mem_singleton.mpr fun e he ↦ by cases he
  · decide
  · decide
  · decide

/-- An adversarial task that ran normally is counted as an error. -/
theorem adversarial_counted_as_error : RunRounds classes asciiPlatform parseCorpusLine corpusConfig
      [corpusLine true] empty [ranNormally true] (.ok 1) (rowAfter true) ∧
    (ranNormally true).failed = false ∧ (exported corpusConfig [] [] (rowAfter true)).taskCountErrors = 1 ∧
    ¬Accounted classes asciiPlatform parseCorpusLine corpusConfig [] [] [corpusLine true] [ranNormally true] (.ok 1)
      (rowAfter true) := by
  have hone : (exported corpusConfig [] [] (rowAfter true)).taskCountErrors = 1 := by decide +kernel
  have hran : (ranNormally true).failed = false := rfl
  refine ⟨rounds_ranNormally true, hran, hone, fun hacc ↦ ?_⟩
  have herrors := hacc.errors
  rw [hone, List.countP_singleton, hran] at herrors
  cases herrors

end Aigentik.ErrorCounts
