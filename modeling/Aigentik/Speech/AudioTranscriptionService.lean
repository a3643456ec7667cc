import Aigentik.Platform
import Mathlib.Data.List.Infix

namespace Aigentik.AudioTranscriptionService

open Strings

inductive ASRModelArch
  | tiny
  | base
  deriving DecidableEq

structure ASRModel where
  name : Str
  arch : ASRModelArch
  deriving DecidableEq

inductive Error
  | audioRecordingPermissionNotGranted (message : Str)
  deriving DecidableEq

inductive TranscriptEvent
  | lineCompleted (text : Str)
  | other
  deriving DecidableEq

/-- A call of `loadFromFiles`, and whether it returned normally. -/
structure Load where
  modelDir : Str
  arch : ASRModelArch
  returned : Bool
  deriving DecidableEq

/-- The transcriber that lives as long as the app: what is registered at it and loaded into it, the latest
load first, and its two signals. -/
structure MyTranscriber (γ : Type) where
  listeners : List γ
  loads : List Load
  isLoaded : Bool
  hasMicPermission : Bool
  isRunning : Bool

structure State (γ : Type) where
  model : Option ASRModel
  micTranscriber : MyTranscriber γ

inductive Event (γ : Type)
  | startTranscription (asrModel : ASRModel) (onLineComplete : γ) (loads : Except Throwable Unit) (granted : Bool)
  | stopTranscription (linked : Bool)
  | transcript (event : TranscriptEvent)

variable {γ : Type}

namespace MyTranscriber

variable (t : MyTranscriber γ)

def addListener (listener : γ) : MyTranscriber γ := { t with listeners := t.listeners ++ [listener] }

def loadFromFiles (modelDir : Str) (arch : ASRModelArch) (loads : Except Throwable Unit) : MyTranscriber γ :=
  match loads with
  | .ok () => { t with loads := ⟨modelDir, arch, true⟩ :: t.loads, isLoaded := true }
  | .error _ => { t with loads := ⟨modelDir, arch, false⟩ :: t.loads }

def onMicPermissionGranted : MyTranscriber γ := { t with hasMicPermission := true }

def start : MyTranscriber γ := { t with isRunning := true }

def stop : MyTranscriber γ := { t with isRunning := false }

/-- Both signals are complete, so the loop that feeds the model with audio was started. -/
def Processing : Prop := t.isLoaded = true ∧ t.hasMicPermission = true

end MyTranscriber

def notGranted : Error := .audioRecordingPermissionNotGranted "Permission to record audio was not granted."

/-- What follows the load. -/
def listen (onLineComplete : γ) (granted : Bool) (s : State γ) : Option Error × State γ :=
  if granted then
    (none, { s with micTranscriber := (s.micTranscriber.addListener onLineComplete).onMicPermissionGranted.start })
  else (some notGranted, s)

def startTranscription (asrModel : ASRModel) (onLineComplete : γ) (loads : Except Throwable Unit) (granted : Bool)
    (s : State γ) : Except Throwable (Option Error) × State γ :=
  if s.model.map ASRModel.name ≠ some asrModel.name then
    let s := ⟨some asrModel, s.micTranscriber.loadFromFiles asrModel.name asrModel.arch loads⟩
    match loads with
    | .error e => (.error e, s)
    | .ok () => (listen onLineComplete granted s).map .ok id
  else (listen onLineComplete granted s).map .ok id

/-- An unlinked library throws before the flag is written, and the throw is caught. -/
def stopTranscription (linked : Bool) (s : State γ) : State γ :=
  if linked then { s with micTranscriber := s.micTranscriber.stop } else s

/-- The listener that a start registers. -/
def listener (onLineComplete : γ) : TranscriptEvent → List (γ × Str)
  | .lineCompleted text => [(onLineComplete, text)]
  | .other => []

/-- The calls of callbacks that an event leads to. -/
def deliveries (s : State γ) (event : TranscriptEvent) : List (γ × Str) :=
  s.micTranscriber.listeners.flatMap fun onLineComplete ↦ listener onLineComplete event

def next (s : State γ) : Event γ → State γ
  | .startTranscription asrModel onLineComplete loads granted =>
    (startTranscription asrModel onLineComplete loads granted s).2
  | .stopTranscription linked => stopTranscription linked s
  | .transcript _ => s

def initial : State γ := ⟨none, ⟨[], [], false, false, false⟩⟩

def stateAfter (es : List (Event γ)) : State γ := es.foldl next initial

/-- The callback of a start that succeeds. -/
def success (s : State γ) : Event γ → Option γ
  | .startTranscription asrModel onLineComplete loads granted =>
    match (startTranscription asrModel onLineComplete loads granted s).1 with
    | .ok none => some onLineComplete
    | _ => none
  | _ => none

/-- The callbacks of the successful starts, in order. -/
def successes (s : State γ) : List (Event γ) → List γ
  | [] => []
  | e :: es => (success s e).toList ++ successes (next s e) es

/-- The load of the remembered model's name that came last returned normally. -/
def Remembered (s : State γ) : Prop :=
  ∀ model, s.model = some model →
    ∃ load, s.micTranscriber.loads.find? (·.modelDir = model.name) = some load ∧ load.returned = true

structure DeliveredOnce (es : List (Event γ)) : Prop where
  line : ∀ earlier text, earlier ++ [.transcript (.lineCompleted text)] <+: es →
    ∃ callback, (successes initial earlier).getLast? = some callback ∧
      deliveries (stateAfter earlier) (.lineCompleted text) = [(callback, text)]
  retried : ∀ earlier, earlier <+: es → Remembered (stateAfter earlier)

/-- No load throws: a start whose load would throw does not load. -/
def Loads (s : State γ) : Event γ → Prop
  | .startTranscription asrModel _ (.error _) _ => s.model.map ASRModel.name = some asrModel.name
  | _ => True

def Event.granted : Event γ → Bool
  | .startTranscription _ _ _ granted => granted
  | _ => false

def OneStart (es : List (Event γ)) : Prop :=
  ∀ earlier text, earlier ++ [.transcript (.lineCompleted text)] <+: es → earlier.countP Event.granted = 1

variable {s : State γ} {e : Event γ} {es earlier : List (Event γ)} {asrModel : ASRModel} {onLineComplete : γ}
  {loads : Except Throwable Unit} {granted : Bool}

/-- Where a start goes on: at once when the name is the remembered one, else after a load that returned. -/
def Ready (asrModel : ASRModel) (loads : Except Throwable Unit) (s s' : State γ) : Prop :=
  (s.model.map ASRModel.name = some asrModel.name ∧ s' = s) ∨
    (loads = .ok () ∧ s' = ⟨some asrModel, s.micTranscriber.loadFromFiles asrModel.name asrModel.arch (.ok ())⟩)

theorem startTranscription_cases (asrModel : ASRModel) (onLineComplete : γ) (loads : Except Throwable Unit)
    (granted : Bool) (s : State γ) :
    (∃ thrown, s.model.map ASRModel.name ≠ some asrModel.name ∧ loads = .error thrown ∧
      startTranscription asrModel onLineComplete loads granted s =
        (.error thrown, ⟨some asrModel, s.micTranscriber.loadFromFiles asrModel.name asrModel.arch (.error thrown)⟩)) ∨
      ∃ s', Ready asrModel loads s s' ∧
        startTranscription asrModel onLineComplete loads granted s = (listen onLineComplete granted s').map .ok id := by
  by_cases hname : s.model.map ASRModel.name = some asrModel.name
  · exact .inr ⟨s, .inl ⟨hname, rfl⟩, if_neg (not_not_intro hname)⟩
  · cases loads with
    | error thrown => exact .inl ⟨thrown, hname, rfl, if_pos hname⟩
    | ok u => exact .inr ⟨_, .inr ⟨rfl, rfl⟩, if_pos hname⟩

theorem Ready.listeners_eq {s' : State γ} (h : Ready asrModel loads s s') :
    s'.micTranscriber.listeners = s.micTranscriber.listeners := by
  obtain ⟨-, rfl⟩ | ⟨-, rfl⟩ := h <;> rfl

theorem Ready.hasMicPermission_eq {s' : State γ} (h : Ready asrModel loads s s') :
    s'.micTranscriber.hasMicPermission = s.micTranscriber.hasMicPermission := by
  obtain ⟨-, rfl⟩ | ⟨-, rfl⟩ := h <;> rfl

/-- A start that succeeds adds its callback, and no other event changes who listens or is let in. -/
theorem next_cases :
    (success s e = none ∧ (next s e).micTranscriber.listeners = s.micTranscriber.listeners ∧
      (next s e).micTranscriber.hasMicPermission = s.micTranscriber.hasMicPermission) ∨
      ∃ callback, success s e = some callback ∧
        (next s e).micTranscriber.listeners = s.micTranscriber.listeners ++ [callback] := by
  cases e with
  | startTranscription asrModel onLineComplete loads granted =>
    obtain ⟨thrown, -, rfl, hstart⟩ | ⟨s', hready, hstart⟩ :=
      startTranscription_cases asrModel onLineComplete loads granted s
    · refine .inl ⟨by simp only [success, hstart], ?_⟩
      simp only [next, hstart, MyTranscriber.loadFromFiles, and_self]
    · cases granted with
      | false =>
        refine .inl ⟨by simp [success, hstart, listen], ?_⟩
        simp [next, hstart, listen, hready.listeners_eq, hready.hasMicPermission_eq]
      | true =>
        refine .inr ⟨onLineComplete, by simp [success, hstart, listen], ?_⟩
        simp [next, hstart, listen, hready.listeners_eq, MyTranscriber.addListener,
          MyTranscriber.onMicPermissionGranted, MyTranscriber.start]
  | stopTranscription linked =>
    refine .inl ⟨rfl, ?_⟩
    cases linked <;> exact ⟨rfl, rfl⟩
  | transcript event => exact .inl ⟨rfl, rfl, rfl⟩

theorem listeners_next : (next s e).micTranscriber.listeners =
    s.micTranscriber.listeners ++ (success s e).toList := by
  obtain ⟨hnone, hlisteners, -⟩ | ⟨callback, hsome, hlisteners⟩ := next_cases (s := s) (e := e)
  · rw [hnone, hlisteners, Option.toList_none, List.append_nil]
  · rw [hsome, hlisteners, Option.toList_some]

theorem listeners_foldl : (es.foldl next s).micTranscriber.listeners =
    s.micTranscriber.listeners ++ successes s es := by
  induction es generalizing s with
  | nil => rw [List.foldl_nil, successes, List.append_nil]
  | cons e es ih => rw [List.foldl_cons, ih, listeners_next, successes, List.append_assoc]

theorem listeners_stateAfter : (stateAfter es).micTranscriber.listeners = successes initial es :=
  listeners_foldl

theorem stateAfter_concat : stateAfter (es ++ [e]) = next (stateAfter es) e := List.foldl_concat ..

theorem listeners_ne_nil (h : (stateAfter es).micTranscriber.hasMicPermission = true) :
    (stateAfter es).micTranscriber.listeners ≠ [] := by
  induction es using List.reverseRecOn with
  | nil => exact Bool.noConfusion h
  | append_singleton es e ih =>
    rw [stateAfter_concat] at h ⊢
    obtain ⟨-, hlisteners, hmic⟩ | ⟨callback, -, hlisteners⟩ := next_cases (s := stateAfter es) (e := e)
    · rw [hlisteners]
      exact ih (hmic ▸ h)
    · rw [hlisteners]
      exact List.concat_ne_nil callback _

theorem isSome_success (h : Loads s e) : (success s e).isSome = e.granted := by
  cases e with
  | startTranscription asrModel onLineComplete loads granted =>
    obtain ⟨thrown, hname, rfl, -⟩ | ⟨s', -, hstart⟩ :=
      startTranscription_cases asrModel onLineComplete loads granted s
    · exact absurd h hname
    · cases granted <;> simp [success, hstart, listen, Event.granted]
  | stopTranscription linked => rfl
  | transcript event => rfl

/-- Every load returned, and the remembered model was loaded. -/
structure Loaded (s : State γ) : Prop where
  returned : ∀ load ∈ s.micTranscriber.loads, load.returned = true
  remembered : ∀ model, s.model = some model → ∃ load ∈ s.micTranscriber.loads, load.modelDir = model.name

theorem remembered_of_loaded (h : Loaded s) : Remembered s := by
  intro model hmodel
  obtain ⟨load, hmem, hdir⟩ := h.remembered model hmodel
  cases hfind : s.micTranscriber.loads.find? (·.modelDir = model.name) with
  | none => exact absurd (decide_eq_true hdir) (List.find?_eq_none.mp hfind load hmem)
  | some load' => exact ⟨load', rfl, h.returned load' (List.mem_of_find?_eq_some hfind)⟩

theorem loaded_initial : Loaded (initial : State γ) where
  returned := List.forall_mem_nil _
  remembered := by
    intro model hmodel
    cases hmodel

theorem Ready.loaded {s' : State γ} (h : Ready asrModel loads s s') (hs : Loaded s) : Loaded s' := by
  obtain ⟨-, rfl⟩ | ⟨-, rfl⟩ := h
  · exact hs
  · refine ⟨List.forall_mem_cons.mpr ⟨rfl, hs.returned⟩, fun model hmodel ↦ ⟨_, List.mem_cons_self, ?_⟩⟩
    rw [← Option.some.inj hmodel]

theorem loaded_next (hs : Loaded s) (h : Loads s e) : Loaded (next s e) := by
  cases e with
  | startTranscription asrModel onLineComplete loads granted =>
    obtain ⟨thrown, hname, rfl, -⟩ | ⟨s', hready, hstart⟩ :=
      startTranscription_cases asrModel onLineComplete loads granted s
    · exact absurd h hname
    · have hs' := hready.loaded hs
      rw [next, hstart]
      cases granted <;> exact ⟨hs'.returned, hs'.remembered⟩
  | stopTranscription linked => cases linked <;> exact ⟨hs.returned, hs.remembered⟩
  | transcript event => exact hs

theorem loads_of_remembered (h : Remembered (next s e)) : Loads s e := by
  cases e with
  | startTranscription asrModel onLineComplete loads granted =>
    cases loads with
    | ok u => trivial
    | error thrown =>
      obtain ⟨thrown', -, heq, hstart⟩ | ⟨s', ⟨hname, -⟩ | ⟨hok, -⟩, -⟩ :=
        startTranscription_cases asrModel onLineComplete (.error thrown) granted s
      · rw [next, hstart] at h
        obtain ⟨load, hfind, hreturned⟩ := h asrModel rfl
        have hlast : (⟨asrModel.name, asrModel.arch, false⟩ : Load) = load := by
          simpa only [MyTranscriber.loadFromFiles, decide_true, List.find?_cons_of_pos, Option.some.injEq] using hfind
        rw [← hlast] at hreturned
        exact Bool.noConfusion hreturned
      · exact hname
      · cases hok
  | stopTranscription linked => trivial
  | transcript event => trivial

theorem loaded_stateAfter (h : ∀ earlier e, earlier ++ [e] <+: es → Loads (stateAfter earlier) e)
    (hpre : earlier <+: es) : Loaded (stateAfter earlier) := by
  induction earlier using List.reverseRecOn with
  | nil => exact loaded_initial
  | append_singleton earlier e ih =>
    rw [stateAfter_concat]
    exact loaded_next (ih ((List.prefix_append earlier [e]).trans hpre)) (h earlier e hpre)

theorem successes_concat : successes s (es ++ [e]) = successes s es ++ (success (es.foldl next s) e).toList := by
  induction es generalizing s with
  | nil => simp only [List.nil_append, successes, List.append_nil, List.foldl_nil]
  | cons e' es ih => simp only [List.cons_append, successes, ih, List.append_assoc, List.foldl_cons]

theorem length_successes (h : ∀ earlier e, earlier ++ [e] <+: es → Loads (stateAfter earlier) e)
    (hpre : earlier <+: es) : (successes initial earlier).length = earlier.countP Event.granted := by
  induction earlier using List.reverseRecOn with
  | nil => rfl
  | append_singleton earlier e ih =>
    have hsuccess := isSome_success (h earlier e hpre)
    rw [successes_concat, List.length_append, ih ((List.prefix_append earlier [e]).trans hpre),
      List.countP_append, List.countP_singleton, ← hsuccess, Option.length_toList]
    rfl

theorem deliveries_lineCompleted {text : Str} : deliveries s (.lineCompleted text) =
    s.micTranscriber.listeners.map (·, text) := List.map_eq_flatMap.symm

/-- Lines are delivered once, and failed loads retried, exactly when no load throws and each line comes after
one start with the permission. -/
theorem deliveredOnce_iff (es : List (Event γ)) :
    DeliveredOnce es ↔
      (∀ earlier e, earlier ++ [e] <+: es → Loads (stateAfter earlier) e) ∧ OneStart es := by
  constructor
  · intro h
    have hloads : ∀ earlier e, earlier ++ [e] <+: es → Loads (stateAfter earlier) e := by
      intro earlier e hpre
      refine loads_of_remembered ?_
      rw [← stateAfter_concat]
      exact h.retried _ hpre
    refine ⟨hloads, fun earlier text hpre ↦ ?_⟩
    obtain ⟨callback, -, hdeliveries⟩ := h.line earlier text hpre
    have hlength := congrArg List.length hdeliveries
    rwa [deliveries_lineCompleted, List.length_map, listeners_stateAfter,
      length_successes hloads ((List.prefix_append earlier _).trans hpre)] at hlength
  · intro h
    obtain ⟨hloads, hone⟩ := h
    refine ⟨fun earlier text hpre ↦ ?_, fun earlier hpre ↦
      remembered_of_loaded (loaded_stateAfter hloads hpre)⟩
    have hlength := hone earlier text hpre
    rw [← length_successes hloads ((List.prefix_append earlier _).trans hpre), ← listeners_stateAfter] at hlength
    obtain ⟨callback, hcallback⟩ := List.length_eq_one_iff.mp hlength
    refine ⟨callback, ?_, ?_⟩
    · rw [← listeners_stateAfter, hcallback, List.getLast?_singleton]
    · rw [deliveries_lineCompleted, hcallback, List.map_singleton]

def tiny : ASRModel := ⟨"tiny-en", .tiny⟩

/-- A second screen after the first: each line then goes to both callbacks. -/
def twoScreens : List (Event ℕ) :=
  [.startTranscription tiny 1 (.ok ()) true, .stopTranscription true, .startTranscription tiny 2 (.ok ()) true]

theorem line_delivered_twice : (stateAfter twoScreens).micTranscriber.Processing ∧
    ¬DeliveredOnce (twoScreens ++ [.transcript (.lineCompleted "hello")]) := by
  refine ⟨⟨by decide, by decide⟩, fun h ↦ ?_⟩
  obtain ⟨callback, -, hdeliveries⟩ := h.line twoScreens "hello" List.prefix_rfl
  have htwice : deliveries (stateAfter twoScreens) (.lineCompleted "hello") =
      [(1, ("hello" : Str)), (2, ("hello" : Str))] := by
    decide
  rw [htwice] at hdeliveries
  cases hdeliveries

/-- A line is completed only by audio that the loop took in. -/
def Audible (es : List (Event γ)) : Prop :=
  ∀ earlier text, earlier ++ [.transcript (.lineCompleted text)] <+: es →
    (stateAfter earlier).micTranscriber.Processing

/-- No line comes before the first start. -/
theorem oneStart_iff_of_audible (hloads : ∀ earlier e, earlier ++ [e] <+: es → Loads (stateAfter earlier) e)
    (haudible : Audible es) :
    OneStart es ↔ ∀ earlier text, earlier ++ [.transcript (.lineCompleted text)] <+: es →
      earlier.countP Event.granted ≤ 1 := by
  refine forall₃_congr fun earlier text hpre ↦ ?_
  have hne := listeners_ne_nil (haudible earlier text hpre).2
  rw [listeners_stateAfter] at hne
  have hpos := List.length_pos_of_ne_nil hne
  rw [length_successes hloads ((List.prefix_append earlier _).trans hpre)] at hpos
  omega

end Aigentik.AudioTranscriptionService
