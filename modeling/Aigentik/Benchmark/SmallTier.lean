import Aigentik.Effects.History
import Aigentik.Benchmark.BenchmarkRunner

namespace Aigentik.SmallTier

open Strings Effects ExperimentConfig BenchmarkRunner
open ModelRouter (RoutingDecision)

/-- The router has logged a decision for the small tier. -/
def SelectsSmall (es : List (Event sig)) : Prop :=
  ∃ decision device, decision.selectedTier = "small".toList ∧ ∃ e ∈ es, e.1 = .routing (.log decision device)

def CallsModel (es : List (Event sig)) : Prop := ∃ e ∈ es, ∃ c, e.1 = .model c

/-- Neither a call of the model nor a decision of the router. -/
def Plain : Op → Prop
  | .model _ | .routing (.log ..) => False
  | _ => True

/-- The decision of the router, in every entry of its log. -/
def Decided (decision : RoutingDecision) (es : List (Event sig)) : Prop :=
  ∀ e ∈ es, ∀ decision' device, e.1 = .routing (.log decision' device) → decision' = decision

abbrev disc : Discipline sig (List (Event sig)) := .history (fun _ _ ↦ True) fun _ _ _ ↦ True

variable {P : Platform} {config : ExperimentConfig} {task : CorpusTask} {decision : RoutingDecision}
  {es : List (Event sig)} {e : Event sig}

theorem callsModel_snoc : CallsModel (es ++ [e]) ↔ CallsModel es ∨ ∃ c, e.1 = .model c := by
  constructor
  · intro h
    obtain ⟨x, hx, hcall⟩ := h
    rcases List.mem_append.mp hx with hx | hx
    · exact .inl ⟨x, hx, hcall⟩
    · exact .inr (List.mem_singleton.mp hx ▸ hcall)
  · intro h
    rcases h with ⟨x, hx, hcall⟩ | hcall
    · exact ⟨x, List.mem_append_left _ hx, hcall⟩
    · exact ⟨e, by simp, hcall⟩

theorem callsModel_plain (h : Plain e.1) : CallsModel (es ++ [e]) ↔ CallsModel es := by
  refine callsModel_snoc.trans (or_iff_left ?_)
  intro h'
  obtain ⟨c, hcall⟩ := h'
  rw [hcall] at h
  exact h

theorem Decided.snoc (h : Decided decision es)
    (he : ∀ decision' device, e.1 = .routing (.log decision' device) → decision' = decision) :
    Decided decision (es ++ [e]) := by
  intro x hx
  rcases List.mem_append.mp hx with hx | hx
  · exact h x hx
  · rw [List.mem_singleton.mp hx]
    exact he

theorem Decided.plain (h : Decided decision es) (he : Plain e.1) : Decided decision (es ++ [e]) := by
  refine h.snoc fun decision' device heq ↦ ?_
  rw [heq] at he
  exact he.elim

/-- What is known once the decision has been taken, with what `called` says of the model. -/
structure Known (decision : RoutingDecision) (called : Prop) (es : List (Event sig)) : Prop where
  decided : Decided decision es
  called : CallsModel es ↔ called

variable {called : Prop}

theorem Known.plain (h : Known decision called es) (he : Plain e.1) : Known decision called (es ++ [e]) :=
  ⟨h.decided.plain he, (callsModel_plain he).trans h.called⟩

theorem Known.after {α : Type} {p : Run α} (hp : p.Calls Plain) (h : Known decision called es) :
    p.wp disc (fun _ ↦ Known decision called) es :=
  hp.wp (fun _ _ hes hop ↦ ⟨trivial, fun _ _ ↦ hes.plain hop⟩) h

/-- The model is called for a task unless the tier does without, and the task is a command. -/
def Needed (profile : ModelProfile) (task : CorpusTask) : Prop := profile.useLlm = true ∨ task.taskType ≠ TYPE_PARSE

theorem attempt_wp (c : ModelCall) {f : sig.Resp (.model c) → Run Str} (hf : ∀ r, (f r).Calls Plain)
    (h : Known decision False es) :
    (Prog.call (Op.model c) f : Run Str).wp disc (fun _ ↦ Known decision True) es := by
  refine ⟨trivial, fun r _ ↦ Known.after (hf r) ⟨h.decided.snoc ?_, ?_⟩⟩
  · intro decision' device heq
    cases heq
  · exact iff_of_true (callsModel_snoc.mpr (.inr ⟨c, rfl⟩)) trivial

theorem generate_wp (profile : ModelProfile) (h : Known decision False es) :
    (generate P profile task).wp disc (fun _ ↦ Known decision (Needed profile task)) es := by
  unfold generate
  split
  · rename_i hfast
    have hfast : profile.useLlm = false ∧ task.taskType = TYPE_PARSE := by simpa using hfast
    have hneeded : ¬Needed profile task := by simp [Needed, hfast]
    exact ⟨h.decided, h.called.trans (iff_of_false id hneeded)⟩
  · rename_i hslow
    have hneeded : Needed profile task := by
      by_cases hllm : profile.useLlm = true
      · exact .inl hllm
      · exact .inr fun hparse ↦ hslow (by simp [hllm, hparse])
    rw [eq_true hneeded]
    split
    · exact attempt_wp _ ofExcept_calls h
    · split <;> exact attempt_wp _ ofExcept_calls h

theorem Known.decide (h : ∀ e ∈ es, Plain e.1) (device : DeviceStateReader.DeviceState)
    (r : sig.Resp (.routing (.log decision device))) :
    Known decision False (es ++ [⟨.routing (.log decision device), r⟩]) := by
  have hdecided : Decided decision es := by
    intro e he decision' device' heq
    have hplain : Plain e.1 := h e he
    rw [heq] at hplain
    exact hplain.elim
  have hcalled : ¬CallsModel es := by
    intro h'
    obtain ⟨e, he, c, heq⟩ := h'
    have hplain : Plain e.1 := h e he
    rw [heq] at hplain
    exact hplain
  refine ⟨hdecided.snoc ?_, callsModel_snoc.trans (iff_of_false ?_ id)⟩
  · intro decision' device' heq
    cases heq
    rfl
  · intro h'
    rcases h' with hcall | ⟨c, heq⟩
    · exact hcalled hcall
    · cases heq

theorem runTask_wp : (runTask P config task).wp disc (fun _ es ↦ ∃ decision,
    decision.profile = .forTier P decision.selectedTier ∧ Known decision (Needed decision.profile task) es) [] := by
  refine ⟨trivial, fun ramBefore _ ↦ ⟨trivial, fun batteryBefore _ ↦ ⟨trivial, fun thermalStatus _ ↦
    ⟨trivial, fun routingStart _ ↦ ?_⟩⟩⟩⟩
  refine ⟨trivial, fun battery _ ↦ ⟨trivial, fun charging _ ↦ ⟨trivial, fun thermal _ ↦ ⟨trivial, fun ram _ ↦
    ⟨trivial, fun logged _ ↦ ?_⟩⟩⟩⟩⟩
  refine ⟨trivial, fun loadStart _ ↦ ⟨trivial, fun loadEnd _ ↦ ⟨trivial, fun inferenceStart _ ↦ ?_⟩⟩⟩
  change Prog.wp disc _ (generate P _ _ >>= _) _
  refine (Prog.wp_bind _ _).mpr (Prog.wp_mono (generate_wp _ (.plain (.plain (.plain (.decide ?_ _ logged) trivial)
    trivial) trivial)) fun o es hes ↦ ?_)
  · intro e he
    simp only [Discipline.history, List.nil_append, List.cons_append, List.mem_cons, List.not_mem_nil, or_false] at he
    rcases he with rfl | rfl | rfl | rfl | rfl | rfl | rfl | rfl <;> trivial
  cases o with
  | error _ => exact ⟨_, rfl, hes⟩
  | ok output =>
    refine Prog.wp_mono (hes.after ?_) fun o es hes ↦ ⟨_, rfl, hes⟩
    refine ⟨trivial, fun _ ↦ ⟨trivial, fun _ ↦ ⟨trivial, fun _ ↦ ⟨trivial, fun _ ↦ ⟨trivial, fun _ ↦ ?_⟩⟩⟩⟩⟩
    exact (timestamp_calls trivial ..).bind fun _ ↦ (timestamp_calls trivial ..).bind fun _ ↦ trivial

/-- Where the router selects the small tier, the model is left alone exactly for commands. -/
theorem small_calls_no_model_iff {P : Platform} (hlowercase : P.lowercase "small".toList = "small".toList)
    (config : ExperimentConfig) (task : CorpusTask) (A : Answers sig)
    (hsmall : SelectsSmall ((runTask P config task).events A [])) :
    ¬CallsModel ((runTask P config task).events A []) ↔ task.taskType = TYPE_PARSE := by
  obtain ⟨-, decision, hprofile, hknown⟩ := Prog.along_of_wp (A := A) runTask_wp fun _ _ _ _ ↦ trivial
  rw [List.nil_append] at hknown
  obtain ⟨decision', device, htier, e, he, heq⟩ := hsmall
  obtain rfl : decision' = decision := hknown.decided e he decision' device heq
  have hsmall : decision'.profile = .SMALL := by rw [hprofile, htier, ModelProfile.small_forTier hlowercase]
  rw [hknown.called, Needed, hsmall]
  simp [ModelProfile.SMALL]

/-! A device in severe thermal state -/

def hotDevice : DeviceStateReader.DeviceState := ⟨80, false, 3, 2000⟩

def hot : Answers sig
  | _, .exists _ => true
  | _, .lineSequence _ => (.ok [] : Except Throwable (List Str))
  | _, .currentTimeMillis | _, .readRssKb => (0 : ℤ)
  | _, .routing .getBatteryPercent => hotDevice.batteryPercent
  | _, .routing .isCharging => hotDevice.isCharging
  | _, .routing .getThermalStatus => hotDevice.thermalStatus
  | _, .routing .readAvailableRamMb => hotDevice.availableRamMb
  | _, .routing (.log ..) => ()
  | _, .model (.interpretCommand _) => (.ok ⟨"unknown", none, none, false, none⟩ : Except Throwable AgentLLMFacade.CommandResult)
  | _, .model (.generateSmsReply ..) | _, .model (.generateChatReply _) => (.ok "Sure." : Except Throwable Str)
  | _, .insert _ | _, .onProgress .. => ()

def adaptive : ExperimentConfig := ⟨"exp", "medium", "corpus.jsonl", 0, true⟩

def taskOf (taskType input : Str) : CorpusTask := ⟨"t1", taskType, input, [], false, [], true⟩

theorem status_command_no_model :
    ¬CallsModel ((runTask asciiPlatform adaptive (taskOf TYPE_PARSE "status".toList)).events hot []) := by
  refine (small_calls_no_model_iff (by decide) adaptive (taskOf TYPE_PARSE "status".toList) hot ?_).mpr rfl
  refine ⟨ModelRouter.decisionFor asciiPlatform "status" hotDevice none, hotDevice, by decide +kernel, ?_⟩
  decide +kernel

/-- The router protects the device, and the reply is still written by the model. -/
theorem hot_device_calls_model :
    SelectsSmall ((runTask asciiPlatform adaptive (taskOf TYPE_REPLY "hi".toList)).events hot []) ∧
      CallsModel ((runTask asciiPlatform adaptive (taskOf TYPE_REPLY "hi".toList)).events hot []) := by
  constructor
  · refine ⟨ModelRouter.decisionFor asciiPlatform "hi" hotDevice none, hotDevice, by decide +kernel, ?_⟩
    decide +kernel
  · have hcalled : Op.model (.generateSmsReply none "benchmark" "hi" none none) ∈
        (runTask asciiPlatform adaptive (taskOf TYPE_REPLY "hi".toList)).called hot [] := by decide +kernel
    obtain ⟨e, he, heq⟩ := List.mem_map.mp hcalled
    exact ⟨e, he, _, heq⟩

end Aigentik.SmallTier
