import Aigentik.Ai.OnDemandLoading
import Aigentik.Effects.History

namespace Aigentik.InterpretCommand

open Strings Effects AgentLLMFacade OnDemandLoading

/-- The model's output so far, after one more call. -/
def note (written : List Str) : (op : facadeSig.Op) → facadeSig.Resp op → List Str
  | FacadeOp.leave (.getResponse _), Except.ok raw => written ++ [raw]
  | _, _ => written

def outputs (es : List (Event facadeSig)) : List Str := es.foldl (fun written e ↦ note written e.1 e.2) []

variable (P : Platform) (commandText : Str)

/-- The output without its thoughts, fences and end marks. -/
def clean (raw : Str) : Str := trim (fenceRegex.replaceAll [] ((thinkRegex P).replaceAll [] raw))

/-- A JSON object whose action is there and not "unknown". Its `null` reads as the text "null". -/
def IsCommand (json : Str) : Prop :=
  ∃ optString action, P.jsonObject json = some optString ∧ present (optString "action") = some action ∧
    action ≠ "unknown".toList

def run (A : Answers facadeSig) : List (Event facadeSig) := (interpretCommand P commandText).events A []

/-- A run whose model has not written a command ends with the result of the keyword parser. -/
def FailsSafe (A : Answers facadeSig) : Prop :=
  (∀ raw ∈ outputs (run P commandText A), ¬IsCommand P (clean P raw)) →
    (interpretCommand P commandText).outcome A [] = .ok (parseSimpleCommand P commandText)

variable {P commandText} {written : List Str} {raw : Str}

/-! What the request comes to -/

def disc : Discipline facadeSig (List Str) := ⟨fun _ _ ↦ True, fun _ _ _ ↦ True, note⟩

/-- The calls that bring no output of the model. -/
def Silent : FacadeOp → Prop
  | .leave (.getResponse _) => False
  | _ => True

theorem note_silent {op : facadeSig.Op} (hop : Silent op) (r : facadeSig.Resp op) : note written op r = written := by
  unfold note
  split
  · exact hop.elim
  · rfl

theorem silent_wp {α : Type} {p : Facade α} (hp : p.Calls Silent) (ht : p.Total) :
    p.wp disc (Prog.exits (fun _ l ↦ l = written) fun _ _ ↦ False) written := by
  refine hp.wp_total ht ?_ rfl
  intro _ op heq hop
  subst heq
  exact ⟨trivial, fun r _ ↦ note_silent hop r⟩

theorem cancelIdleUnload_calls : cancelIdleUnload.Calls Silent := by
  refine ⟨trivial, fun job ↦ ?_⟩
  cases job with
  | some job => exact ⟨trivial, fun _ ↦ trivial⟩
  | none => trivial

theorem cancelIdleUnload_total : cancelIdleUnload.Total := by
  intro job
  cases job with
  | some job => exact fun _ ↦ trivial
  | none => trivial

theorem ensureLoaded_calls : ensureLoaded.Calls Silent := by
  refine cancelIdleUnload_calls.bind fun _ ↦ ⟨trivial, fun _ ↦ ⟨trivial, fun ready ↦ ?_⟩⟩
  cases ready with
  | true => trivial
  | false =>
    refine ⟨trivial, fun _ ↦ ⟨trivial, fun ready ↦ ?_⟩⟩
    cases ready with
    | true => exact ⟨trivial, fun _ ↦ trivial⟩
    | false =>
      refine ⟨trivial, fun deferred ↦ ?_⟩
      cases deferred with
      | some d => exact ⟨trivial, fun _ ↦ ⟨trivial, fun _ ↦ trivial⟩⟩
      | none =>
        refine ⟨trivial, fun path ↦ .ite (fun _ ↦ ⟨trivial, fun _ ↦ trivial⟩) fun _ ↦ ?_⟩
        refine ⟨trivial, fun d ↦ ⟨trivial, fun _ ↦ ⟨trivial, fun _ ↦ ?_⟩⟩⟩
        exact ⟨trivial, fun _ ↦ ⟨trivial, fun _ ↦ trivial⟩⟩

theorem ensureLoaded_total : ensureLoaded.Total := by
  refine cancelIdleUnload_total.bind fun _ _ ready ↦ ?_
  cases ready with
  | true => trivial
  | false =>
    intro _ ready
    cases ready with
    | true => exact fun _ ↦ trivial
    | false =>
      intro deferred
      cases deferred with
      | some d => exact fun _ _ ↦ trivial
      | none =>
        intro path
        dsimp only [Prog.bind]
        split
        · exact fun _ ↦ trivial
        · exact fun _ _ _ _ _ ↦ trivial

theorem scheduleIdleUnload_calls : scheduleIdleUnload.Calls Silent :=
  cancelIdleUnload_calls.bind fun _ ↦ ⟨trivial, fun _ ↦ ⟨trivial, fun _ ↦ ⟨trivial, fun _ ↦ trivial⟩⟩⟩

theorem scheduleIdleUnload_total : scheduleIdleUnload.Total :=
  cancelIdleUnload_total.bind fun _ _ _ _ ↦ trivial

/-- What the outcome of the request has to do with the output. -/
def Written : ModelOutcome → List Str → Prop
  | .text raw, written => written = [raw]
  | .unavailable, written | .threw, written => written = []

theorem attempt_wp (prompt : Prompt) :
    (attempt prompt).wp disc (Prog.exits Written fun _ _ ↦ False) [] := by
  refine (Prog.wp_tryCatch _ _).mpr ((Prog.wp_bind _ _).mpr ⟨trivial, fun _ _ ↦ ?_⟩)
  refine (Prog.wp_tryFinally _ _).mpr ⟨trivial, fun _ _ ↦ ⟨trivial, fun added _ ↦ ?_⟩⟩
  cases added with
  | error e => exact ⟨trivial, fun _ _ ↦ rfl⟩
  | ok _ =>
    refine ⟨trivial, fun _ _ ↦ ⟨trivial, fun answer _ ↦ ?_⟩⟩
    cases answer with
    | error e => exact ⟨trivial, fun _ _ ↦ rfl⟩
    | ok raw => exact ⟨trivial, fun _ _ ↦ rfl⟩

variable (P commandText) in
/-- What the request has come to, and what the command is taken for. -/
theorem interpretCommand_wp : (interpretCommand P commandText).wp disc (Prog.exits (fun result written ↦
    ∃ outcome, Written outcome written ∧ result = interpretReply P commandText outcome) fun _ _ ↦ False) [] := by
  refine ⟨trivial, fun _ _ ↦ ?_⟩
  change Prog.wp disc _ (ensureLoaded >>= _) _
  refine (Prog.wp_bind _ _).mpr (Prog.wp_mono (silent_wp ensureLoaded_calls ensureLoaded_total) fun o l hl ↦ ?_)
  cases o with
  | error e => exact hl
  | ok loaded =>
    obtain rfl : l = [] := hl
    cases loaded with
    | false => exact ⟨.unavailable, rfl, rfl⟩
    | true =>
      refine (Prog.wp_bind _ _).mpr (Prog.wp_mono (attempt_wp _) fun o l hl ↦ ?_)
      cases o with
      | error e => exact hl
      | ok outcome =>
        cases outcome with
        | unavailable => exact ⟨.unavailable, hl, rfl⟩
        | threw => exact ⟨.threw, hl, rfl⟩
        | text raw =>
          refine (Prog.wp_bind _ _).mpr
            (Prog.wp_mono (silent_wp scheduleIdleUnload_calls scheduleIdleUnload_total) fun o l' hl' ↦ ?_)
          cases o with
          | error e => exact hl'
          | ok _ =>
            obtain rfl : l' = l := hl'
            exact ⟨.text raw, hl, rfl⟩

theorem interpretCommand_outcome (P : Platform) (commandText : Str) (A : Answers facadeSig) :
    ∃ outcome, Written outcome (outputs (run P commandText A)) ∧
      (interpretCommand P commandText).outcome A [] = .ok (interpretReply P commandText outcome) := by
  have hpost := Prog.outcome_of_wp (interpretCommand_wp P commandText)
    (fun _ _ _ ↦ trivial) A []
  cases hresult : (interpretCommand P commandText).outcome A [] with
  | error e =>
    rw [hresult] at hpost
    exact hpost.elim
  | ok result =>
    rw [hresult] at hpost
    obtain ⟨outcome, hwritten, rfl⟩ := hpost
    exact ⟨outcome, hwritten, rfl⟩

/-! The fallbacks -/

theorem parseCommandJson_some {json : Str} {optString : Str → Str} (h : P.jsonObject json = some optString) :
    (parseCommandJson P json).action = (present (optString "action")).getD "unknown" := by
  rw [parseCommandJson, h]

theorem interpretReply_text : interpretReply P commandText (.text raw) =
    if (parseCommandJson P (clean P raw)).action = "unknown".toList then parseSimpleCommand P commandText
    else parseCommandJson P (clean P raw) := rfl

theorem interpretReply_object {optString : Str → Str} (h : P.jsonObject (clean P raw) = some optString)
    (hcommand : ¬IsCommand P (clean P raw)) :
    interpretReply P commandText (.text raw) = parseSimpleCommand P commandText := by
  have hunknown : (parseCommandJson P (clean P raw)).action = "unknown" := by
    rw [parseCommandJson_some h]
    cases haction : present (optString "action") with
    | none => rfl
    | some action =>
      by_contra hne
      exact hcommand ⟨optString, action, h, haction, hne⟩
  exact if_pos hunknown

/-- Text that is no JSON object is given to the keyword parser in place of the command. -/
theorem interpretReply_prose (h : P.jsonObject (clean P raw) = none) :
    interpretReply P commandText (.text raw) = parseSimpleCommand P commandText ↔
      (parseSimpleCommand P (clean P raw)).action = "unknown".toList ∨
        parseSimpleCommand P (clean P raw) = parseSimpleCommand P commandText := by
  have hprose : parseCommandJson P (clean P raw) = parseSimpleCommand P (clean P raw) := by
    rw [parseCommandJson, h]
  simp only [interpretReply_text, hprose]
  by_cases hunknown : (parseSimpleCommand P (clean P raw)).action = "unknown".toList
  · rw [if_pos hunknown]
    exact iff_of_true rfl (.inl hunknown)
  · rw [if_neg hunknown, or_iff_right hunknown]

/-- Malformed output is harmless exactly if the keyword parser makes nothing of it, or what it
makes of the command itself. -/
theorem fails_safe_iff (P : Platform) (commandText : Str) (A : Answers facadeSig) :
    FailsSafe P commandText A ↔ ∀ raw ∈ outputs (run P commandText A), P.jsonObject (clean P raw) = none →
      (parseSimpleCommand P (clean P raw)).action = "unknown".toList ∨
        parseSimpleCommand P (clean P raw) = parseSimpleCommand P commandText := by
  obtain ⟨outcome, hwritten, hresult⟩ := interpretCommand_outcome P commandText A
  rw [FailsSafe, hresult, Except.ok.injEq]
  cases outcome with
  | unavailable =>
    rw [hwritten]
    exact iff_of_true (fun _ ↦ rfl) fun raw hraw ↦ (List.not_mem_nil hraw).elim
  | threw =>
    rw [hwritten]
    exact iff_of_true (fun _ ↦ rfl) fun raw hraw ↦ (List.not_mem_nil hraw).elim
  | text raw =>
    rw [hwritten]
    simp only [List.forall_mem_singleton]
    cases hjson : P.jsonObject (clean P raw) with
    | some optString =>
      refine iff_of_true (fun hcommand ↦ interpretReply_object hjson hcommand) fun hnone ↦ ?_
      cases hnone
    | none =>
      have hcommand : ¬IsCommand P (clean P raw) := by
        intro h'
        obtain ⟨optString, action, hsome, -⟩ := h'
        rw [hjson] at hsome
        cases hsome
      rw [← interpretReply_prose hjson]
      exact ⟨fun h _ ↦ h hcommand, fun h _ ↦ h rfl⟩

/-! A model that answers in prose -/

def prose : Answers facadeSig
  | _, FacadeOp.stateIs state => decide (state = .ready)
  | _, FacadeOp.leave _ => (.ok "I never reply to Bob." : Except Throwable Str)
  | _, op => quiet op

/-- The keyword parser silences Bob, and the owner has only asked for a list. -/
theorem prose_obeyed : ¬FailsSafe asciiPlatform "list my contacts" prose := by
  intro hsafe
  have hresult : (interpretCommand asciiPlatform "list my contacts").outcome prose [] =
      .ok ⟨"never_reply_to", some "bob.".toList, none, false, none⟩ := by decide +kernel
  have hunknown : (parseSimpleCommand asciiPlatform "list my contacts").action = "unknown".toList := by
    decide +kernel
  rw [hsafe, Except.ok.injEq] at hresult
  · rw [hresult] at hunknown
    cases hunknown
  · intro raw _ h
    obtain ⟨optString, action, hsome, -⟩ := h
    cases hsome

end Aigentik.InterpretCommand
