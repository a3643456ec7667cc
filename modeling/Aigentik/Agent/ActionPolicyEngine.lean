import Aigentik.Ai.AgentLLMFacade

namespace Aigentik

open Strings

inductive ActionSchema
  | statusQuery (verbose : Bool)
  | findContact (query : Str)
  | checkEmail (maxResults : ℕ)
  | syncContacts (forced : Bool)
  | setContactInstructions (target : Str) (instructions behavior : Option Str)
  | autoReply (toPhone channel draft : Str)
  | sendEmail (recipient subject body : Str)
  | unknown (rawAction : Str)
  deriving DecidableEq

namespace ActionSchemaValidator

/-- `target?.trim()` where it is neither missing nor blank. -/
def required (field : Option Str) : Option Str :=
  match field with
  | some s => if isBlank (trim s) then none else some (trim s)
  | none => none

open AgentLLMFacade in
def validate (result : CommandResult) : ActionSchema :=
  let action := result.action
  if action ∈ ["status".toList, "check_status".toList] then
    .statusQuery (result.query.elim false (contains · "verbose"))
  else if action ∈ ["find_contact".toList, "contact_lookup".toList] then
    match required result.target with
    | some query => .findContact query
    | none => .unknown action
  else if action ∈ ["get_contact_phone".toList, "contact_phone".toList, "phone_number".toList] then
    match required result.target with
    | some query => .findContact query
    | none => .unknown action
  else if action ∈ ["check_email".toList, "read_email".toList, "list_email".toList] then
    .checkEmail 10
  else if action = "sync_contacts".toList then .syncContacts false
  else if action = "never_reply_to".toList then
    match required result.target with
    | some target => .setContactInstructions target none (some "never")
    | none => .unknown action
  else if action = "always_reply_to".toList then
    match required result.target with
    | some target => .setContactInstructions target none (some "always")
    | none => .unknown action
  else if action = "set_contact_instructions".toList then
    match required result.target with
    | some target => .setContactInstructions target (result.content.map trim) none
    | none => .unknown action
  else if action = "send_email".toList then
    match required result.target, required result.content with
    | some recipient, some body => .sendEmail recipient "Message from Aigentik" body
    | _, _ => .unknown action
  else if action = "send_sms".toList then
    .unknown "send_sms (outbound SMS not supported — reply-only)"
  else .unknown action

theorem required_eq {field : Option Str} (h : required field ≠ none) :
    ∃ s, field = some s ∧ required field = some (trim s) := by
  cases field with
  | none => exact (h rfl).elim
  | some s =>
    refine ⟨s, rfl, ?_⟩
    unfold required at h ⊢
    dsimp only at h ⊢
    split at h
    · exact (h rfl).elim
    · rename_i hblank
      rw [if_neg hblank]

/-! The fields of an accepted action -/

variable {result : AgentLLMFacade.CommandResult} {target : Str}

theorem target_of_allowed (hok : ∀ raw, validate result ≠ .unknown raw)
    (ha : result.action ∈ ["find_contact".toList, "get_contact_phone".toList, "contact_phone".toList,
      "phone_number".toList, "always_reply_to".toList, "never_reply_to".toList,
      "set_contact_instructions".toList, "send_email".toList]) :
    ∃ target, result.target = some target ∧ required result.target = some (trim target) := by
  apply required_eq
  intro hnone
  apply hok result.action
  simp only [List.mem_cons, List.not_mem_nil, or_false] at ha
  rcases ha with ha | ha | ha | ha | ha | ha | ha | ha <;> simp [validate, ha, hnone]

theorem content_of_allowed (hok : ∀ raw, validate result ≠ .unknown raw) (ha : result.action = "send_email".toList) :
    ∃ body, result.content = some body ∧ required result.content = some (trim body) := by
  apply required_eq
  intro hnone
  apply hok result.action
  simp [validate, ha, hnone]

theorem validate_neverReply (ha : result.action = "never_reply_to".toList)
    (htarget : required result.target = some target) :
    validate result = .setContactInstructions target none (some "never".toList) := by
  simp [validate, ha, htarget]

theorem validate_alwaysReply (ha : result.action = "always_reply_to".toList)
    (htarget : required result.target = some target) :
    validate result = .setContactInstructions target none (some "always".toList) := by
  simp [validate, ha, htarget]

theorem validate_instructions (ha : result.action = "set_contact_instructions".toList)
    (htarget : required result.target = some target) :
    validate result = .setContactInstructions target (result.content.map trim) none := by
  simp [validate, ha, htarget]

theorem validate_sendEmail {body : Str} (ha : result.action = "send_email".toList)
    (htarget : required result.target = some target) (hcontent : required result.content = some body) :
    validate result = .sendEmail target "Message from Aigentik" body := by
  simp [validate, ha, htarget, hcontent]

end ActionSchemaValidator

namespace RiskScorer

inductive RiskTier
  | low | medium | high
  deriving DecidableEq

def score : ActionSchema → RiskTier
  | .statusQuery _ | .findContact _ | .checkEmail _ => .low
  | .autoReply .. | .syncContacts _ => .medium
  | .setContactInstructions _ _ behavior =>
    if behavior = some "never".toList ∨ behavior = some "always".toList then .high else .medium
  | .sendEmail .. | .unknown _ => .high

def label : RiskTier → Str
  | .low => "low"
  | .medium => "medium"
  | .high => "high"

end RiskScorer

namespace ActionPolicyEngine

open RiskScorer

def AUTO_APPROVE_CONFIDENCE_THRESHOLD : ℚ := 3 / 4

inductive Decision
  | allow | requireApproval | block
  deriving DecidableEq

inductive TrustLevel
  | admin | publicCaller
  deriving DecidableEq

structure PolicyDecision where
  action : ActionSchema
  decision : Decision
  riskTier : RiskTier
  trustLevel : TrustLevel
  confidence : ℚ
  reason : Str
  deriving DecidableEq

def PolicyDecision.allowed (pd : PolicyDecision) : Bool := pd.decision = .allow

variable (P : Platform)

def matrix (action : ActionSchema) (trustLevel : TrustLevel) (confidence : ℚ) : Decision × Str :=
  let risk := score action
  match action with
  | .unknown rawAction => (.block, "Unknown action '" ++ rawAction ++ "' — not in approved schema")
  | _ =>
    if trustLevel = .admin then
      (.allow, "Admin trust — " ++ label risk ++ " risk action approved")
    else if risk = .low then (.allow, "Low-risk read-only action — auto-approved")
    else if risk = .medium ∧ AUTO_APPROVE_CONFIDENCE_THRESHOLD ≤ confidence then
      (.allow, "Medium-risk action, confidence " ++ P.format2 confidence ++
        " ≥ threshold — auto-approved")
    else if risk = .medium then
      (.block, "Medium-risk action, confidence " ++ P.format2 confidence ++
        " < threshold — blocked (approval UI pending)")
    else (.block, "High-risk action from public channel — blocked")

def evaluate (action : ActionSchema) (trustLevel : TrustLevel) (confidence : ℚ) : PolicyDecision :=
  let d := matrix P action trustLevel confidence
  ⟨action, d.1, score action, trustLevel, confidence, d.2⟩

def evaluateAdmin (action : ActionSchema) : PolicyDecision := evaluate P action .admin 1

/-- A draft that still carries the fallback phrase gets the lower confidence. -/
def evaluatePublicReply (toPhone channel draft : Str) : PolicyDecision :=
  evaluate P (.autoReply toPhone channel draft) .publicCaller
    (if P.containsIgnoreCase draft "will get back to you soon" then 1 / 2 else 9 / 10)

/-- The admin gate blocks exactly what the validator could not type. -/
theorem evaluateAdmin_allowed (action : ActionSchema) :
    (evaluateAdmin P action).allowed ↔ ∀ raw, action ≠ .unknown raw := by
  cases action <;> simp [evaluateAdmin, evaluate, matrix, PolicyDecision.allowed]

end ActionPolicyEngine

end Aigentik
