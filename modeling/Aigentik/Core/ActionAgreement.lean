import Aigentik.Core.MessageEngine

namespace Aigentik.ActionAgreement

open Strings Effects AgentLLMFacade ActionPolicyEngine MessageEngine ActionSchemaValidator

/-! What an action describes -/

def replyBehavior (behavior : Option Str) : Option ContactEngine.ReplyBehavior :=
  if behavior = some "never".toList then some .never
  else if behavior = some "always".toList then some .always
  else none

/-- The operation itself, with the fields of the action. -/
def Essential : ActionSchema → ActOp → Prop
  | .statusQuery _, .stateLabel => True
  | .findContact query, .findContact query' | .findContact query, .findByRelationship query'
  | .findContact query, .findAllByName query' => query' = query
  | .checkEmail _, .countUnreadBySender => True
  | .syncContacts _, .syncAndroidContacts => True
  | .setContactInstructions target instructions behavior, .setInstructions target' instructions' behavior' =>
    target' = target ∧ instructions' = instructions ∧ behavior' = replyBehavior behavior
  | .sendEmail recipient subject body, .sendEmailDirect recipient' subject' body' =>
    recipient' = recipient ∧ subject' = subject ∧ body' = body
  | _, _ => False

/-- What may go along with it: the answer to the owner, and reading the present state. -/
def Incidental : ActionSchema → ActOp → Prop
  | _, .notify _ => True
  | .statusQuery _, .channelIsEnabled _ | .statusQuery _, .contactCount | .statusQuery _, .hasAppContext
  | .statusQuery _, .isSignedIn => True
  | .checkEmail _, .hasAppContext | .checkEmail _, .isSignedIn => True
  | .syncContacts _, .hasAppContext | .syncContacts _, .contactCount => True
  | .setContactInstructions target _ _, .findContact target'
  | .setContactInstructions target _ _, .findByRelationship target' => target' = target
  | _, _ => False

def Belongs (action : ActionSchema) (op : ActOp) : Prop := Essential action op ∨ Incidental action op

/-- A world in which the operations can be performed: with an account, and a contact for every name. -/
structure Able (A : Answers actSig) : Prop where
  context : ∀ h, A h .hasAppContext = true
  signedIn : ∀ h, A h .isSignedIn = true
  contact : ∀ h identifier, ∃ contact, A h (.findContact identifier) = .ok (some contact)

/-- The program performs the action where it can, and does nothing else anywhere. -/
def Performs (action : ActionSchema) (p : Act Unit) : Prop :=
  p.Calls (Belongs action) ∧ ∀ A, Able A → ∃ op ∈ p.called A [], Essential action op

/-- The dispatcher has a branch for the action, with the same meaning, and the fields that the branch
reads are there and trimmed. -/
def Agrees (result : CommandResult) : Prop :=
  result.action ∈ ["status".toList, "check_email".toList, "read_email".toList, "list_email".toList,
    "sync_contacts".toList] ∨
  (result.action ∈ ["find_contact".toList, "get_contact_phone".toList, "contact_phone".toList,
      "phone_number".toList, "always_reply_to".toList] ∧ result.target.map trim = result.target) ∨
  (result.action = "set_contact_instructions".toList ∧ result.target.map trim = result.target ∧
    result.content ≠ none ∧ result.content.map trim = result.content)

/-! The branches -/

variable (P : Platform) (cfg : EngineConfig) {message : Message} {input : Str} {result : CommandResult}
  {action : ActionSchema}

theorem called_of_answer {α : Type} {A : Answers actSig} {h : List (Event actSig)} {op : ActOp} {r : actSig.Resp op}
    {f : actSig.Resp op → Act α} (hr : A h op = r) :
    (Prog.call op f).called A h = op :: (f r).called A (h ++ [⟨op, r⟩]) := by
  subst hr
  rfl

theorem notify_belongs (text : Str) : Belongs action (.notify text) := by
  cases action <;> exact .inr trivial

theorem status_performs (verbose : Bool) : Performs (.statusQuery verbose) (statusCommand cfg) := by
  constructor
  · apply statusCommand_calls cfg notify_belongs
    · exact .inl trivial
    · exact .inr trivial
    · exact fun _ ↦ .inr trivial
    · exact .inr trivial
    · exact .inr trivial
  · exact fun A _ ↦ ⟨.stateLabel, List.mem_cons_self, trivial⟩

theorem findContact_performs_iff {query target : Str} :
    Performs (.findContact query) (findContactCommand target) ↔ target = query := by
  constructor
  · intro h
    exact h.1.1.elim id False.elim
  · intro heq
    subst heq
    refine ⟨?_, fun A _ ↦ ⟨.findAllByName target, List.mem_cons_self, rfl⟩⟩
    exact findContactCommand_calls notify_belongs (.inl rfl) (.inl rfl) (.inl rfl)

theorem contactPhone_performs_iff {query target : Str} :
    Performs (.findContact query) (contactPhoneCommand target) ↔ target = query := by
  constructor
  · intro h
    exact h.1.1.elim id False.elim
  · intro heq
    subst heq
    refine ⟨?_, fun A _ ↦ ⟨.findContact target, List.mem_cons_self, rfl⟩⟩
    exact contactPhoneCommand_calls notify_belongs (.inl rfl) (.inl rfl) (.inl rfl)

theorem checkEmail_performs (maxResults : ℕ) : Performs (.checkEmail maxResults) checkEmailCommand := by
  constructor
  · exact checkEmailCommand_calls notify_belongs (.inr trivial) (.inr trivial) (.inl trivial)
  · intro A hA
    refine ⟨.countUnreadBySender, ?_, trivial⟩
    change _ ∈ Prog.called A (Prog.call .hasAppContext _) []
    rw [called_of_answer (hA.context _)]
    refine List.mem_cons_of_mem _ ?_
    change _ ∈ Prog.called A (Prog.call .isSignedIn _) _
    rw [called_of_answer (hA.signedIn _)]
    exact List.mem_cons_of_mem _ List.mem_cons_self

theorem syncContacts_performs (forced : Bool) : Performs (.syncContacts forced) syncContactsCommand := by
  constructor
  · exact syncContactsCommand_calls notify_belongs (.inr trivial) (.inl trivial) (.inr trivial)
  · intro A hA
    refine ⟨.syncAndroidContacts, ?_, trivial⟩
    change _ ∈ Prog.called A (Prog.call .hasAppContext _) []
    rw [called_of_answer (hA.context _)]
    exact List.mem_cons_of_mem _ List.mem_cons_self

theorem alwaysReply_performs_iff {target target' : Str} :
    Performs (.setContactInstructions target none (some "always".toList)) (alwaysReplyCommand target') ↔
      target' = target := by
  constructor
  · intro h
    exact h.1.1.elim And.left False.elim
  · intro heq
    subst heq
    have hset : Essential (.setContactInstructions target' none (some "always".toList))
        (.setInstructions target' none (some .always)) := ⟨rfl, rfl, rfl⟩
    refine ⟨?_, fun A _ ↦ ⟨_, List.mem_cons_self, hset⟩⟩
    exact alwaysReplyCommand_calls notify_belongs (.inl hset)

/-- The branch leaves instructions, where the action carries none. -/
theorem neverReply_not_performs {target target' : Str} :
    ¬Performs (.setContactInstructions target none (some "never".toList)) (neverReplyCommand target') := by
  intro h
  obtain ⟨-, hfound⟩ := h.1
  obtain ⟨hset, -⟩ := hfound (.ok (some ⟨"c1", none, [], [], [], none, "unknown", none, none, .auto, 0, "sms"⟩))
  rcases hset with ⟨-, hinstructions, -⟩ | hset
  · cases hinstructions
  · exact hset

theorem instructions_performs_iff {target target' instructions instructions' : Str} :
    Performs (.setContactInstructions target (some instructions) none) (instructionsCommand target' instructions') ↔
      target' = target ∧ instructions' = instructions := by
  constructor
  · intro h
    obtain ⟨-, hfound⟩ := h.1
    obtain ⟨hset, -⟩ := hfound (.ok (some ⟨"c1", none, [], [], [], none, "unknown", none, none, .auto, 0, "sms"⟩))
    rcases hset with ⟨htarget, hinstructions, -⟩ | hset
    · exact ⟨htarget, Option.some.inj hinstructions⟩
    · exact hset.elim
  · intro h'
    obtain ⟨rfl, rfl⟩ := h'
    have hset : Essential (.setContactInstructions target' (some instructions') none)
        (.setInstructions target' (some instructions') none) := ⟨rfl, rfl, rfl⟩
    constructor
    · exact instructionsCommand_calls notify_belongs (.inr rfl) (.inr rfl) (.inl hset)
    · intro A hA
      obtain ⟨contact, hcontact⟩ := hA.contact [] target'
      refine ⟨_, ?_, hset⟩
      change _ ∈ Prog.called A (Prog.call (.findContact target') _) []
      rw [called_of_answer hcontact]
      exact List.mem_cons_of_mem _ List.mem_cons_self

theorem sendEmail_not_performs {recipient recipient' body body' : Str} :
    ¬Performs (.sendEmail recipient "Message from Aigentik" body) (sendEmailCommand cfg recipient' body') := by
  intro h
  rcases h.1.1 with ⟨-, hsubject, -⟩ | hsend
  · have hlast := congrArg List.getLast? hsubject
    have hmessage : " message".toList.getLast? = some 'e' := by decide
    have haigentik : "Message from Aigentik".toList.getLast? = some 'k' := by decide
    rw [List.getLast?_append, hmessage, haigentik] at hlast
    cases hlast
  · exact hsend

/-! The dispatch of an allowed action -/

/-- The answers of a world with an account, and a contact for every name. -/
def serving : Answers actSig
  | _, .hasAppContext | _, .isSignedIn => true
  | _, .findContact _ => (.ok (some ⟨"c1", none, [], [], [], none, "unknown", none, none, .auto, 0, "sms"⟩) :
      Except Throwable (Option ContactEngine.Contact))
  | _, op => quiet (.act op)

theorem serving_able : Able serving := ⟨fun _ ↦ rfl, fun _ ↦ rfl, fun _ _ ↦ ⟨_, rfl⟩⟩

/-- Only the two conversations and the notices are in the default branch. -/
def Aside : ActOp → Prop
  | .notify _ | .complete _ | .sendReply .. | .routeReply .. => True
  | _ => False

theorem not_performs_aside {p : Act Unit} (hp : p.Calls Aside) : ¬Performs action p := by
  intro h
  obtain ⟨op, hop, hessential⟩ := h.2 serving serving_able
  obtain ⟨e, he, rfl⟩ := List.mem_map.mp hop
  have haside : Aside e.1 := hp.mem_events he
  obtain ⟨op, r⟩ := e
  cases op <;> first | exact haside | (cases action <;> exact hessential)

theorem notify_aside (text : Str) : (notify text).Calls Aside := act_calls trivial

theorem fallback_aside : (fallback P cfg message input).Calls Aside := by
  refine .ite (fun _ ↦ notify_aside _) fun _ ↦ .ite (fun _ ↦ notify_aside _) fun _ ↦ ?_
  refine ⟨trivial, fun outcome ↦ ⟨trivial, fun _ ↦ .ite (fun _ ↦ ?_) fun _ ↦ trivial⟩⟩
  unfold replyToSender
  split
  · exact (attempt_calls (act_calls trivial)).bind fun _ ↦ trivial
  · trivial
  · exact attempt_calls (act_calls trivial)
  · exact attempt_calls (act_calls trivial)
  · exact notify_aside _

theorem status_iff (ha : result.action = "status".toList) :
    Performs (validate result) (dispatch P cfg message input result) ↔ Agrees result := by
  have hdispatch : dispatch P cfg message input result = statusCommand cfg := by simp [dispatch, ha]
  have hvalidate : validate result = .statusQuery (result.query.elim false (contains · "verbose")) := by
    simp [validate, ha]
  have hagrees : Agrees result := .inl (by simp [ha])
  rw [hdispatch, hvalidate]
  exact iff_of_true (status_performs cfg _) hagrees

theorem checkEmail_iff (ha : result.action ∈ ["check_email".toList, "read_email".toList, "list_email".toList]) :
    Performs (validate result) (dispatch P cfg message input result) ↔ Agrees result := by
  simp only [List.mem_cons, List.not_mem_nil, or_false] at ha
  have hdispatch : dispatch P cfg message input result = checkEmailCommand := by
    rcases ha with ha | ha | ha <;> simp [dispatch, ha]
  have hvalidate : validate result = .checkEmail 10 := by rcases ha with ha | ha | ha <;> simp [validate, ha]
  have hagrees : Agrees result := .inl (by rcases ha with ha | ha | ha <;> simp [ha])
  rw [hdispatch, hvalidate]
  exact iff_of_true (checkEmail_performs 10) hagrees

theorem syncContacts_iff (ha : result.action = "sync_contacts".toList) :
    Performs (validate result) (dispatch P cfg message input result) ↔ Agrees result := by
  have hdispatch : dispatch P cfg message input result = syncContactsCommand := by simp [dispatch, ha]
  have hvalidate : validate result = .syncContacts false := by simp [validate, ha]
  have hagrees : Agrees result := .inl (by simp [ha])
  rw [hdispatch, hvalidate]
  exact iff_of_true (syncContacts_performs false) hagrees

/-- An action that is allowed, but without a branch of its own. -/
theorem undispatched_iff (ha : result.action = "check_status".toList ∨ result.action = "contact_lookup".toList) :
    Performs (validate result) (dispatch P cfg message input result) ↔ Agrees result := by
  have hdispatch : dispatch P cfg message input result = fallback P cfg message input := by
    rcases ha with ha | ha <;> simp [dispatch, ha]
  have hagrees : ¬Agrees result := by rcases ha with ha | ha <;> simp [Agrees, ha]
  rw [hdispatch]
  exact iff_of_false (not_performs_aside (fallback_aside P cfg)) hagrees

/-- A lookup, or the one setting of a contact that is taken as it is. -/
theorem agrees_target_iff (ha : result.action ∈ ["find_contact".toList, "get_contact_phone".toList,
    "contact_phone".toList, "phone_number".toList, "always_reply_to".toList]) :
    Agrees result ↔ result.target.map trim = result.target := by
  simp only [List.mem_cons, List.not_mem_nil, or_false] at ha
  rcases ha with ha | ha | ha | ha | ha <;> simp [Agrees, ha]

theorem findContact_iff (hok : ∀ raw, validate result ≠ .unknown raw) (ha : result.action = "find_contact".toList) :
    Performs (validate result) (dispatch P cfg message input result) ↔ Agrees result := by
  obtain ⟨target, htarget, hquery⟩ := target_of_allowed hok (by simp [ha])
  have hdispatch : dispatch P cfg message input result = findContactCommand target := by simp [dispatch, ha, htarget]
  have hvalidate : validate result = .findContact (trim target) := by simp [validate, ha, hquery]
  rw [hdispatch, hvalidate, findContact_performs_iff, agrees_target_iff (by simp [ha]), htarget]
  simp [eq_comm]

theorem contactPhone_iff (hok : ∀ raw, validate result ≠ .unknown raw)
    (ha : result.action ∈ ["get_contact_phone".toList, "contact_phone".toList, "phone_number".toList]) :
    Performs (validate result) (dispatch P cfg message input result) ↔ Agrees result := by
  have hagrees : Agrees result ↔ result.target.map trim = result.target := by
    refine agrees_target_iff ?_
    simp only [List.mem_cons, List.not_mem_nil, or_false] at ha ⊢
    rcases ha with ha | ha | ha <;> simp [ha]
  simp only [List.mem_cons, List.not_mem_nil, or_false] at ha
  obtain ⟨target, htarget, hquery⟩ := target_of_allowed hok (by rcases ha with ha | ha | ha <;> simp [ha])
  have hdispatch : dispatch P cfg message input result = contactPhoneCommand target := by
    rcases ha with ha | ha | ha <;> simp [dispatch, ha, htarget]
  have hvalidate : validate result = .findContact (trim target) := by
    rcases ha with ha | ha | ha <;> simp [validate, ha, hquery]
  rw [hdispatch, hvalidate, contactPhone_performs_iff, hagrees, htarget]
  simp [eq_comm]

theorem alwaysReply_iff (hok : ∀ raw, validate result ≠ .unknown raw)
    (ha : result.action = "always_reply_to".toList) :
    Performs (validate result) (dispatch P cfg message input result) ↔ Agrees result := by
  obtain ⟨target, htarget, hquery⟩ := target_of_allowed hok (by simp [ha])
  have hdispatch : dispatch P cfg message input result = alwaysReplyCommand target := by simp [dispatch, ha, htarget]
  rw [hdispatch, validate_alwaysReply ha hquery, alwaysReply_performs_iff, agrees_target_iff (by simp [ha]), htarget]
  simp [eq_comm]

theorem neverReply_iff (hok : ∀ raw, validate result ≠ .unknown raw) (ha : result.action = "never_reply_to".toList) :
    Performs (validate result) (dispatch P cfg message input result) ↔ Agrees result := by
  obtain ⟨target, htarget, hquery⟩ := target_of_allowed hok (by simp [ha])
  have hdispatch : dispatch P cfg message input result = neverReplyCommand target := by simp [dispatch, ha, htarget]
  have hagrees : ¬Agrees result := by simp [Agrees, ha]
  rw [hdispatch, validate_neverReply ha hquery]
  exact iff_of_false neverReply_not_performs hagrees

theorem instructions_iff (hok : ∀ raw, validate result ≠ .unknown raw)
    (ha : result.action = "set_contact_instructions".toList) :
    Performs (validate result) (dispatch P cfg message input result) ↔ Agrees result := by
  obtain ⟨target, htarget, hquery⟩ := target_of_allowed hok (by simp [ha])
  have hagrees : Agrees result ↔ result.target.map trim = result.target ∧ result.content ≠ none ∧
      result.content.map trim = result.content := by simp [Agrees, ha]
  cases hcontent : result.content with
  | none =>
    have hdispatch : dispatch P cfg message input result =
        notify ("What instructions should I follow for " ++ target ++ "?") := by
      simp [dispatch, ha, htarget, hcontent]
    rw [hdispatch, hagrees]
    exact iff_of_false (not_performs_aside (notify_aside _)) fun h ↦ h.2.1 hcontent
  | some instructions =>
    have hdispatch : dispatch P cfg message input result = instructionsCommand target instructions := by
      simp [dispatch, ha, htarget, hcontent]
    have hvalidate : validate result = .setContactInstructions (trim target) (some (trim instructions)) none := by
      rw [validate_instructions ha hquery, hcontent, Option.map_some]
    rw [hdispatch, hvalidate, instructions_performs_iff, hagrees, htarget, hcontent]
    simp [eq_comm]

theorem sendEmail_iff (hok : ∀ raw, validate result ≠ .unknown raw) (ha : result.action = "send_email".toList) :
    Performs (validate result) (dispatch P cfg message input result) ↔ Agrees result := by
  obtain ⟨recipient, htarget, hrecipient⟩ := target_of_allowed hok (by simp [ha])
  obtain ⟨body, hcontent, hbody⟩ := content_of_allowed hok ha
  have hdispatch : dispatch P cfg message input result = sendEmailCommand cfg recipient body := by
    simp [dispatch, ha, htarget, hcontent]
  have hagrees : ¬Agrees result := by simp [Agrees, ha]
  rw [hdispatch, validate_sendEmail ha hrecipient hbody]
  exact iff_of_false (sendEmail_not_performs cfg) hagrees

/-- For every command that the policy allows: its branch performs its action exactly when the two agree
on the name, and the branch gets the fields as the action carries them. -/
theorem dispatch_performs_iff (P : Platform) (cfg : EngineConfig) (message : Message) (input : Str)
    (result : CommandResult) (hallowed : (evaluateAdmin P (validate result)).allowed = true) :
    Performs (validate result) (dispatch P cfg message input result) ↔ Agrees result := by
  have hok : ∀ raw, validate result ≠ .unknown raw := (evaluateAdmin_allowed P _).mp hallowed
  by_cases h₁ : result.action = "status".toList
  · exact status_iff P cfg h₁
  by_cases h₂ : result.action = "check_status".toList ∨ result.action = "contact_lookup".toList
  · exact undispatched_iff P cfg h₂
  by_cases h₃ : result.action = "find_contact".toList
  · exact findContact_iff P cfg hok h₃
  by_cases h₄ : result.action ∈ ["get_contact_phone".toList, "contact_phone".toList, "phone_number".toList]
  · exact contactPhone_iff P cfg hok h₄
  by_cases h₅ : result.action ∈ ["check_email".toList, "read_email".toList, "list_email".toList]
  · exact checkEmail_iff P cfg h₅
  by_cases h₆ : result.action = "sync_contacts".toList
  · exact syncContacts_iff P cfg h₆
  by_cases h₇ : result.action = "never_reply_to".toList
  · exact neverReply_iff P cfg hok h₇
  by_cases h₈ : result.action = "always_reply_to".toList
  · exact alwaysReply_iff P cfg hok h₈
  by_cases h₉ : result.action = "set_contact_instructions".toList
  · exact instructions_iff P cfg hok h₉
  by_cases h₀ : result.action = "send_email".toList
  · exact sendEmail_iff P cfg hok h₀
  -- every other name is unknown to the validator
  obtain ⟨hcheck, hlookup⟩ := not_or.mp h₂
  have hstatus : result.action ∉ ["status".toList, "check_status".toList] := by
    simp only [List.mem_cons, List.not_mem_nil, or_false, not_or]
    exact ⟨h₁, hcheck⟩
  have hfind : result.action ∉ ["find_contact".toList, "contact_lookup".toList] := by
    simp only [List.mem_cons, List.not_mem_nil, or_false, not_or]
    exact ⟨h₃, hlookup⟩
  unfold validate at hok
  simp only [hstatus, hfind, h₄, h₅, h₆, h₇, h₈, h₉, h₀, if_false] at hok
  split at hok <;> exact (hok _ rfl).elim

def command (action target : String) (content : Option Str) : CommandResult :=
  ⟨action, some target, content, false, none⟩

def owner : EngineConfig := ⟨"+16502530000", "Owner", "Aigentik"⟩

def chat : Message where
  id := "m1"
  channel := .chat
  sender := "owner"
  senderName := none
  body := "find Ann"
  timestamp := 0

theorem find_command_performs :
    Performs (validate (command "find_contact" "Ann" none))
      (dispatch asciiPlatform owner chat "find Ann" (command "find_contact" "Ann" none)) := by
  have hvalidate : validate (command "find_contact" "Ann" none) = .findContact "Ann" := by
    simp [validate, command]
    rfl
  have hallowed : (evaluateAdmin asciiPlatform (validate (command "find_contact" "Ann" none))).allowed = true := by
    rw [hvalidate, evaluateAdmin_allowed]
    intro raw h
    cases h
  exact (dispatch_performs_iff asciiPlatform owner chat "find Ann" (command "find_contact" "Ann" none) hallowed).mpr
    (.inr (.inl ⟨by simp [command], by decide⟩))

def sendEmail : CommandResult := command "send_email" "ann@example.com" (some "hi".toList)

def lookup : CommandResult := command "contact_lookup" "Ann" none

/-- An e-mail goes out with another subject than the one that was allowed, and a lookup is answered
by the chat model. -/
theorem allowed_not_performed :
    ((evaluateAdmin asciiPlatform (validate sendEmail)).allowed = true ∧
      ¬Performs (validate sendEmail) (dispatch asciiPlatform owner chat "find Ann" sendEmail)) ∧
    ((evaluateAdmin asciiPlatform (validate lookup)).allowed = true ∧
      dispatch asciiPlatform owner chat "find Ann" lookup = fallback asciiPlatform owner chat "find Ann" ∧
      ¬Performs (validate lookup) (dispatch asciiPlatform owner chat "find Ann" lookup)) := by
  have hsend : dispatch asciiPlatform owner chat "find Ann" sendEmail =
      sendEmailCommand owner "ann@example.com" "hi" := by simp [dispatch, sendEmail, command]
  have haction : validate sendEmail = .sendEmail "ann@example.com" "Message from Aigentik" "hi" := by
    simp [validate, sendEmail, command]
    rfl
  have hlookup : dispatch asciiPlatform owner chat "find Ann" lookup =
      fallback asciiPlatform owner chat "find Ann" := by simp [dispatch, lookup, command]
  have hfind : validate lookup = .findContact "Ann" := by
    simp [validate, lookup, command]
    rfl
  refine ⟨⟨?_, ?_⟩, ?_, hlookup, ?_⟩
  · rw [haction, evaluateAdmin_allowed]
    intro raw h
    cases h
  · rw [hsend, haction]
    exact sendEmail_not_performs owner
  · rw [hfind, evaluateAdmin_allowed]
    intro raw h
    cases h
  · rw [hlookup]
    exact not_performs_aside (fallback_aside asciiPlatform owner)

end Aigentik.ActionAgreement
