import Aigentik.Core.ActionAgreement
import Aigentik.Core.ContactIdentity
import Aigentik.Core.ContactLookup
import Aigentik.Strings.Lines

namespace Aigentik.ContactCommands

open Strings Effects AgentLLMFacade ActionPolicyEngine ActionSchemaValidator MessageEngine ContactEngine ContactLookup

/-- The contacts, and what the owner has been told. -/
structure World where
  store : Store
  told : List Str

variable (P : Platform) (others : (op : ActOp) → actSig.Resp op)

def findByRelationship (relationship : Str) (s : Store) : Option Contact := s.contacts.find? (isRelated P relationship)

/-- The contact engine answers for itself, and everything else may answer anything. -/
def contactsSem : (op : ActOp) → World → actSig.Resp op × World
  | .notify text, w => ((), { w with told := w.told ++ [text] })
  | .findContact identifier, w => ((.ok (findContact P identifier w.store) : Except Throwable (Option Contact)), w)
  | .findByRelationship relationship, w =>
    ((.ok (findByRelationship P relationship w.store) : Except Throwable (Option Contact)), w)
  | .setInstructions identifier instructions behavior, w =>
    ((.ok () : Except Throwable Unit), { w with store := setInstructions P identifier instructions behavior w.store })
  | op, w => (others op, w)

/-- The contact that a target stands for. -/
def matched (target : Str) (s : Store) : Option Contact := findContact P target s <|> findByRelationship P target s

def Matches (target : Str) (c : Contact) : Prop := isFoundBy P target c = true ∨ isRelated P target c = true

instance (target : Str) (c : Contact) : Decidable (Matches P target c) := inferInstanceAs (Decidable (_ ∨ _))

/-- The report of success, with the name in it. -/
def report (result : CommandResult) (name : Str) : Str :=
  if result.action = "never_reply_to".toList then "Will never reply to " ++ name ++ "."
  else if result.action = "always_reply_to".toList then "Will always auto-reply to " ++ name ++ "."
  else "Instructions set for " ++ name ++ ":\n\"" ++ result.content.getD [] ++ "\""

def shown (result : CommandResult) (target : Str) (c : Contact) : Str :=
  if result.action = "always_reply_to".toList then target else c.name.getD target

/-- The contact as the command wants it. -/
def requested (result : CommandResult) (c : Contact) : Contact :=
  if result.action = "never_reply_to".toList then
    { c with instructions := some "never reply".toList, replyBehavior := .never }
  else if result.action = "always_reply_to".toList then { c with replyBehavior := .always }
  else { c with instructions := result.content }

variable (cfg : EngineConfig) (message : Message) (input : Str) (result : CommandResult) (target : Str) (s : Store)

def handled : World := ((gate P cfg message input result).exec (contactsSem P others) ⟨s, []⟩).2

/-- A report of success is about a contact that the target stands for, and that now is as requested,
alone of all contacts and rows. Without such a contact nothing happens. -/
def Truthful : Prop :=
  let after := handled P others cfg message input result s
  (∀ name, report result name ∈ after.told → ∃ i c, s.contacts[i]? = some c ∧ Matches P target c ∧
    name = shown result target c ∧
    after.store.contacts = s.contacts.set i (requested result c) ∧
    after.store.room = s.room.filter (fun e ↦ e.id ≠ c.id) ++ [(requested result c).toEntity]) ∧
  ((∀ c ∈ s.contacts, ¬Matches P target c) → after.store = s ∧ ∀ name, report result name ∉ after.told)

variable {P others cfg message input result target s} {w : World}

/-! The lookups -/

theorem matched_eq_none : matched P target s = none ↔ ∀ c ∈ s.contacts, ¬Matches P target c := by
  simp only [matched, Option.orElse_eq_orElse, Option.orElse_eq_or, Option.or_eq_none_iff, findContact,
    findByRelationship, List.find?_eq_none, Matches, not_or]
  exact ⟨fun h c hc ↦ ⟨h.1 c hc, h.2 c hc⟩, fun h ↦ ⟨fun c hc ↦ (h c hc).1, fun c hc ↦ (h c hc).2⟩⟩

theorem exec_findByAnyOf :
    (findByAnyOf target).exec (contactsSem P others) w = (.ok (matched P target w.store), w) := by
  change ((Prog.ofExcept (Except.ok (findContact P target w.store)) : Act (Option Contact)).bind _).exec
    (contactsSem P others) w = _
  rw [matched]
  cases hfind : findContact P target w.store with
  | some c => rfl
  | none => rfl

theorem matches_of_matched {c : Contact} (h : matched P target s = some c) : Matches P target c := by
  simp only [matched, Option.orElse_eq_orElse, Option.orElse_eq_or, Option.or_eq_some_iff] at h
  rcases h with h | ⟨-, h⟩
  · exact .inl (List.find?_some h)
  · exact .inr (List.find?_some h)

/-- The engine's own lookup is that of the handler. -/
theorem setInstructions_matched (instructions : Option Str) (behavior : Option ReplyBehavior) {c : Contact}
    (h : matched P target s = some c) : ∃ i, s.contacts[i]? = some c ∧
      setInstructions P target instructions behavior s = changeContact i (instructed instructions behavior) s := by
  cases hfind : findContact P target s with
  | some c' =>
    obtain rfl : c' = c := by simpa [matched, hfind] using h
    exact setInstructions_of_find instructions behavior hfind
  | none =>
    have hrelated : s.contacts.find? (isRelated P target) = some c := by
      simpa [matched, hfind, findByRelationship] using h
    rw [List.find?_eq_bind_findIdx?_getElem?] at hrelated
    obtain ⟨i, hi, hc⟩ := Option.bind_eq_some_iff.mp hrelated
    refine ⟨i, hc, ?_⟩
    rw [setInstructions, ContactIdentity.findContact_eq_none.mp hfind, hi]
    rfl

theorem setInstructions_unmatched (instructions : Option Str) (behavior : Option ReplyBehavior)
    (h : matched P target s = none) : setInstructions P target instructions behavior s = s := by
  simp only [matched, Option.orElse_eq_orElse, Option.orElse_eq_or, Option.or_eq_none_iff] at h
  have hrelated : s.contacts.findIdx? (isRelated P target) = none := by
    have hnone := h.2
    rw [findByRelationship, List.find?_eq_none] at hnone
    rw [List.findIdx?_eq_none_iff]
    exact fun c hc ↦ Bool.eq_false_iff.mpr (hnone c hc)
  rw [setInstructions, ContactIdentity.findContact_eq_none.mp h.1, hrelated]
  rfl

/-! The reports -/

theorem report_injective : Function.Injective (report result) := by
  intro name name' h
  unfold report at h
  split at h
  · exact List.append_cancel_left (List.append_cancel_right h)
  · split at h
    · exact List.append_cancel_left (List.append_cancel_right h)
    · have hname := List.append_cancel_right (List.append_cancel_right (List.append_cancel_right h))
      exact List.append_cancel_left hname

variable (result) in
theorem report_head (name : Str) : (report result name).head? =
    some (if result.action ∈ ["never_reply_to".toList, "always_reply_to".toList] then 'W' else 'I') := by
  unfold report
  by_cases hnever : result.action = "never_reply_to".toList
  · rw [if_pos hnever, if_pos (by simp [hnever])]
    rfl
  · by_cases halways : result.action = "always_reply_to".toList
    · rw [if_neg hnever, if_pos halways, if_pos (by simp [halways])]
      rfl
    · rw [if_neg hnever, if_neg halways, if_neg (List.mem_pair.not.mpr (not_or.mpr ⟨hnever, halways⟩))]
      rfl

theorem report_ne {text : Str} (h : text.head? = some 'A' ∨ text.head? = some 'C') (name : Str) :
    report result name ≠ text := by
  intro heq
  subst heq
  rw [report_head] at h
  split at h <;> simp at h

/-! What a command comes to -/

theorem requested_id (c : Contact) : (requested result c).id = c.id := by
  unfold requested
  split
  · rfl
  · split <;> rfl

/-- Nothing happens, and the owner is told something else. -/
def Declined (result : CommandResult) (s : Store) (after : World) : Prop :=
  after.store = s ∧ ∀ name, report result name ∉ after.told

/-- The contact that the target stands for is changed, and the report names it. -/
def Done (P : Platform) (result : CommandResult) (target : Str) (s : Store) (after : World) : Prop :=
  ∃ i c, s.contacts[i]? = some c ∧ matched P target s = some c ∧
    after = ⟨changeContact i (requested result) s, [report result (shown result target c)]⟩

theorem declined {text : Str} (h : ∀ name, report result name ≠ text) : Declined result s ⟨s, [text]⟩ :=
  ⟨rfl, fun name hname ↦ h name (List.mem_singleton.mp hname)⟩

theorem neverReply_exec (ha : result.action = "never_reply_to".toList) {after : World}
    (h : after = ((neverReplyCommand target).exec (contactsSem P others) ⟨s, []⟩).2) :
    Declined result s after ∨ Done P result target s after := by
  subst h
  rw [neverReplyCommand, Prog.exec_bind_ok exec_findByAnyOf]
  cases hc : matched P target s with
  | none => exact .inl (declined (report_ne (.inr rfl)))
  | some c =>
    obtain ⟨i, hi, hset⟩ := setInstructions_matched (some "never reply".toList) (some .never) hc
    have hrequested : requested result = instructed (some "never reply".toList) (some .never) := by
      funext c
      rw [requested, if_pos ha]
      rfl
    refine .inr ⟨i, c, hi, hc, ?_⟩
    rw [hrequested, ← hset, report, if_pos ha, shown, if_neg (by rw [ha]; decide)]
    rfl

theorem instructions_exec (ha : result.action = "set_contact_instructions".toList) {instructions : Str}
    (hcontent : result.content = some instructions) {after : World}
    (h : after = ((instructionsCommand target instructions).exec (contactsSem P others) ⟨s, []⟩).2) :
    Declined result s after ∨ Done P result target s after := by
  subst h
  rw [instructionsCommand, Prog.exec_bind_ok exec_findByAnyOf]
  cases hc : matched P target s with
  | none => exact .inl (declined (report_ne (.inr rfl)))
  | some c =>
    obtain ⟨i, hi, hset⟩ := setInstructions_matched (some instructions) none hc
    have hnever : result.action ≠ "never_reply_to".toList := by rw [ha]; decide
    have halways : result.action ≠ "always_reply_to".toList := by rw [ha]; decide
    have hrequested : requested result = instructed (some instructions) none := by
      funext c
      rw [requested, if_neg hnever, if_neg halways, hcontent]
      rfl
    refine .inr ⟨i, c, hi, hc, ?_⟩
    rw [hrequested, ← hset, report, if_neg hnever, if_neg halways, hcontent, shown, if_neg halways]
    rfl

variable (P others target s) in
/-- The one command that does not look whether there is such a contact. -/
theorem alwaysReply_exec (ha : result.action = "always_reply_to".toList) {after : World}
    (h : after = ((alwaysReplyCommand target).exec (contactsSem P others) ⟨s, []⟩).2) :
    Done P result target s after ∨ (matched P target s = none ∧ after = ⟨s, [report result target]⟩) := by
  have hnever : result.action ≠ "never_reply_to".toList := by rw [ha]; decide
  have hafter : after = ⟨setInstructions P target none (some .always) s, [report result target]⟩ := by
    rw [h, report, if_neg hnever, if_pos ha]
    rfl
  rw [hafter]
  cases hc : matched P target s with
  | none => exact .inr ⟨rfl, by rw [setInstructions_unmatched none (some .always) hc]⟩
  | some c =>
    obtain ⟨i, hi, hset⟩ := setInstructions_matched none (some .always) hc
    have hrequested : requested result = instructed none (some .always) := by
      funext c
      rw [requested, if_neg hnever, if_pos ha]
      rfl
    refine .inl ⟨i, c, hi, hc, ?_⟩
    rw [hrequested, ← hset, shown, if_pos ha]

theorem handled_eq : handled P others cfg message input result s =
    if (evaluateAdmin P (validate result)).allowed then
      ((dispatch P cfg message input result).exec (contactsSem P others) ⟨s, []⟩).2
    else ⟨s, ["Action blocked by policy: " ++ (evaluateAdmin P (validate result)).reason]⟩ := by
  change (Prog.exec (contactsSem P others) (if (evaluateAdmin P (validate result)).allowed then
    dispatch P cfg message input result else notify _) ⟨s, []⟩).2 = _
  split <;> rfl

theorem alwaysReply_allowed (ha : result.action = "always_reply_to".toList) (ht : result.target = some target) :
    (evaluateAdmin P (validate result)).allowed = true ↔ isBlank target = false := by
  rw [evaluateAdmin_allowed]
  cases hblank : isBlank target with
  | true =>
    have hvalidate : validate result = .unknown result.action := by
      unfold validate required
      simp only [ha, ht, isBlank_trim, hblank]
      rfl
    exact iff_of_false (fun h ↦ h _ hvalidate) Bool.noConfusion
  | false =>
    have hvalidate : validate result = .setContactInstructions (trim target) none (some "always".toList) := by
      unfold validate required
      simp only [ha, ht, isBlank_trim, hblank]
      rfl
    refine iff_of_true (fun raw h ↦ ?_) rfl
    rw [hvalidate] at h
    cases h

variable (P others cfg message input s) in
theorem handled_cases (ha : result.action ∈ ["never_reply_to".toList, "always_reply_to".toList,
    "set_contact_instructions".toList]) (ht : result.target = some target) :
    (result.action = "always_reply_to".toList ∧ isBlank target = false ∧ matched P target s = none ∧
      handled P others cfg message input result s = ⟨s, [report result target]⟩) ∨
    ((result.action = "always_reply_to".toList → isBlank target = false → matched P target s ≠ none) ∧
      (Declined result s (handled P others cfg message input result s) ∨
        Done P result target s (handled P others cfg message input result s))) := by
  rw [handled_eq]
  cases hallowed : (evaluateAdmin P (validate result)).allowed with
  | false =>
    refine .inr ⟨fun halways hblank ↦ ?_, .inl (declined (report_ne (.inl rfl)))⟩
    rw [(alwaysReply_allowed halways ht).mpr hblank] at hallowed
    cases hallowed
  | true =>
    rw [if_pos rfl]
    simp only [List.mem_cons, List.not_mem_nil, or_false] at ha
    rcases ha with ha | ha | ha
    · have hdispatch : dispatch P cfg message input result = neverReplyCommand target := by simp [dispatch, ha, ht]
      rw [hdispatch]
      exact .inr ⟨fun halways ↦ absurd (ha.symm.trans halways) (by decide), neverReply_exec ha rfl⟩
    · have hdispatch : dispatch P cfg message input result = alwaysReplyCommand target := by simp [dispatch, ha, ht]
      rw [hdispatch]
      rcases alwaysReply_exec P others target s ha rfl with hdone | ⟨hnone, hafter⟩
      · refine .inr ⟨fun _ _ ↦ ?_, .inr hdone⟩
        obtain ⟨i, c, -, hc, -⟩ := hdone
        rw [hc]
        exact Option.some_ne_none c
      · exact .inl ⟨ha, (alwaysReply_allowed ha ht).mp hallowed, hnone, hafter⟩
    · refine .inr ⟨fun halways ↦ absurd (ha.symm.trans halways) (by decide), ?_⟩
      cases hcontent : result.content with
      | none =>
        have hdispatch : dispatch P cfg message input result =
            notify ("What instructions should I follow for " ++ target ++ "?") := by
          simp [dispatch, ha, ht, hcontent]
        rw [hdispatch]
        refine .inl (declined fun name heq ↦ ?_)
        have hhead := report_head result name
        rw [heq, ha, if_neg (by decide)] at hhead
        cases hhead
      | some instructions =>
        have hdispatch : dispatch P cfg message input result = instructionsCommand target instructions := by
          simp [dispatch, ha, ht, hcontent]
        rw [hdispatch]
        exact instructions_exec ha hcontent rfl

def silence : CommandResult := ActionAgreement.command "never_reply_to" "Ann" none

def always : CommandResult := ActionAgreement.command "always_reply_to" "Bob" none

abbrev quietly (op : ActOp) : actSig.Resp op := quiet (.act op)

end Aigentik.ContactCommands
