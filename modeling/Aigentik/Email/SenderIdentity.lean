import Aigentik.Core.MessageEngine
import Aigentik.Effects.History
import Aigentik.Email.EmailMonitor

namespace Aigentik.SenderIdentity

open Strings Effects GmailApiClient EmailRouter EmailMonitor

variable (P : Platform)

def handed (A : Answers mailSig) (h : List (Event mailSig)) (email : ParsedEmail) : List Message :=
  ((processEmail P email).called A h).filterMap fun
    | .hand message => some message
    | _ => none

/-- The subject passes for that of an individual Google Voice text, and the
number in it is not the address the e-mail came from. -/
def NamesAnotherSender (email : ParsedEmail) : Prop :=
  isGoogleVoiceText email.subject = true ∧
    ∃ phone, subjectPhone email.subject = some phone ∧ phone ≠ email.fromEmail

def HandsFrom (sender : Str) : MailOp → Prop
  | .hand message => message.sender = sender
  | _ => True

variable {P} {email : ParsedEmail}

theorem processEmail_hands {sender : Str}
    (hgv : ∀ gvm, isGoogleVoiceText email.subject = true → parseGoogleVoiceEmail email = some gvm →
      gvm.senderPhone = sender)
    (hmail : isGoogleVoiceText email.subject = false → email.fromEmail = sender) :
    (processEmail P email).Calls (HandsFrom sender) :=
  calls_processEmail (fun _ ↦ trivial) trivial (fun _ ↦ trivial) (fun gvm _ ↦ hgv gvm) fun _ ↦ hmail

theorem sender_of_handed {A : Answers mailSig} {h : List (Event mailSig)} {message : Message}
    (hnames : ¬NamesAnotherSender email) (hm : message ∈ handed P A h email) :
    message.sender = email.fromEmail := by
  have hcalls : (processEmail P email).Calls (HandsFrom email.fromEmail) := by
    refine processEmail_hands (fun gvm hsubject hparse ↦ ?_) fun _ ↦ rfl
    rw [senderPhone_eq hparse]
    cases hphone : subjectPhone email.subject with
    | none => rfl
    | some phone =>
      by_contra hne
      exact hnames ⟨hsubject, phone, hphone, hne⟩
  obtain ⟨op, hop, hhand⟩ := List.mem_filterMap.mp hm
  obtain ⟨e, he, rfl⟩ := List.mem_map.mp hop
  have hC := hcalls.mem_events he
  split at hhand
  · rename_i heq
    cases hhand
    rwa [heq] at hC
  · cases hhand

/-- In a world with the channel on, an e-mail that names another sender is
handed over as that sender's. -/
theorem handed_as_named {phone : Str} (hsubject : isGoogleVoiceText email.subject = true)
    (hphone : subjectPhone email.subject = some phone) :
    ∃ message ∈ handed P (fun _ ↦ quietMail) [] email, message.sender = phone := by
  obtain ⟨gvm, hparse⟩ := Option.isSome_iff_exists.mp (parseGoogleVoiceEmail_isSome hphone)
  refine ⟨buildGVoiceMessage gvm 0, ?_, ?_⟩
  · simp [handed, processEmail, hsubject, hparse, processGVoiceText, storeGVoiceContext, storeCapped, evict,
      mailAttempt, Prog.called, Prog.events, Prog.lift, quietMail, quietMap]
  · simp [buildGVoiceMessage, senderPhone_eq hparse, hphone]

/-- Whatever the world answers, two e-mails from one address are handed over
under that address, exactly if neither subject names another sender. -/
theorem sender_is_from_iff {e₁ e₂ : ParsedEmail} (hfrom : e₁.fromEmail = e₂.fromEmail) :
    (∀ A h message, message ∈ handed P A h e₁ ∨ message ∈ handed P A h e₂ →
      message.sender = e₁.fromEmail) ↔ ¬NamesAnotherSender e₁ ∧ ¬NamesAnotherSender e₂ := by
  constructor
  · intro H
    refine ⟨fun hnames ↦ ?_, fun hnames ↦ ?_⟩
    · obtain ⟨hsubject, phone, hphone, hne⟩ := hnames
      obtain ⟨message, hm, hsender⟩ := handed_as_named (P := P) hsubject hphone
      have heq := H _ _ message (.inl hm)
      exact hne (hsender.symm.trans heq)
    · obtain ⟨hsubject, phone, hphone, hne⟩ := hnames
      obtain ⟨message, hm, hsender⟩ := handed_as_named (P := P) hsubject hphone
      have heq := H _ _ message (.inr hm)
      exact hne (hsender.symm.trans (heq.trans hfrom))
  · intro hnames A h message hm
    rcases hm with hm | hm
    · exact sender_of_handed hnames.1 hm
    · rw [hfrom]
      exact sender_of_handed hnames.2 hm

/-! Mail from one stranger -/

def ordinary : ParsedEmail := ⟨"<1@example.com>", "1", "t1", "mallory@example.com", "Mallory", "hi", "hello", true⟩

def forged : ParsedEmail :=
  ⟨"<2@example.com>", "2", "t2", "mallory@example.com", "Mallory",
    "New text message from Boss (650) 253-0000", "status", true⟩

def answered : ParsedEmail := ⟨"<3@example.com>", "3", "t1", "mallory@example.com", "M.", "Re: hi", "bye", true⟩

theorem ordinary_sender_is_from : ordinary.fromEmail = answered.fromEmail ∧
    ∀ A h message, message ∈ handed asciiPlatform A h ordinary ∨
      message ∈ handed asciiPlatform A h answered → message.sender = ordinary.fromEmail := by
  have hfrom : ordinary.fromEmail = answered.fromEmail := rfl
  have h₁ : ¬NamesAnotherSender ordinary := fun h ↦ absurd h.1 (by decide)
  have h₂ : ¬NamesAnotherSender answered := fun h ↦ absurd h.1 (by decide)
  exact ⟨hfrom, (sender_is_from_iff hfrom).mpr ⟨h₁, h₂⟩⟩

/-- One subject makes the stranger's mail a text from the admin's number. -/
theorem forged_as_admin : ordinary.fromEmail = forged.fromEmail ∧
    ((handed asciiPlatform (fun _ ↦ quietMail) [] ordinary).map Message.sender =
      ["mallory@example.com".toList] ∧
    (handed asciiPlatform (fun _ ↦ quietMail) [] forged).map Message.sender =
      ["+16502530000".toList]) ∧
    MessageEngine.isAdminNumber ⟨"+16502530000", "Owner", "Aigentik"⟩ "+16502530000" = true := by
  decide +kernel

end Aigentik.SenderIdentity
