import Aigentik.Core.ContactLookup
import Aigentik.Sms.AigentikNotificationListener
import Aigentik.Strings.Search

namespace Aigentik.SenderResolution

open Strings Effects ContactEngine PhoneNormalizer ContactLookup AigentikNotificationListener

variable (P : Platform) (title : Str) (s : Store) (others : Answers sig)

/-- No part of the title looks like a phone number. -/
def Unnumbered : Prop := ∀ part : Str, part <:+: title → looksLikePhoneNumber part = false

/-- The trimmed title is a name or an alias of the contact, up to case. -/
def Named (c : Contact) : Prop := ∃ name ∈ names c, P.lowercase name = P.lowercase (trim title)

instance (c : Contact) : Decidable (Named P title c) := inferInstanceAs (Decidable (∃ _ ∈ _, _))

/-- The number of a contact that the title names. -/
def OfNamed (number : Str) : Prop := ∃ c ∈ s.contacts, Named P title c ∧ ∃ phone ∈ c.phones, toE164 P phone = number

instance (number : Str) : Decidable (OfNamed P title s number) := inferInstanceAs (Decidable (∃ _ ∈ _, _))

/-- The lookups are answered from the store. -/
def reading : Answers sig
  | _, .findContact identifier => (.ok (findContact P identifier s) : Except Throwable (Option Contact))
  | h, op => others h op

/-- The sender is the title itself, or has the number of a contact that the title names. -/
def Sound : Prop := ∃ sender, (resolveSender P title).outcome (reading P s others) [] = .ok sender ∧
  (sender = title ∨ OfNamed P title s sender)

variable {P title s others}

theorem unnumbered_of_digits (h : (digits title).length < 7) : Unnumbered title := by
  intro part hpart
  have hle : (digits part).length ≤ (digits title).length := (hpart.sublist.filter isDigit).length_le
  rw [looksLikePhoneNumber, Bool.and_eq_false_iff]
  exact .inl (decide_eq_false (by omega))

theorem resolveSender_unnumbered (h : Unnumbered title) : resolveSender P title = resolveByName P title := by
  unfold resolveSender
  rw [h title List.infix_rfl, if_neg Bool.false_ne_true]
  cases hfind : phoneRegex.find title with
  | none => rfl
  | some phoneMatch =>
    dsimp only
    rw [h _ (Re.find_value_infix hfind), if_neg Bool.false_ne_true]

/-- The first phone of the contact that the lookup gives, whichever criterion saw it. -/
theorem resolveByName_outcome : (resolveByName P title).outcome (reading P s others) [] =
    .ok (((findContact P title s).bind fun c ↦ c.phones.head?).elim title (toE164 P)) := by
  change ((Prog.ofExcept (Except.ok (findContact P title s))).bind _).outcome (reading P s others) _ = _
  cases hfind : findContact P title s with
  | none => rfl
  | some c =>
    cases hphone : c.phones.head? with
    | none => simp [Prog.ofExcept, Prog.bind, hphone, Prog.outcome]
    | some phone => simp [Prog.ofExcept, Prog.bind, hphone, Prog.outcome]

/-- The title stands for a contact that it does not name exactly if the lookup gives that contact. -/
theorem resolved_sound_iff (P : Platform) (title : Str) (s : Store) (others : Answers sig)
    (hnumber : Unnumbered title) :
    Sound P title s others ↔ ∀ c, findContact P title s = some c → ∀ phone ∈ c.phones.head?,
      Named P title c ∨ toE164 P phone = title ∨ OfNamed P title s (toE164 P phone) := by
  rw [Sound, resolveSender_unnumbered hnumber, resolveByName_outcome]
  cases hfind : findContact P title s with
  | none => exact iff_of_true ⟨title, rfl, .inl rfl⟩ nofun
  | some c =>
    cases hphone : c.phones.head? with
    | none =>
      refine iff_of_true ⟨title, by rw [Option.bind_some, hphone]; rfl, .inl rfl⟩ fun c' hc' phone hfirst ↦ ?_
      obtain rfl := Option.some.inj hc'
      rw [hphone] at hfirst
      cases hfirst
    | some phone =>
      simp only [Option.bind_some, hphone, Option.elim_some, Except.ok.injEq, exists_eq_left', Option.some.injEq,
        forall_eq', Option.mem_def]
      constructor
      · exact .inr
      · intro h'
        rcases h' with hnamed | h
        · exact .inr ⟨c, List.mem_of_find?_eq_some hfind, hnamed, phone, List.mem_of_head? hphone, rfl⟩
        · exact h

/-! A stranger's title -/

def quiet : (op : Op) → sig.Resp op
  | .router (.ids op) => quietMap op
  | .router (.entries op) => quietMap op
  | .router (.dedup (.isNew ..)) => true
  | .router (.dedup (.sentTime _)) => (none : Option ℤ)
  | .router (.dedup (.markSent ..)) => ()
  | .router .currentTimeMillis | .currentTimeMillis => (0 : ℤ)
  | .router .hasContext | .router (.fire ..) | .channelIsEnabled _ => true
  | .hand _ => (.ok () : Except Throwable Unit)
  | .findContact _ => (.ok none : Except Throwable (Option Contact))
  | .onGmailNotification | .resolved .. => ()

def admin : Contact := { id := contactId 1, name := some "Annabelle", phones := ["+16502530000"] }

theorem named_sound : Sound asciiPlatform " annabelle " ⟨[admin], []⟩ fun _ ↦ quiet := by
  refine (resolved_sound_iff asciiPlatform " annabelle " ⟨[admin], []⟩ (fun _ ↦ quiet)
    (unnumbered_of_digits (by decide +kernel))).mpr fun c hc phone _ ↦ ?_
  rw [List.mem_singleton.mp (List.mem_of_find?_eq_some hc)]
  exact .inl (by decide +kernel)

/-- The title is a part of a name. -/
theorem substring_resolved : ¬Sound asciiPlatform "Ann" ⟨[admin], []⟩ fun _ ↦ quiet := by
  intro h
  obtain ⟨sender, hsender, hsound⟩ := h
  have hnumber : (resolveSender asciiPlatform "Ann").outcome (reading asciiPlatform ⟨[admin], []⟩ fun _ ↦ quiet) [] =
      .ok "+16502530000".toList := by decide +kernel
  obtain rfl := Except.ok.inj (hnumber.symm.trans hsender)
  revert hsound
  decide +kernel

end Aigentik.SenderResolution
