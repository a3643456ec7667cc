import Aigentik.Core.ContactEngine

namespace Aigentik.ContactIdentity

open Strings ContactEngine PhoneNormalizer

variable (P : Platform)

def isNamed (identifier : Str) : Prop := trim (P.lowercase identifier) ≠ []

/-- A key that is not empty belongs to the identifier and to the contact: the last ten
digits, the address, or a name or alias that contains the identifier. -/
def Shares (identifier : Str) (c : Contact) : Prop :=
  let lower := trim (P.lowercase identifier)
  (lastTen identifier ≠ [] ∧ ∃ phone ∈ c.phones, lastTen phone = lastTen identifier) ∨
    (lower ≠ [] ∧ ((∃ email ∈ c.emails, P.lowercase email = lower) ∨
      (∃ name ∈ c.name.toList, contains (P.lowercase name) lower) ∨
      ∃ a ∈ c.aliases, contains (P.lowercase a) lower))

instance (identifier : Str) : Decidable (isNamed P identifier) := inferInstanceAs (Decidable (_ ≠ _))

instance (identifier : Str) (c : Contact) : Decidable (Shares P identifier c) :=
  inferInstanceAs (Decidable (_ ∨ _))

def HasDigits (c : Contact) : Prop := ∀ phone ∈ c.phones, lastTen phone ≠ []

/-- No contact is created for a sender without digits. -/
def Numbered : Operation → Store → Prop
  | .findOrCreateByPhone phone _, s => lastTen phone ≠ [] ∨ findContact P phone s ≠ none
  | _, _ => True

def AllNumbered : List Operation → Store → Prop
  | [], _ => True
  | op :: ops, s => Numbered P op s ∧ AllNumbered ops (operate P op s)

/-- Where the contact stands that `findOrCreateByPhone` returns. -/
def place (phone : Str) (s : Store) : ℕ := (s.contacts.findIdx? (isFoundBy P phone)).getD s.contacts.length

variable {P} {identifier : Str} {c c' : Contact} {s s' : Store} {op : Operation}

theorem contains_self (s : Str) : contains s s := contains_of_infix List.infix_rfl

theorem shares_of_isFoundBy (hnamed : isNamed P identifier) (hdigits : HasDigits c)
    (h : isFoundBy P identifier c = true) : Shares P identifier c := by
  simp only [isFoundBy, Bool.or_eq_true, List.any_eq_true, decide_eq_true_eq, Option.any_eq_true] at h
  rcases h with ((((⟨phone, hphone, heq⟩ | ⟨email, hemail, heq⟩) | ⟨name, hname, heq⟩) | ⟨name, hname, hsub⟩) |
    ⟨a, ha, heq⟩) | ⟨a, ha, hsub⟩
  · exact .inl ⟨heq ▸ hdigits phone hphone, phone, hphone, heq⟩
  · exact .inr ⟨hnamed, .inl ⟨email, hemail, heq⟩⟩
  · exact .inr ⟨hnamed, .inr (.inl ⟨name, by simp [hname], heq ▸ contains_self _⟩)⟩
  · exact .inr ⟨hnamed, .inr (.inl ⟨name, by simp [hname], hsub⟩)⟩
  · exact .inr ⟨hnamed, .inr (.inr ⟨a, ha, heq ▸ contains_self _⟩)⟩
  · exact .inr ⟨hnamed, .inr (.inr ⟨a, ha, hsub⟩)⟩

theorem Shares.extends (h : Shares P identifier c) (hext : Extends c c') : Shares P identifier c' := by
  rcases h with ⟨hdigits, phone, hphone, heq⟩ | ⟨hnamed, ⟨email, hemail, heq⟩ | ⟨name, hname, hsub⟩ | ⟨a, ha, hsub⟩⟩
  · exact .inl ⟨hdigits, phone, hext.phones ▸ hphone, heq⟩
  · exact .inr ⟨hnamed, .inl ⟨email, hext.emails ▸ hemail, heq⟩⟩
  · have hname' := hext.name name (by simpa using hname)
    exact .inr ⟨hnamed, .inr (.inl ⟨name, by simpa using hname', hsub⟩)⟩
  · exact .inr ⟨hnamed, .inr (.inr ⟨a, hext.aliases a ha, hsub⟩)⟩

/-! What the operations keep -/

def Digits (s : Store) : Prop := ∀ (i : ℕ) (c : Contact), s.contacts[i]? = some c → HasDigits c

/-- Every contact keeps its place and its keys. -/
def Grows (s s' : Store) : Prop :=
  ∀ (i : ℕ) (c : Contact), s.contacts[i]? = some c → ∃ c', s'.contacts[i]? = some c' ∧ Extends c c'

theorem Grows.refl (s : Store) : Grows s s := fun _ c hc ↦ ⟨c, hc, .refl c⟩

theorem Grows.add (h : Grows s s') (c : Contact) : Grows s (addContact c s') := by
  intro i c₀ hc₀
  obtain ⟨c', hc', hext⟩ := h i c₀ hc₀
  refine ⟨c', ?_, hext⟩
  change (s'.contacts ++ [c])[i]? = some c'
  rw [List.getElem?_append_left (List.getElem?_eq_some_iff.mp hc').1, hc']

theorem Grows.change (h : Grows s s') {i : ℕ} {f : Contact → Contact} (hf : ∀ c, Extends c (f c)) :
    Grows s (changeContact i f s') := by
  intro j c₀ hc₀
  obtain ⟨c', hc', hext⟩ := h j c₀ hc₀
  rw [changeContact_getElem?, hc']
  by_cases hj : j = i
  · exact ⟨f c', by rw [if_pos hj]; rfl, hext.trans (hf c')⟩
  · exact ⟨c', by rw [if_neg hj]; rfl, hext⟩

theorem operate_grows (op : Operation) (s : Store) : Grows s (operate P op s) :=
  operate_induction (Grows.refl s) (fun c _ _ h ↦ h.add c) fun _ _ _ hf h ↦ h.change hf

theorem Grows.trans {s'' : Store} (h : Grows s s') (h' : Grows s' s'') : Grows s s'' := by
  intro i c hc
  obtain ⟨c', hc', hext⟩ := h i c hc
  obtain ⟨c'', hc'', hext'⟩ := h' i c' hc'
  exact ⟨c'', hc'', hext.trans hext'⟩

theorem run_grows (ops : List Operation) (s : Store) : Grows s (run P ops s) := by
  induction ops generalizing s with
  | nil => exact Grows.refl s
  | cons op ops ih => exact (operate_grows op s).trans (ih _)

theorem Digits.add (h : Digits s) (hc : HasDigits c) : Digits (addContact c s) := by
  intro i c₀ hc₀
  rcases List.mem_append.mp (List.mem_of_getElem? hc₀) with hmem | hmem
  · obtain ⟨j, hj⟩ := List.mem_iff_getElem?.mp hmem
    exact h j c₀ hj
  · rw [List.mem_singleton.mp hmem]
    exact hc

theorem Digits.change (h : Digits s) {i : ℕ} {f : Contact → Contact} (hf : ∀ c, Extends c (f c)) :
    Digits (changeContact i f s) := by
  intro j c₀ hc₀
  rw [changeContact_getElem?] at hc₀
  obtain ⟨c, hc, heq⟩ := Option.map_eq_some_iff.mp hc₀
  have hphones : c₀.phones = c.phones := by
    rw [← heq]
    split
    · exact (hf c).phones
    · rfl
  intro phone hphone
  exact h j c hc phone (hphones ▸ hphone)

theorem digits_of_adds (hadds : Adds P op c) (hop : ∀ phone now, op = .findOrCreateByPhone phone now →
    lastTen phone ≠ []) : HasDigits c := by
  intro phone hphone
  cases op with
  | findOrCreateByPhone number now =>
    obtain rfl := hadds
    rw [List.mem_singleton.mp hphone]
    exact hop number now rfl
  | findOrCreateByEmail email now =>
    obtain rfl := hadds
    cases hphone
  | setInstructions => exact hadds.elim
  | syncAndroidContacts rows =>
    obtain ⟨row, -, name, number, added, -, hlength, rfl⟩ := hadds
    rw [List.mem_singleton.mp hphone]
    exact List.ne_nil_of_length_pos (Nat.lt_of_lt_of_le (by decide) hlength)

theorem operate_digits (h : Digits s) (hop : Numbered P op s) : Digits (operate P op s) := by
  by_cases hlost : ∃ phone now, op = .findOrCreateByPhone phone now ∧ lastTen phone = []
  · -- the sender is one that the store knows
    obtain ⟨phone, now, rfl, hempty⟩ := hlost
    have hfound := hop.resolve_left (not_not.mpr hempty)
    obtain ⟨c, hc⟩ := Option.ne_none_iff_exists'.mp hfound
    simp only [operate, findOrCreateByPhone, hc]
    exact h
  · refine operate_induction h (fun c _ hadds h ↦ h.add (digits_of_adds hadds fun phone now heq hempty ↦ ?_))
      fun _ _ _ hf h ↦ h.change hf
    exact hlost ⟨phone, now, heq, hempty⟩

theorem run_digits {ops : List Operation} (h : Digits s) (hops : AllNumbered P ops s) : Digits (run P ops s) := by
  induction ops generalizing s with
  | nil => exact h
  | cons op ops ih => exact ih (operate_digits h hops.1) hops.2

theorem run_append (before after : List Operation) (s : Store) :
    run P (before ++ after) s = run P after (run P before s) :=
  List.foldl_append ..

theorem allNumbered_append {before after : List Operation} :
    AllNumbered P (before ++ after) s ↔ AllNumbered P before s ∧ AllNumbered P after (run P before s) := by
  induction before generalizing s with
  | nil => exact (iff_of_eq (true_and _)).symm
  | cons op before ih =>
    change Numbered P op s ∧ AllNumbered P (before ++ after) (operate P op s) ↔ _
    rw [ih, ← and_assoc]
    rfl

theorem digits_load {room : List ContactEntity} (h : ∀ e ∈ room, HasDigits e.toContact) :
    Digits (loadFromRoom room) := by
  intro i c hc
  obtain ⟨e, he, rfl⟩ := List.mem_map.mp (List.mem_of_getElem? hc)
  exact h e he

/-! The contact that a call returns -/

theorem findContact_eq_none : findContact P identifier s = none ↔
    s.contacts.findIdx? (isFoundBy P identifier) = none := by
  rw [findContact, List.find?_eq_none, List.findIdx?_eq_none_iff]
  simp

theorem findOrCreateByPhone_place (phone : Str) (now : ℕ) (s : Store) :
    (findOrCreateByPhone P phone now s).2.contacts[place P phone s]? = some (findOrCreateByPhone P phone now s).1 := by
  unfold findOrCreateByPhone place
  cases hfound : findContact P phone s with
  | none =>
    rw [findContact_eq_none.mp hfound]
    exact List.getElem?_concat_length
  | some c =>
    rw [findContact, List.find?_eq_bind_findIdx?_getElem?] at hfound
    obtain ⟨i, hi, hc⟩ := Option.bind_eq_some_iff.mp hfound
    rw [hi]
    exact hc

theorem shares_of_find (hdigits : Digits s) (hnamed : isNamed P identifier)
    (hfound : findContact P identifier s = some c) : Shares P identifier c := by
  obtain ⟨i, hi⟩ := List.mem_iff_getElem?.mp (List.mem_of_find?_eq_some hfound)
  exact shares_of_isFoundBy hnamed (hdigits i c hi) (List.find?_some hfound)

theorem shares_of_call {phone : Str} {now : ℕ} (hdigits : Digits s) (hnamed : isNamed P phone)
    (hop : Numbered P (.findOrCreateByPhone phone now) s) : Shares P phone (findOrCreateByPhone P phone now s).1 := by
  unfold findOrCreateByPhone
  cases hfound : findContact P phone s with
  | some c => exact shares_of_find hdigits hnamed hfound
  | none =>
    have hlast : lastTen phone ≠ [] := hop.resolve_right (not_not.mpr hfound)
    exact .inl ⟨hlast, phone, List.mem_singleton.mpr rfl, rfl⟩

theorem shares_after {phone : Str} {now : ℕ} (hdigits : Digits s) (hnamed : isNamed P phone)
    (hop : Numbered P (.findOrCreateByPhone phone now) s) (after : List Operation) :
    ∃ c, (run P (.findOrCreateByPhone phone now :: after) s).contacts[place P phone s]? = some c ∧
      Shares P phone c := by
  obtain ⟨c, hc, hext⟩ := run_grows (P := P) after (findOrCreateByPhone P phone now s).2 _ _
    (findOrCreateByPhone_place phone now s)
  exact ⟨c, hc, (shares_of_call hdigits hnamed hop).extends hext⟩

/-- A store in which every number has digits, and senders that are found or have digits. -/
theorem sound_identity {room : List ContactEntity} {ops : List Operation}
    (hroom : ∀ e ∈ room, HasDigits e.toContact) (hops : AllNumbered P ops (loadFromRoom room)) :
    (∀ identifier c, isNamed P identifier → findContact P identifier (run P ops (loadFromRoom room)) = some c →
      Shares P identifier c) ∧
    ∀ before between a b now now', isNamed P a → isNamed P b →
      ops = before ++ .findOrCreateByPhone a now :: between ++ [.findOrCreateByPhone b now'] →
      (∀ c ∈ (run P ops (loadFromRoom room)).contacts, ¬ (Shares P a c ∧ Shares P b c)) →
      place P a (run P before (loadFromRoom room)) ≠
        place P b (run P (before ++ .findOrCreateByPhone a now :: between) (loadFromRoom room)) := by
  have hload := digits_load hroom
  refine ⟨fun identifier c hnamed ↦ shares_of_find (run_digits hload hops) hnamed, ?_⟩
  intro before between a b now now' ha hb heq hdistinct hplace
  subst heq
  rw [allNumbered_append] at hops
  obtain ⟨hfirst, hsecond, -⟩ := hops
  have hbefore := allNumbered_append.mp hfirst
  obtain ⟨c, hc, hshares⟩ := shares_after (run_digits hload hbefore.1) ha hbefore.2.1
    (between ++ [.findOrCreateByPhone b now'])
  obtain ⟨c', hc', hshares'⟩ := shares_after (run_digits hload hfirst) hb hsecond []
  rw [← List.cons_append, ← run_append, ← List.append_assoc, hplace] at hc
  rw [← run_append] at hc'
  obtain rfl : c = c' := Option.some.inj (hc.symm.trans hc')
  exact hdistinct c (List.mem_of_getElem? hc) ⟨hshares, hshares'⟩

theorem numbers_apart :
    Shares asciiPlatform "(555) 000-1111".toList
      { id := contactId 1, name := none, phones := ["5550001111".toList], source := "sms" } ∧
    place asciiPlatform "5550001111".toList ⟨[], []⟩ ≠ place asciiPlatform "5550002222".toList
      (run asciiPlatform [.findOrCreateByPhone "5550001111".toList 1] ⟨[], []⟩) := by
  have hroom : ∀ e ∈ ([] : List ContactEntity), HasDigits e.toContact := nofun
  have hops : AllNumbered asciiPlatform
      [.findOrCreateByPhone "5550001111".toList 1, .findOrCreateByPhone "5550002222".toList 2] (loadFromRoom []) :=
    ⟨.inl (by decide +kernel), .inl (by decide +kernel), trivial⟩
  have hsound := sound_identity hroom hops
  exact ⟨hsound.1 _ _ (by decide +kernel) (by decide +kernel),
    hsound.2 [] [] "5550001111".toList "5550002222".toList 1 2 (by decide +kernel) (by decide +kernel) rfl
      (by decide +kernel)⟩

/-- The number of the first sender, an address, has no digits: the second one is taken for
the same contact. -/
theorem empty_keys_match :
    let ann := "ann@example.com".toList
    let bob := "bob@example.org".toList
    let created : Contact := { id := contactId 1, name := none, phones := [ann], source := "sms" }
    let after := run asciiPlatform [.findOrCreateByPhone ann 1] (loadFromRoom [])
    let final := run asciiPlatform [.findOrCreateByPhone ann 1, .findOrCreateByPhone bob 2] (loadFromRoom [])
    (findContact asciiPlatform bob after = some created ∧ ¬ Shares asciiPlatform bob created) ∧
      (∀ c ∈ final.contacts, ¬ (Shares asciiPlatform ann c ∧ Shares asciiPlatform bob c)) ∧
      place asciiPlatform ann (loadFromRoom []) = place asciiPlatform bob after := by
  decide +kernel

end Aigentik.ContactIdentity
