import Aigentik.Core.ContactIdentity

namespace Aigentik.ContactSync

open Strings ContactEngine ContactIdentity PhoneNormalizer

/-- A row that the sync takes up: it has a name, and at least seven digits in its number. -/
structure Eligible (row : AndroidRow) (name number : Str) : Prop where
  named : row.name = some name
  numbered : row.number = some number
  long : 7 ≤ (digits number).length

/-- Some contact has the number, by its last ten digits. -/
def Holds (number : Str) (s : Store) : Prop := ∃ c ∈ s.contacts, ∃ phone ∈ c.phones, lastTen phone = lastTen number

instance (number : Str) (s : Store) : Decidable (Holds number s) := inferInstanceAs (Decidable (∃ _ ∈ _, _))

variable (P : Platform)

/-- The lookup by the number's last ten digits gives a contact. -/
def Known (number : Str) (s : Store) : Prop := ∃ c ∈ s.contacts, isFoundBy P (lastTen number) c = true

def Complete (rows : List AndroidRow) (s : Store) : Prop :=
  ∀ row ∈ rows, ∀ name number, Eligible row name number → Holds number (syncAndroidContacts P rows s).2

variable {P} {row : AndroidRow} {name number : Str} {s s' : Store} {added : ℕ} {c c' : Contact}

/-! Digits -/

theorem digits_lastTen (number : Str) : digits (lastTen number) = lastTen number := by
  rw [digits, List.filter_eq_self]
  intro d hd
  exact (List.mem_filter.mp (List.mem_of_mem_drop hd)).2

theorem lastTen_length (number : Str) : (lastTen number).length = min 10 (digits number).length := by
  rw [lastTen, takeLast, List.length_drop]
  omega

theorem lastTen_lastTen (number : Str) : lastTen (lastTen number) = lastTen number := by
  have hlength : (lastTen number).length - 10 = 0 := by
    rw [lastTen_length]
    omega
  rw [lastTen, digits_lastTen, takeLast, hlength, List.drop_zero]

/-! What a row does -/

theorem isFoundBy_extends {key : Str} (h : isFoundBy P key c = true) (hext : Extends c c') :
    isFoundBy P key c' = true := by
  simp only [isFoundBy, Bool.or_eq_true, List.any_eq_true, decide_eq_true_eq, Option.any_eq_true] at h ⊢
  rw [hext.phones, hext.emails]
  rcases h with ((((hphone | hemail) | ⟨name, hname, heq⟩) | ⟨name, hname, hsub⟩) | ⟨a, ha, heq⟩) | ⟨a, ha, hsub⟩
  · exact .inl (.inl (.inl (.inl (.inl hphone))))
  · exact .inl (.inl (.inl (.inl (.inr hemail))))
  · exact .inl (.inl (.inl (.inr ⟨name, hext.name name hname, heq⟩)))
  · exact .inl (.inl (.inr ⟨name, hext.name name hname, hsub⟩))
  · exact .inl (.inr ⟨a, hext.aliases a ha, heq⟩)
  · exact .inr ⟨a, hext.aliases a ha, hsub⟩

theorem Known.grows (h : Known P number s) (hgrows : Grows s s') : Known P number s' := by
  obtain ⟨c, hc, hfound⟩ := h
  obtain ⟨i, hi⟩ := List.mem_iff_getElem?.mp hc
  obtain ⟨c', hc', hext⟩ := hgrows i c hi
  exact ⟨c', List.mem_of_getElem? hc', isFoundBy_extends hfound hext⟩

theorem Holds.grows (h : Holds number s) (hgrows : Grows s s') : Holds number s' := by
  obtain ⟨c, hc, phone, hphone, heq⟩ := h
  obtain ⟨i, hi⟩ := List.mem_iff_getElem?.mp hc
  obtain ⟨c', hc', hext⟩ := hgrows i c hi
  exact ⟨c', List.mem_of_getElem? hc', phone, hext.phones ▸ hphone, heq⟩

theorem known_iff : Known P number s ↔ s.contacts.findIdx? (isFoundBy P (lastTen number)) ≠ none := by
  rw [ne_eq, List.findIdx?_eq_none_iff]
  simp [Known]

/-- A row is passed over, creates a contact for digits that no criterion sees, or names the
first contact that one sees. -/
theorem syncRow_cases (row : AndroidRow) (added : ℕ) (s : Store) :
    ((∀ name number, ¬Eligible row name number) ∧ syncRow P row added s = (added, s)) ∨
    ∃ name number, Eligible row name number ∧
      ((¬Known P number s ∧ ∃ c : Contact, c.phones = [number] ∧ c.name = some name ∧
        P.lowercase name ∈ c.aliases ∧ syncRow P row added s = (added + 1, addContact c s)) ∨
      ∃ i c, s.contacts.findIdx? (isFoundBy P (lastTen number)) = some i ∧ s.contacts[i]? = some c ∧
        syncRow P row added s = (added, if named P name c = c then s else changeContact i (named P name) s)) := by
  unfold syncRow
  cases hname : row.name with
  | none =>
    refine .inl ⟨fun name number h ↦ ?_, rfl⟩
    rw [h.named] at hname
    cases hname
  | some name =>
    cases hnumber : row.number with
    | none =>
      refine .inl ⟨fun name number h ↦ ?_, rfl⟩
      rw [h.numbered] at hnumber
      cases hnumber
    | some number =>
      dsimp only
      by_cases hshort : (lastTen number).length < 7
      · refine .inl ⟨fun name' number' h ↦ ?_, if_pos hshort⟩
        obtain rfl := Option.some.inj (hnumber.symm.trans h.numbered)
        have hlong := h.long
        rw [lastTen_length] at hshort
        omega
      · have hlong : 7 ≤ (digits number).length := by
          rw [lastTen_length] at hshort
          omega
        refine .inr ⟨name, number, ⟨hname, hnumber, hlong⟩, ?_⟩
        rw [if_neg hshort]
        cases hindex : s.contacts.findIdx? (isFoundBy P (lastTen number)) with
        | none =>
          refine .inl ⟨fun h ↦ known_iff.mp h hindex, _, rfl, rfl, List.mem_singleton.mpr rfl, rfl⟩
        | some i =>
          obtain ⟨hlt, -⟩ := List.findIdx?_eq_some_iff_getElem.mp hindex
          have hc : s.contacts[i]? = some s.contacts[i] := List.getElem?_eq_getElem hlt
          refine .inr ⟨i, s.contacts[i], rfl, hc, ?_⟩
          dsimp only
          rw [hc]
          dsimp only
          split <;> rfl

theorem syncRow_grows (row : AndroidRow) (added : ℕ) (s : Store) : Grows s (syncRow P row added s).2 := by
  rcases syncRow_cases (P := P) row added s with ⟨-, h⟩ | ⟨name, number, -, ⟨-, c, -, -, -, h⟩ | ⟨i, c, -, -, h⟩⟩
  · rw [h]
    exact Grows.refl s
  · rw [h]
    exact (Grows.refl s).add c
  · rw [h]
    dsimp only
    split
    · exact Grows.refl s
    · exact (Grows.refl s).change (named_extends P name)

theorem syncRows_grows (rows : List AndroidRow) (added : ℕ) (s : Store) : Grows s (syncRows P rows added s).2 := by
  induction rows generalizing added s with
  | nil => exact Grows.refl s
  | cons row rows ih => exact (syncRow_grows row added s).trans (ih _ _)

theorem syncRows_append (before after : List AndroidRow) (added : ℕ) (s : Store) :
    syncRows P (before ++ after) added s =
      syncRows P after (syncRows P before added s).1 (syncRows P before added s).2 := by
  induction before generalizing added s with
  | nil => rfl
  | cons row before ih => exact ih _ _

/-! Numbers that are found but not held -/

theorem Holds.of_change {i : ℕ} {f : Contact → Contact} (hf : ∀ c, Extends c (f c))
    (h : Holds number (changeContact i f s)) : Holds number s := by
  obtain ⟨c, hc, phone, hphone, heq⟩ := h
  obtain ⟨j, hj⟩ := List.mem_iff_getElem?.mp hc
  rw [changeContact_getElem?] at hj
  obtain ⟨c₀, hc₀, rfl⟩ := Option.map_eq_some_iff.mp hj
  refine ⟨c₀, List.mem_of_getElem? hc₀, phone, ?_, heq⟩
  split at hphone
  · rwa [(hf c₀).phones] at hphone
  · exact hphone

/-- A number that a contact is found by, but no contact has, is never stored. -/
theorem not_holds_syncRow (hknown : Known P number s) (hnot : ¬Holds number s) (row : AndroidRow) (added : ℕ) :
    ¬Holds number (syncRow P row added s).2 := by
  intro h
  rcases syncRow_cases (P := P) row added s with ⟨-, hrow⟩ | ⟨name, number', -, ⟨hnew, c, hphones, -, -, hrow⟩ |
    ⟨i, c, -, -, hrow⟩⟩
  · rw [hrow] at h
    exact hnot h
  · rw [hrow] at h
    obtain ⟨c', hc', phone, hphone, heq⟩ := h
    rcases List.mem_append.mp hc' with hold | hadded
    · exact hnot ⟨c', hold, phone, hphone, heq⟩
    · obtain rfl := List.mem_singleton.mp hadded
      rw [hphones, List.mem_singleton] at hphone
      apply hnew
      rw [Known, ← hphone, heq]
      exact hknown
  · rw [hrow] at h
    dsimp only at h
    split at h
    · exact hnot h
    · exact hnot (h.of_change (named_extends P name))

theorem not_holds_syncRows (hknown : Known P number s) (hnot : ¬Holds number s) (rows : List AndroidRow) (added : ℕ) :
    ¬Holds number (syncRows P rows added s).2 := by
  induction rows generalizing added s with
  | nil => exact hnot
  | cons row rows ih =>
    exact ih (hknown.grows (syncRow_grows row added s)) (not_holds_syncRow hknown hnot row added) _

variable (added) in
theorem holds_of_new (hrow : Eligible row name number) (hnew : ¬Known P number s) :
    Holds number (syncRow P row added s).2 := by
  rcases syncRow_cases (P := P) row added s with ⟨hnone, -⟩ | ⟨name', number', hrow', ⟨-, c, hphones, -, -, h⟩ |
    ⟨i, c, hi, -, -⟩⟩
  · exact (hnone name number hrow).elim
  · obtain rfl := Option.some.inj (hrow'.numbered.symm.trans hrow.numbered)
    rw [h]
    exact ⟨c, List.mem_append_right _ (List.mem_singleton.mpr rfl), number', by simp [hphones], rfl⟩
  · obtain rfl := Option.some.inj (hrow'.numbered.symm.trans hrow.numbered)
    refine (hnew (known_iff.mpr ?_)).elim
    rw [hi]
    exact Option.some_ne_none i

/-- A row's number is stored exactly if, when the row is read, some contact has it or no
criterion sees a contact by its digits. -/
theorem complete_iff (P : Platform) (rows : List AndroidRow) (s : Store) :
    Complete P rows s ↔ ∀ before row after, rows = before ++ row :: after →
      ∀ name number, Eligible row name number → Known P number (syncRows P before 0 s).2 →
        Holds number (syncRows P before 0 s).2 := by
  constructor
  · intro hcomplete before row after heq name number hrow hknown
    subst heq
    by_contra hnot
    have hholds := hcomplete row (List.mem_append_right _ List.mem_cons_self) name number hrow
    rw [syncAndroidContacts, syncRows_append] at hholds
    exact not_holds_syncRows hknown hnot _ _ hholds
  · intro hstep row hmem name number hrow
    obtain ⟨before, after, rfl⟩ := List.append_of_mem hmem
    rw [syncAndroidContacts, syncRows_append]
    by_cases hknown : Known P number (syncRows P before 0 s).2
    · exact (hstep before row after rfl name number hrow hknown).grows (syncRows_grows _ _ _)
    · exact (holds_of_new _ hrow hknown).grows (syncRows_grows after _ _)

/-- A name that contains the digits of another's number. -/
theorem number_skipped :
    ¬Complete asciiPlatform [⟨some "Bob", some "5550001111", 1⟩]
      ⟨[{ id := contactId 0, name := some "Old 5550001111", phones := ["5550002222"] }], []⟩ := by
  intro h
  have hholds := h _ List.mem_cons_self "Bob" "5550001111" ⟨rfl, rfl, by decide⟩
  revert hholds
  decide +kernel

/-! A second run -/

/-- The same rows, read at another time. -/
def SameRows (rows again : List AndroidRow) : Prop :=
  again.map (fun row ↦ (row.name, row.number)) = rows.map fun row ↦ (row.name, row.number)

def Idempotent (P : Platform) (rows : List AndroidRow) (s : Store) : Prop :=
  let first := (syncAndroidContacts P rows s).2
  ∀ again, SameRows rows again →
    (syncAndroidContacts P again first).1 = 0 ∧ (syncAndroidContacts P again first).2.contacts = first.contacts

/-- The contact has a name, and the row's name among its aliases. -/
def IsNamed (P : Platform) (name : Str) (c : Contact) : Prop := c.name ≠ none ∧ P.lowercase name ∈ c.aliases

/-- The digits of the row find a contact that the row has nothing to add to. -/
def Settled (P : Platform) (row : AndroidRow) (s : Store) : Prop :=
  ∀ name number, Eligible row name number → ∃ c, findContact P (lastTen number) s = some c ∧ IsNamed P name c

theorem IsNamed.extends (h : IsNamed P name c) (hext : Extends c c') : IsNamed P name c' := by
  obtain ⟨hname, halias⟩ := h
  obtain ⟨n, hn⟩ := Option.ne_none_iff_exists'.mp hname
  refine ⟨?_, hext.aliases _ halias⟩
  rw [hext.name n hn]
  exact Option.some_ne_none n

theorem isNamed_named (name : Str) (c : Contact) : IsNamed P name (named P name c) := by
  constructor
  · unfold named
    cases c.name <;> exact Option.some_ne_none _
  · unfold named
    dsimp only
    split
    · assumption
    · exact List.mem_append_right _ (List.mem_singleton.mpr rfl)

theorem named_eq_self (h : IsNamed P name c) : named P name c = c := by
  obtain ⟨n, hn⟩ := Option.ne_none_iff_exists'.mp h.1
  have hname : (c.name <|> some name) = c.name := by
    rw [hn]
    rfl
  rw [named, if_pos h.2, hname]

theorem findContact_of_index {key : Str} {i : ℕ} (hi : s.contacts.findIdx? (isFoundBy P key) = some i)
    (hc : s.contacts[i]? = some c) : findContact P key s = some c := by
  rw [findContact, List.find?_eq_bind_findIdx?_getElem?, hi]
  exact hc

theorem syncRow_settled (h : Settled P row s) : syncRow P row added s = (added, s) := by
  rcases syncRow_cases (P := P) row added s with ⟨-, hrow⟩ | ⟨name, number, hrow, ⟨hnew, -⟩ | ⟨i, c, hi, hc, hset⟩⟩
  · exact hrow
  · obtain ⟨c, hfind, -⟩ := h name number hrow
    exact (hnew ⟨c, List.mem_of_find?_eq_some hfind, List.find?_some hfind⟩).elim
  · obtain ⟨c', hfind, hnamed⟩ := h name number hrow
    obtain rfl : c = c' := Option.some.inj ((findContact_of_index hi hc).symm.trans hfind)
    rw [hset, if_pos (named_eq_self hnamed)]

theorem syncRows_settled {rows : List AndroidRow} (h : ∀ row ∈ rows, Settled P row s) :
    syncRows P rows added s = (added, s) := by
  induction rows with
  | nil => rfl
  | cons row rows ih =>
    rw [List.forall_mem_cons] at h
    rw [syncRows, syncRow_settled h.1]
    exact ih h.2

def AllKnown (P : Platform) (rows : List AndroidRow) (s : Store) : Prop :=
  ∀ row ∈ rows, ∀ name number, Eligible row name number → Known P number s

theorem AllKnown.grows {rows : List AndroidRow} (h : AllKnown P rows s) (hgrows : Grows s s') : AllKnown P rows s' :=
  fun row hmem name number hrow ↦ (h row hmem name number hrow).grows hgrows

/-- Where every row is known, no contact is created. -/
theorem syncRows_added {rows : List AndroidRow} (h : AllKnown P rows s) : (syncRows P rows added s).1 = added := by
  induction rows generalizing added s with
  | nil => rfl
  | cons row rows ih =>
    obtain ⟨hhead, htail⟩ := List.forall_mem_cons.mp h
    have hadded : (syncRow P row added s).1 = added := by
      rcases syncRow_cases (P := P) row added s with ⟨-, hrow⟩ | ⟨name, number, hrow, ⟨hnew, -⟩ | ⟨i, c, -, -, hset⟩⟩
      · rw [hrow]
      · exact (hnew (hhead name number hrow)).elim
      · rw [hset]
    rw [syncRows, hadded]
    exact ih (AllKnown.grows htail (syncRow_grows row added s))

/-- What a row adds to a contact stays. -/
theorem settled_of_unchanged {rows : List AndroidRow} (hknown : AllKnown P rows s)
    (h : (syncRows P rows added s).2.contacts = s.contacts) : ∀ row ∈ rows, Settled P row s := by
  induction rows generalizing added with
  | nil => exact fun row hmem ↦ (List.not_mem_nil hmem).elim
  | cons row rows ih =>
    obtain ⟨hhead, htail⟩ := List.forall_mem_cons.mp hknown
    have hsettled : Settled P row s := by
      intro name number hrow
      rcases syncRow_cases (P := P) row added s with ⟨hnone, -⟩ | ⟨name', number', hrow', ⟨hnew, -⟩ |
        ⟨i, c, hi, hc, hset⟩⟩
      · exact (hnone name number hrow).elim
      · exact (hnew (hhead name' number' hrow')).elim
      · obtain rfl := Option.some.inj (hrow'.named.symm.trans hrow.named)
        obtain rfl := Option.some.inj (hrow'.numbered.symm.trans hrow.numbered)
        refine ⟨c, findContact_of_index hi hc, ?_⟩
        by_cases hsame : named P name' c = c
        · rw [← hsame]
          exact isNamed_named name' c
        · have hchanged : (changeContact i (named P name') s).contacts[i]? = some (named P name' c) := by
            rw [changeContact_getElem?, hc, if_pos rfl]
            rfl
          obtain ⟨c', hc', hext⟩ := syncRows_grows (P := P) rows added _ _ _ hchanged
          rw [syncRows, hset, if_neg hsame] at h
          rw [h, hc, Option.some.injEq] at hc'
          rw [hc']
          exact (isNamed_named name' c).extends hext
    rw [syncRows, syncRow_settled hsettled] at h
    exact List.forall_mem_cons.mpr ⟨hsettled, ih htail h⟩

theorem known_syncRow (hrow : Eligible row name number) : Known P number (syncRow P row added s).2 := by
  by_cases hknown : Known P number s
  · exact hknown.grows (syncRow_grows row added s)
  · obtain ⟨c, hc, phone, hphone, heq⟩ := holds_of_new added hrow hknown
    refine ⟨c, hc, ?_⟩
    simp only [isFoundBy, Bool.or_eq_true, List.any_eq_true, decide_eq_true_eq]
    exact .inl (.inl (.inl (.inl (.inl ⟨phone, hphone, by rw [lastTen_lastTen, heq]⟩))))

theorem allKnown_first (rows : List AndroidRow) (s : Store) : AllKnown P rows (syncAndroidContacts P rows s).2 := by
  intro row hmem name number hrow
  obtain ⟨before, after, rfl⟩ := List.append_of_mem hmem
  rw [syncAndroidContacts, syncRows_append]
  exact (known_syncRow hrow).grows (syncRows_grows after _ _)

theorem isNamed_place (P : Platform) (added : ℕ) (s : Store) (hrow : Eligible row name number) :
    ∃ c, (syncRow P row added s).2.contacts[place P (lastTen number) s]? = some c ∧ IsNamed P name c := by
  rcases syncRow_cases (P := P) row added s with ⟨hnone, -⟩ |
      ⟨name', number', hrow', ⟨hnew, c, -, hname, halias, hset⟩ |
    ⟨i, c, hi, hc, hset⟩⟩
  · exact (hnone name number hrow).elim
  · obtain rfl := Option.some.inj (hrow'.named.symm.trans hrow.named)
    obtain rfl := Option.some.inj (hrow'.numbered.symm.trans hrow.numbered)
    have hindex : s.contacts.findIdx? (isFoundBy P (lastTen number')) = none := by
      by_contra hne
      exact hnew (known_iff.mpr hne)
    refine ⟨c, ?_, by rw [hname]; exact Option.some_ne_none _, halias⟩
    rw [hset, place, hindex]
    exact List.getElem?_concat_length
  · obtain rfl := Option.some.inj (hrow'.named.symm.trans hrow.named)
    obtain rfl := Option.some.inj (hrow'.numbered.symm.trans hrow.numbered)
    rw [hset, place, hi, Option.getD_some]
    dsimp only
    refine ⟨named P name' c, ?_, isNamed_named name' c⟩
    split
    · rename_i hsame
      rw [hsame, hc]
    · rw [changeContact_getElem?, hc, if_pos rfl]
      rfl

/-- The rows of a second run are those of the first, with other ids. -/
theorem eligible_again {rows again : List AndroidRow} {row' : AndroidRow} (hsame : SameRows rows again)
    (hmem : row' ∈ again) (hrow' : Eligible row' name number) : ∃ row ∈ rows, Eligible row name number := by
  have hkey : (row'.name, row'.number) ∈ rows.map fun row ↦ (row.name, row.number) := by
    rw [← hsame]
    exact List.mem_map_of_mem hmem
  obtain ⟨row, hrow, heq⟩ := List.mem_map.mp hkey
  obtain ⟨hname, hnumber⟩ := Prod.mk.inj heq
  exact ⟨row, hrow, hname.trans hrow'.named, hnumber.trans hrow'.numbered, hrow'.long⟩

theorem second_creates_nothing {rows again : List AndroidRow} (hsame : SameRows rows again) :
    (syncAndroidContacts P again (syncAndroidContacts P rows s).2).1 = 0 := by
  refine syncRows_added fun row' hmem' name number hrow' ↦ ?_
  obtain ⟨row, hmem, hrow⟩ := eligible_again hsame hmem' hrow'
  exact allKnown_first rows s row hmem name number hrow

/-- A second run changes nothing exactly if every row's digits find the
contact that they found in the first run, or one that has the row's name. -/
theorem idempotent_iff (P : Platform) (rows : List AndroidRow) (s : Store) :
    let first := (syncAndroidContacts P rows s).2
    Idempotent P rows s ↔ ∀ before row after, rows = before ++ row :: after →
      ∀ name number, Eligible row name number →
        place P (lastTen number) first = place P (lastTen number) (syncRows P before 0 s).2 ∨
          ∃ c, findContact P (lastTen number) first = some c ∧ IsNamed P name c := by
  intro first
  have hknown : AllKnown P rows first := allKnown_first rows s
  constructor
  · intro hidem before row after heq name number hrow
    subst heq
    have hsettled := settled_of_unchanged hknown (hidem _ rfl).2
    exact .inr (hsettled row (List.mem_append_right _ List.mem_cons_self) name number hrow)
  · intro hplaces again hsame
    have hsettled : ∀ row ∈ again, Settled P row first := by
      intro row' hmem' name number hrow'
      obtain ⟨row, hmem, hrow⟩ := eligible_again hsame hmem' hrow'
      obtain ⟨before, after, rfl⟩ := List.append_of_mem hmem
      rcases hplaces before row after rfl name number hrow with hplace | hnamed
      · obtain ⟨i, hi⟩ := Option.ne_none_iff_exists'.mp (known_iff.mp (hknown row hmem name number hrow))
        obtain ⟨c, hc, hnamed⟩ := isNamed_place P (syncRows P before 0 s).1
          (syncRows P before 0 s).2 hrow
        obtain ⟨c', hc', hext⟩ := syncRows_grows (P := P) after _ _ _ _ hc
        rw [← hplace, place, hi, Option.getD_some] at hc'
        refine ⟨c', findContact_of_index hi ?_, hnamed.extends hext⟩
        rw [← hc']
        change (syncRows P (before ++ row :: after) 0 s).2.contacts[i]? = _
        rw [syncRows_append]
        rfl
      · exact hnamed
    rw [syncAndroidContacts, syncRows_settled hsettled]
    exact ⟨rfl, rfl⟩

/-- The second name contains the digits of the first number. -/
theorem name_captures_number :
    ¬Idempotent asciiPlatform [⟨some "Bob", some "5550002222", 1⟩, ⟨some "x 5550002222", some "5550001111", 2⟩]
      ⟨[{ id := contactId 0, name := some "Ann", phones := ["5550001111"] },
        { id := contactId 1, name := none, phones := ["5550002222"] }], []⟩ := by
  intro h
  have hsame := (h _ rfl).2
  revert hsame
  decide +kernel

end Aigentik.ContactSync
