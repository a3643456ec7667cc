import Aigentik.Core.ContactEngine

namespace Aigentik.ContactLookup

open Strings ContactEngine PhoneNormalizer

variable (P : Platform) (identifier : Str)

def names (c : Contact) : List Str := c.name.toList ++ c.aliases

/-- The identifier is a number of the contact, by its last ten digits, or an address or a name of it. -/
def Exact (c : Contact) : Prop :=
  (lastTen identifier ≠ [] ∧ ∃ phone ∈ c.phones, lastTen phone = lastTen identifier) ∨
    ∃ key ∈ c.emails ++ names c, P.lowercase key = P.lowercase identifier

instance (c : Contact) : Decidable (Exact P identifier c) := inferInstanceAs (Decidable (_ ∨ _))

/-- Where there is an exact match the lookup gives one, and the instructions reach no other contact
and no row of another one. -/
def Prefers (s : Store) : Prop :=
  (∃ c ∈ s.contacts, Exact P identifier c) →
    (∃ c, findContact P identifier s = some c ∧ Exact P identifier c) ∧
    ∀ instructions behavior,
      (∀ (i : ℕ) (c : Contact), s.contacts[i]? = some c → ¬Exact P identifier c →
        (setInstructions P identifier instructions behavior s).contacts[i]? = some c) ∧
      ∀ e ∈ s.room, (∀ c ∈ s.contacts, Exact P identifier c → c.id ≠ e.id) →
        e ∈ (setInstructions P identifier instructions behavior s).room

/-- An exact match that the criteria see stands before every contact that they only see loosely. -/
def ExactFirst (contacts : List Contact) : Prop :=
  ∃ before c after, contacts = before ++ c :: after ∧ isFoundBy P identifier c = true ∧ Exact P identifier c ∧
    ∀ c' ∈ before, isFoundBy P identifier c' = true → Exact P identifier c'

variable {P identifier} {s : Store} {c : Contact}

/-! Where the lookup ends -/

theorem index_of_find (h : findContact P identifier s = some c) :
    ∃ i, s.contacts.findIdx? (isFoundBy P identifier) = some i ∧ s.contacts[i]? = some c := by
  rw [findContact, List.find?_eq_bind_findIdx?_getElem?] at h
  exact Option.bind_eq_some_iff.mp h

theorem find_of_exactFirst (h : ExactFirst P identifier s.contacts) :
    ∃ c, findContact P identifier s = some c ∧ Exact P identifier c := by
  obtain ⟨before, c, after, hsplit, hfound, hexact, hbefore⟩ := h
  rw [findContact, hsplit, List.find?_append]
  cases hfirst : before.find? (isFoundBy P identifier) with
  | some c' => exact ⟨c', rfl, hbefore c' (List.mem_of_find?_eq_some hfirst) (List.find?_some hfirst)⟩
  | none => exact ⟨c, List.find?_cons_of_pos hfound, hexact⟩

theorem exactFirst_of_find (h : findContact P identifier s = some c) (hexact : Exact P identifier c) :
    ExactFirst P identifier s.contacts := by
  obtain ⟨hfound, before, after, hsplit, hbefore⟩ := List.find?_eq_some_iff_append.mp h
  refine ⟨before, c, after, hsplit, hfound, hexact, fun c' hc' hfound' ↦ ?_⟩
  have hnot := hbefore c' hc'
  rw [hfound'] at hnot
  cases hnot

/-! What the instructions change -/

theorem changeContact_room {i : ℕ} {f : Contact → Contact} (hc : s.contacts[i]? = some c) :
    (changeContact i f s).room = s.room.filter (fun e ↦ e.id ≠ (f c).id) ++ [(f c).toEntity] := by
  rw [changeContact, hc]
  rfl

theorem setInstructions_of_find (instructions : Option Str) (behavior : Option ReplyBehavior)
    (h : findContact P identifier s = some c) : ∃ i, s.contacts[i]? = some c ∧
      setInstructions P identifier instructions behavior s = changeContact i (instructed instructions behavior) s := by
  obtain ⟨i, hi, hc⟩ := index_of_find h
  refine ⟨i, hc, ?_⟩
  rw [setInstructions, hi]
  rfl

/-- The lookup ends at the first contact that any criterion sees. -/
theorem prefers_iff (P : Platform) (identifier : Str) (s : Store) :
    Prefers P identifier s ↔ (∀ c ∈ s.contacts, ¬Exact P identifier c) ∨ ExactFirst P identifier s.contacts := by
  constructor
  · intro h
    by_cases hnone : ∀ c ∈ s.contacts, ¬Exact P identifier c
    · exact .inl hnone
    · push Not at hnone
      obtain ⟨c, hfind, hexact⟩ := (h hnone).1
      exact .inr (exactFirst_of_find hfind hexact)
  · intro h' hsome
    rcases h' with hnone | hfirst
    · obtain ⟨c, hc, hexact⟩ := hsome
      exact (hnone c hc hexact).elim
    · obtain ⟨c, hfind, hexact⟩ := find_of_exactFirst hfirst
      refine ⟨⟨c, hfind, hexact⟩, fun instructions behavior ↦ ?_⟩
      obtain ⟨i, hi, hset⟩ := setInstructions_of_find instructions behavior hfind
      rw [hset]
      constructor
      · intro j c' hj hloose
        have hne : j ≠ i := by
          intro heq
          subst heq
          obtain rfl := Option.some.inj (hi.symm.trans hj)
          exact hloose hexact
        rw [changeContact_getElem?, hj, if_neg hne]
        rfl
      · intro e he hid
        rw [changeContact_room hi]
        apply List.mem_append_left
        refine List.mem_filter.mpr ⟨he, decide_eq_true ?_⟩
        exact (hid c (List.mem_of_getElem? hi) hexact).symm

def annabelle : Contact := { id := contactId 1, name := some "Annabelle", phones := ["5550001111"] }

def ann : Contact := { id := contactId 2, name := some "Ann", phones := ["5550002222"] }

/-- Annabelle comes first, and her name contains the other one. -/
theorem substring_preferred : ¬Prefers asciiPlatform "Ann" ⟨[annabelle, ann], []⟩ := by
  intro h
  obtain ⟨⟨c, hfind, hexact⟩, -⟩ := h ⟨ann, by simp, by decide +kernel⟩
  have hfirst : findContact asciiPlatform "Ann" ⟨[annabelle, ann], []⟩ = some annabelle := by decide +kernel
  obtain rfl := Option.some.inj (hfirst.symm.trans hfind)
  revert hexact
  decide +kernel

end Aigentik.ContactLookup
