import Aigentik.Core.PhoneNormalizer

namespace Aigentik.ContactEngine

open Strings

inductive ReplyBehavior
  | auto | never | always | review
  deriving DecidableEq

structure Contact where
  id : Str
  name : Option Str
  phones : List Str := []
  emails : List Str := []
  aliases : List Str := []
  relationship : Option Str := none
  type : Str := "unknown"
  notes : Option Str := none
  instructions : Option Str := none
  replyBehavior : ReplyBehavior := .auto
  contactCount : ℕ := 0
  source : Str := "auto"
  deriving DecidableEq

def formatContact (contact : Contact) : Str :=
  let line (label : Str) (value : Option Str) : List Str := (value.map (label ++ ·)).toList
  joinToString "\n" (line "Name: " contact.name ++ line "Relationship: " contact.relationship ++
    line "Phone: " contact.phones.head? ++ line "Email: " contact.emails.head? ++
    line "Notes: " contact.notes ++ line "Instructions: " contact.instructions)

/-- A row of the table of contacts. -/
structure ContactEntity where
  id : Str
  name : Option Str
  phones : List Str
  emails : List Str
  aliases : List Str
  relationship : Option Str
  type : Str
  notes : Option Str
  instructions : Option Str
  replyBehavior : Str
  contactCount : ℕ
  source : Str
  deriving DecidableEq

def ReplyBehavior.name : ReplyBehavior → Str
  | .auto => "AUTO"
  | .never => "NEVER"
  | .always => "ALWAYS"
  | .review => "REVIEW"

/-- `valueOf`, with `AUTO` for its exception. -/
def ReplyBehavior.ofName (s : Str) : ReplyBehavior :=
  if s = "NEVER".toList then .never
  else if s = "ALWAYS".toList then .always
  else if s = "REVIEW".toList then .review
  else .auto

def Contact.toEntity (c : Contact) : ContactEntity :=
  ⟨c.id, c.name, c.phones, c.emails, c.aliases, c.relationship, c.type, c.notes, c.instructions,
    c.replyBehavior.name, c.contactCount, c.source⟩

def ContactEntity.toContact (e : ContactEntity) : Contact :=
  ⟨e.id, e.name, e.phones, e.emails, e.aliases, e.relationship, e.type, e.notes, e.instructions,
    .ofName e.replyBehavior, e.contactCount, e.source⟩

/-- The cache, whose contacts are objects known by their place, and the table. -/
structure Store where
  contacts : List Contact
  room : List ContactEntity
  deriving DecidableEq

def loadFromRoom (room : List ContactEntity) : Store := ⟨room.map ContactEntity.toContact, room⟩

variable (P : Platform)

/-- One of the six criteria of `findContact`. -/
def isFoundBy (identifier : Str) (c : Contact) : Bool :=
  let normPhone := PhoneNormalizer.lastTen identifier
  let lower := trim (P.lowercase identifier)
  c.phones.any (fun phone ↦ PhoneNormalizer.lastTen phone = normPhone) ||
    c.emails.any (fun email ↦ P.lowercase email = lower) ||
    c.name.any (fun name ↦ P.lowercase name = lower) ||
    c.name.any (fun name ↦ contains (P.lowercase name) lower) ||
    c.aliases.any (fun a ↦ P.lowercase a = lower) ||
    c.aliases.any (fun a ↦ contains (P.lowercase a) lower)

def findContact (identifier : Str) (s : Store) : Option Contact := s.contacts.find? (isFoundBy P identifier)

def isRelated (relationship : Str) (c : Contact) : Bool :=
  c.relationship.any fun r ↦ P.lowercase r = trim (P.lowercase relationship)

/-- `insert` with REPLACE: a row with the same primary key is deleted first. -/
def persistContact (c : Contact) (s : Store) : Store :=
  { s with room := s.room.filter (fun e ↦ e.id ≠ c.id) ++ [c.toEntity] }

def addContact (c : Contact) (s : Store) : Store := persistContact c { s with contacts := s.contacts ++ [c] }

/-- The object at the place `i` is changed and persisted. -/
def changeContact (i : ℕ) (f : Contact → Contact) (s : Store) : Store :=
  match s.contacts[i]? with
  | some c => persistContact (f c) { s with contacts := s.contacts.set i (f c) }
  | none => s

def contactId (now : ℕ) : Str := "contact_" ++ Nat.toDigits 10 now

def findOrCreateByPhone (phone : Str) (now : ℕ) (s : Store) : Contact × Store :=
  match findContact P phone s with
  | some c => (c, s)
  | none =>
    let c : Contact := { id := contactId now, name := none, phones := [phone], source := "sms" }
    (c, addContact c s)

def findOrCreateByEmail (email : Str) (now : ℕ) (s : Store) : Contact × Store :=
  match findContact P email s with
  | some c => (c, s)
  | none =>
    let c : Contact := { id := contactId now, name := none, emails := [email], source := "email" }
    (c, addContact c s)

def instructed (instructions : Option Str) (behavior : Option ReplyBehavior) (c : Contact) : Contact :=
  { c with
    instructions := instructions <|> c.instructions
    replyBehavior := behavior.getD c.replyBehavior }

def setInstructions (identifier : Str) (instructions : Option Str) (behavior : Option ReplyBehavior)
    (s : Store) : Store :=
  match s.contacts.findIdx? (isFoundBy P identifier) <|> s.contacts.findIdx? (isRelated P identifier) with
  | some i => changeContact i (instructed instructions behavior) s
  | none => s

/-- A row of the cursor over the Android contacts, and the clock when it is read. -/
structure AndroidRow where
  name : Option Str
  number : Option Str
  now : ℕ

def named (name : Str) (c : Contact) : Contact :=
  { c with
    name := c.name <|> some name
    aliases := if P.lowercase name ∈ c.aliases then c.aliases else c.aliases ++ [P.lowercase name] }

def syncRow (row : AndroidRow) (added : ℕ) (s : Store) : ℕ × Store :=
  match row.name, row.number with
  | some name, some number =>
    let normPhone := PhoneNormalizer.lastTen number
    if normPhone.length < 7 then (added, s)
    else match s.contacts.findIdx? (isFoundBy P normPhone) with
      | none => (added + 1, addContact
          { id := contactId row.now ++ "_" ++ Nat.toDigits 10 added, name, phones := [number],
            aliases := [P.lowercase name], source := "android_contacts" } s)
      | some i =>
        match s.contacts[i]? with
        | some existing =>
          if named P name existing = existing then (added, s)
          else (added, changeContact i (named P name) s)
        | none => (added, s)
  | _, _ => (added, s)

/-- An exception of the cursor ends the rows. -/
def syncRows : List AndroidRow → ℕ → Store → ℕ × Store
  | [], added, s => (added, s)
  | row :: rows, added, s => syncRows rows (syncRow P row added s).1 (syncRow P row added s).2

def syncAndroidContacts (rows : List AndroidRow) (s : Store) : ℕ × Store := syncRows P rows 0 s

/-- A call from outside, with what the clock and the cursor answer. -/
inductive Operation
  | findOrCreateByPhone (phone : Str) (now : ℕ)
  | findOrCreateByEmail (email : Str) (now : ℕ)
  | setInstructions (identifier : Str) (instructions : Option Str) (behavior : Option ReplyBehavior)
  | syncAndroidContacts (rows : List AndroidRow)

def operate : Operation → Store → Store
  | .findOrCreateByPhone phone now, s => (findOrCreateByPhone P phone now s).2
  | .findOrCreateByEmail email now, s => (findOrCreateByEmail P email now s).2
  | .setInstructions identifier instructions behavior, s => setInstructions P identifier instructions behavior s
  | .syncAndroidContacts rows, s => (syncAndroidContacts P rows s).2

def run (ops : List Operation) (s : Store) : Store := ops.foldl (fun s op ↦ operate P op s) s

/-! What an operation can do to the store -/

/-- A contact keeps its id, its numbers and its addresses, and loses no name. -/
structure Extends (c c' : Contact) : Prop where
  id : c'.id = c.id
  phones : c'.phones = c.phones
  emails : c'.emails = c.emails
  name : ∀ name ∈ c.name, name ∈ c'.name
  aliases : ∀ a ∈ c.aliases, a ∈ c'.aliases

theorem Extends.refl (c : Contact) : Extends c c := ⟨rfl, rfl, rfl, fun _ h ↦ h, fun _ h ↦ h⟩

theorem Extends.trans {c c' c'' : Contact} (h : Extends c c') (h' : Extends c' c'') : Extends c c'' :=
  ⟨h'.id.trans h.id, h'.phones.trans h.phones, h'.emails.trans h.emails, fun n hn ↦ h'.name n (h.name n hn),
    fun a ha ↦ h'.aliases a (h.aliases a ha)⟩

theorem instructed_extends (instructions : Option Str) (behavior : Option ReplyBehavior) (c : Contact) :
    Extends c (instructed instructions behavior c) :=
  ⟨rfl, rfl, rfl, fun _ h ↦ h, fun _ h ↦ h⟩

theorem named_extends (name : Str) (c : Contact) : Extends c (named P name c) := by
  refine ⟨rfl, rfl, rfl, fun n hn ↦ ?_, fun a ha ↦ ?_⟩
  · simp only [named, Option.mem_def] at hn ⊢
    rw [hn]
    rfl
  · simp only [named]
    split
    · exact ha
    · exact List.mem_append_left _ ha

/-- The contacts that an operation may add. -/
def Adds : Operation → Contact → Prop
  | .findOrCreateByPhone phone now, c =>
    c = { id := contactId now, name := none, phones := [phone], source := "sms" }
  | .findOrCreateByEmail email now, c =>
    c = { id := contactId now, name := none, emails := [email], source := "email" }
  | .setInstructions .., _ => False
  | .syncAndroidContacts rows, c => ∃ row ∈ rows, ∃ name number added,
    row.number = some number ∧ 7 ≤ (PhoneNormalizer.lastTen number).length ∧
      c = { id := contactId row.now ++ "_" ++ Nat.toDigits 10 added, name := some name, phones := [number],
            aliases := [P.lowercase name], source := "android_contacts" }

theorem changeContact_getElem? (i j : ℕ) (f : Contact → Contact) (s : Store) :
    (changeContact i f s).contacts[j]? = (s.contacts[j]?).map (if j = i then f else id) := by
  unfold changeContact
  cases hi : s.contacts[i]? with
  | none =>
    by_cases hj : j = i
    · rw [hj, hi]
      rfl
    · rw [if_neg hj, Option.map_id, id]
  | some c =>
    change (s.contacts.set i (f c))[j]? = _
    by_cases hj : j = i
    · rw [hj, if_pos rfl, hi, List.getElem?_set_self (List.getElem?_eq_some_iff.mp hi).1]
      rfl
    · rw [if_neg hj, Option.map_id, id, List.getElem?_set_ne (Ne.symm hj)]

section Induction

variable {P} {I : Store → Prop} {s : Store}

theorem syncRows_induction {rows all : List AndroidRow} {added : ℕ} (hsub : ∀ row ∈ rows, row ∈ all) (h : I s)
    (add : ∀ c s, Adds P (.syncAndroidContacts all) c → I s → I (addContact c s))
    (change : ∀ i f s, (∀ c, Extends c (f c)) → I s → I (changeContact i f s)) :
    I (syncRows P rows added s).2 := by
  induction rows generalizing added s with
  | nil => exact h
  | cons row rows ih =>
    rw [List.forall_mem_cons] at hsub
    refine ih hsub.2 ?_
    unfold syncRow
    split
    · rename_i name number hname hnumber
      dsimp only
      split
      · exact h
      · rename_i hlength
        split
        · exact add _ _ ⟨row, hsub.1, name, number, added, hnumber, Nat.le_of_not_lt hlength, rfl⟩ h
        · split
          · split
            · exact h
            · exact change _ _ _ (named_extends P name) h
          · exact h
    · exact h

/-- To show what no operation destroys: each adds contacts and changes them. -/
theorem operate_induction {op : Operation} (h : I s) (add : ∀ c s, Adds P op c → I s → I (addContact c s))
    (change : ∀ i f s, (∀ c, Extends c (f c)) → I s → I (changeContact i f s)) : I (operate P op s) := by
  cases op with
  | findOrCreateByPhone phone now =>
    simp only [operate, findOrCreateByPhone]
    split
    · exact h
    · exact add _ _ rfl h
  | findOrCreateByEmail email now =>
    simp only [operate, findOrCreateByEmail]
    split
    · exact h
    · exact add _ _ rfl h
  | setInstructions identifier instructions behavior =>
    simp only [operate, setInstructions]
    split
    · exact change _ _ _ (instructed_extends _ _) h
    · exact h
  | syncAndroidContacts rows => exact syncRows_induction (fun _ ↦ id) h add change

end Induction

end Aigentik.ContactEngine
