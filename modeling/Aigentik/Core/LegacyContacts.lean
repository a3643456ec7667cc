import Aigentik.Ai.AgentLLMFacade
import Aigentik.Core.ContactEngine
import Aigentik.Effects.KeyedTable

namespace Aigentik.LegacyContacts

open Strings ContactEngine KeyedTable AgentLLMFacade

/-- The reads of one object of `contacts.json`; `none` for an exception. -/
structure JsonObject where
  getString : Str → Option Str
  optString : Str → Str → Str
  optJSONArray : Str → Option (List (Option Str))
  optInt : Str → ℕ → ℕ

/-- The strings of an optional array. -/
def strings (array : Option (List (Option Str))) : Option (List Str) := (array.getD []).mapM id

def toEntity (obj : JsonObject) : Option ContactEntity := do
  let phones ← strings (obj.optJSONArray "phones")
  let emails ← strings (obj.optJSONArray "emails")
  let aliases ← strings (obj.optJSONArray "aliases")
  let id ← obj.getString "id"
  return {
    id
    name := ifEmptyNone (obj.optString "name" [])
    phones
    emails
    aliases
    relationship := ifEmptyNone (obj.optString "relationship" [])
    type := obj.optString "type" "unknown"
    notes := ifEmptyNone (obj.optString "notes" [])
    instructions := ifEmptyNone (obj.optString "instructions" [])
    replyBehavior := obj.optString "replyBehavior" "AUTO"
    contactCount := obj.optInt "contactCount" 0
    source := obj.optString "source" "auto" }

/-- `insertAll` with REPLACE, one transaction. -/
def insertAll (entities : List ContactEntity) (room : List ContactEntity) : List ContactEntity :=
  entities.foldl (fun room e ↦ replace ContactEntity.id e room) room

/-- How `renameTo` ends. -/
inductive Renaming
  | moved | refused | threw
  deriving DecidableEq

/-- What a launch meets: whether the file can be read and the rows inserted, how the renaming
ends, and the Android contacts. -/
structure Launch where
  readable : Bool
  inserts : Bool
  renameTo : Renaming
  rows : List AndroidRow

inductive Ending
  | absent | complete | failed
  deriving DecidableEq

structure Migration where
  contactsJson : Option Str
  room : List ContactEntity
  ending : Ending

structure Device where
  contactsJson : Option Str
  store : Store

/-- The parser `JSONArray(_)`, its elements as objects. -/
abbrev JsonArray := Str → Option (List (Option JsonObject))

variable (jsonArray : JsonArray)

def parse (text : Str) : Option (List ContactEntity) :=
  (jsonArray text).bind fun array ↦ array.mapM fun obj ↦ obj.bind toEntity

def migrateFromJsonIfNeeded (launch : Launch) (device : Device) : Migration :=
  let room := device.store.room
  match device.contactsJson with
  | none => ⟨none, room, .absent⟩
  | some text =>
    if launch.readable then
      match parse jsonArray text with
      | none => ⟨some text, room, .failed⟩
      | some entities =>
        if launch.inserts then
          match launch.renameTo with
          | .moved => ⟨none, insertAll entities room, .complete⟩
          | .refused => ⟨some text, insertAll entities room, .complete⟩
          | .threw => ⟨some text, insertAll entities room, .failed⟩
        else ⟨some text, room, .failed⟩
    else ⟨some text, room, .failed⟩

variable (P : Platform)

/-- A launch of the app, or a call while it runs. -/
inductive Step
  | launch (launch : Launch)
  | operate (op : Operation)

def init (launch : Launch) (device : Device) : Device :=
  let migration := migrateFromJsonIfNeeded jsonArray launch device
  ⟨migration.contactsJson, (syncAndroidContacts P launch.rows (loadFromRoom migration.room)).2⟩

def step : Step → Device → Device
  | .launch launch, device => init jsonArray P launch device
  | .operate op, device => { device with store := operate P op device.store }

def run (steps : List Step) (device : Device) : Device := steps.foldl (fun device s ↦ step jsonArray P s device) device

def Imports (launch : Launch) (device : Device) : Prop :=
  launch.readable = true ∧ launch.inserts = true ∧ (device.contactsJson.bind (parse jsonArray)).isSome

/-- After a first import no migration overwrites a row, and a migration that fails changes none. -/
structure AppliedOnce (steps : List Step) (device : Device) : Prop where
  kept : ∀ before first between later after,
    steps = before ++ .launch first :: between ++ .launch later :: after →
    Imports jsonArray first (run jsonArray P before device) →
    ∀ e ∈ (run jsonArray P (before ++ .launch first :: between) device).store.room,
      e ∈ (migrateFromJsonIfNeeded jsonArray later (run jsonArray P (before ++ .launch first :: between) device)).room
  intact : ∀ before launch after, steps = before ++ .launch launch :: after →
    (migrateFromJsonIfNeeded jsonArray launch (run jsonArray P before device)).ending = .failed →
    (migrateFromJsonIfNeeded jsonArray launch (run jsonArray P before device)).room =
      (run jsonArray P before device).store.room

/-- Every launch that inserts the contacts renames the file. -/
def AllRenamed : List Step → Device → Prop
  | [], _ => True
  | s :: steps, device =>
    (∀ launch, s = .launch launch → Imports jsonArray launch device → launch.renameTo = .moved) ∧
      AllRenamed steps (step jsonArray P s device)

variable {jsonArray P} {launch : Launch} {device : Device} {steps : List Step}

/-! What a migration does -/

theorem migrate_absent (h : device.contactsJson = none) :
    migrateFromJsonIfNeeded jsonArray launch device = ⟨none, device.store.room, .absent⟩ := by
  unfold migrateFromJsonIfNeeded
  rw [h]

theorem migrate_failed (h : ¬Imports jsonArray launch device) :
    (migrateFromJsonIfNeeded jsonArray launch device).room = device.store.room := by
  unfold migrateFromJsonIfNeeded
  cases hfile : device.contactsJson with
  | none => rfl
  | some text =>
    dsimp only
    split
    · rename_i hreadable
      cases hparse : parse jsonArray text with
      | none => rfl
      | some entities =>
        have hinserts : launch.inserts = false := by
          by_contra hne
          exact h ⟨hreadable, by simpa using hne, by rw [hfile, Option.bind_some, hparse]; rfl⟩
        dsimp only
        rw [hinserts, if_neg Bool.false_ne_true]
    · rfl

theorem migrate_moved (h : Imports jsonArray launch device) (hmoved : launch.renameTo = .moved) :
    (migrateFromJsonIfNeeded jsonArray launch device).contactsJson = none ∧
      (migrateFromJsonIfNeeded jsonArray launch device).ending = .complete := by
  obtain ⟨hreadable, hinserts, hparsed⟩ := h
  obtain ⟨entities, hparsed⟩ := Option.isSome_iff_exists.mp hparsed
  obtain ⟨text, hfile, hparse⟩ := Option.bind_eq_some_iff.mp hparsed
  unfold migrateFromJsonIfNeeded
  rw [hfile]
  dsimp only
  rw [if_pos hreadable, hparse]
  dsimp only
  rw [if_pos hinserts, hmoved]
  exact ⟨rfl, rfl⟩

/-! Runs -/

theorem run_append (before after : List Step) (device : Device) :
    run jsonArray P (before ++ after) device = run jsonArray P after (run jsonArray P before device) :=
  List.foldl_append ..

theorem step_absent (s : Step) (h : device.contactsJson = none) : (step jsonArray P s device).contactsJson = none := by
  cases s with
  | launch launch =>
    rw [step, init, migrate_absent h]
  | operate op => exact h

/-- Nothing brings the file back. -/
theorem run_absent (steps : List Step) (h : device.contactsJson = none) :
    (run jsonArray P steps device).contactsJson = none := by
  induction steps generalizing device with
  | nil => exact h
  | cons s steps ih => exact ih (step_absent s h)

theorem AllRenamed.at {before after : List Step} (h : AllRenamed jsonArray P (before ++ .launch launch :: after) device)
    (himports : Imports jsonArray launch (run jsonArray P before device)) : launch.renameTo = .moved := by
  induction before generalizing device with
  | nil => exact h.1 launch rfl himports
  | cons s before ih => exact ih h.2 himports

/-- Where every import is followed by the renaming, there is one import at most. -/
theorem applied_once (jsonArray : JsonArray) (P : Platform) (steps : List Step) (device : Device)
    (h : AllRenamed jsonArray P steps device) : AppliedOnce jsonArray P steps device := by
  constructor
  · intro before first between later after heq himports e he
    subst heq
    have hmoved : first.renameTo = .moved := by
      rw [List.append_assoc] at h
      exact h.at himports
    have hgone : (run jsonArray P (before ++ .launch first :: between) device).contactsJson = none := by
      rw [run_append]
      exact run_absent between (migrate_moved himports hmoved).1
    rw [migrate_absent hgone]
    exact he
  · intro before launch after heq hfailed
    subst heq
    by_cases himports : Imports jsonArray launch (run jsonArray P before device)
    · rw [(migrate_moved himports (h.at himports)).2] at hfailed
      cases hfailed
    · exact migrate_failed himports

/-! One contact, silenced after the import -/

def ann : JsonObject where
  getString key := if key = "id".toList then some "contact_1".toList else none
  optString key fallback := if key = "name".toList then "Ann".toList else fallback
  optJSONArray _ := none
  optInt _ fallback := fallback

def onlyAnn : JsonArray := fun _ ↦ some [some ann]

def fresh : Device := ⟨some "[\x7b\"id\":\"contact_1\",\"name\":\"Ann\"\x7d]".toList, ⟨[], []⟩⟩

def launched (renameTo : Renaming) : Launch := ⟨true, true, renameTo, []⟩

def silencing : Step := .operate (.setInstructions "Ann" (some "never reply".toList) (some .never))

theorem renamed_applied_once :
    AppliedOnce onlyAnn asciiPlatform [.launch (launched .moved), silencing, .launch (launched .refused)] fresh := by
  refine applied_once onlyAnn asciiPlatform _ fresh ⟨?_, ?_, ?_, trivial⟩
  · rintro launch heq -
    obtain rfl := Step.launch.inj heq
    rfl
  · rintro launch heq -
    cases heq
  · intro launch _ h
    obtain ⟨-, -, himports⟩ := h
    cases himports

/-- The file could not be renamed, and the next launch sets the contact back. -/
theorem never_reverted :
    ¬AppliedOnce onlyAnn asciiPlatform [.launch (launched .refused), silencing, .launch (launched .moved)] fresh := by
  intro h
  have hkept := h.kept [] (launched .refused) [silencing] (launched .moved) [] rfl ⟨rfl, rfl, rfl⟩
  revert hkept
  decide +kernel

end Aigentik.LegacyContacts
