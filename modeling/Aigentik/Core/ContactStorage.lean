import Aigentik.Core.ContactEngine
import Aigentik.Effects.KeyedTable
import Mathlib.Data.List.Nodup

namespace Aigentik.ContactStorage

open Strings ContactEngine KeyedTable

/-- What the id of a new contact is made of. -/
inductive Stamp
  | single (now : ℕ)
  | synced (now added : ℕ)
  deriving DecidableEq

def Stamp.id : Stamp → Str
  | .single now => contactId now
  | .synced now added => contactId now ++ "_" ++ Nat.toDigits 10 added

variable (P : Platform)

def rowStamp (row : AndroidRow) (added : ℕ) (s : Store) : List Stamp :=
  match row.name, row.number with
  | some _, some number =>
    let normPhone := PhoneNormalizer.lastTen number
    if normPhone.length < 7 ∨ (s.contacts.findIdx? (isFoundBy P normPhone)).isSome then []
    else [.synced row.now added]
  | _, _ => []

def syncStamps : List AndroidRow → ℕ → Store → List Stamp
  | [], _, _ => []
  | row :: rows, added, s =>
    rowStamp P row added s ++ syncStamps rows (syncRow P row added s).1 (syncRow P row added s).2

/-- The contacts that a call creates. -/
def stamps : Operation → Store → List Stamp
  | .findOrCreateByPhone phone now, s => if (findContact P phone s).isSome then [] else [.single now]
  | .findOrCreateByEmail email now, s => if (findContact P email s).isSome then [] else [.single now]
  | .setInstructions .., _ => []
  | .syncAndroidContacts rows, s => syncStamps P rows 0 s

def allStamps : List Operation → Store → List Stamp
  | [], _ => []
  | op :: ops, s => stamps P op s ++ allStamps ops (operate P op s)

def ids (s : Store) : List Str := s.contacts.map Contact.id

/-- What `loadFromRoom` reads after a restart. -/
def reloaded (s : Store) : List Contact := (loadFromRoom s.room).contacts

variable {P} {s : Store} {c : Contact}

/-! Ids -/

theorem toDigits_injective : Function.Injective (Nat.toDigits 10) := by
  intro a b h
  have hread := congrArg (Nat.ofDigitChars 10 · 0) h
  simpa only [Nat.ofDigitChars_ten_toDigits] using hread

theorem contactId_injective : Function.Injective contactId := by
  intro a b h
  unfold contactId at h
  exact toDigits_injective (List.append_cancel_left h)

theorem synced_id (now added : ℕ) :
    (Stamp.synced now added).id = contactId now ++ '_' :: Nat.toDigits 10 added := by
  have hseparator : "_".toList = ['_'] := rfl
  rw [Stamp.id, hseparator, List.append_assoc, List.singleton_append]

theorem single_ne_synced (now now' added : ℕ) : (Stamp.single now).id ≠ (Stamp.synced now' added).id := by
  intro h
  rw [synced_id, Stamp.id] at h
  unfold contactId at h
  generalize "contact_".toList = label at h
  rw [List.append_assoc] at h
  have hdigits := List.append_cancel_left h
  have hmem : '_' ∈ Nat.toDigits 10 now := by
    rw [hdigits]
    exact List.mem_append_right _ List.mem_cons_self
  exact Nat.underscore_not_in_toDigits hmem

theorem Stamp.id_injective : Function.Injective Stamp.id := by
  rintro (now | ⟨now, added⟩) (now' | ⟨now', added'⟩) h
  · have hnow : now = now' := contactId_injective h
    rw [hnow]
  · exact absurd h (single_ne_synced now now' added')
  · exact absurd h.symm (single_ne_synced now' now added)
  · rw [synced_id, synced_id] at h
    unfold contactId at h
    generalize "contact_".toList = label at h
    rw [List.append_assoc, List.append_assoc] at h
    obtain ⟨hnow, -, hadded⟩ := (List.append_cons_inj_of_notMem Nat.underscore_not_in_toDigits
      Nat.underscore_not_in_toDigits).mp (List.append_cancel_left h)
    rw [toDigits_injective hnow, toDigits_injective hadded]

theorem ids_addContact (c : Contact) (s : Store) : ids (addContact c s) = ids s ++ [c.id] := List.map_append

theorem ids_changeContact {i : ℕ} {f : Contact → Contact} (hf : ∀ c, Extends c (f c)) :
    ids (changeContact i f s) = ids s := by
  refine List.ext_getElem? fun j ↦ ?_
  simp only [ids, List.getElem?_map, changeContact_getElem?, Option.map_map]
  congr 1
  funext c
  by_cases hj : j = i
  · simp only [Function.comp_apply, if_pos hj, (hf c).id]
  · simp only [Function.comp_apply, if_neg hj, id]

theorem ids_syncRow (row : AndroidRow) (added : ℕ) (s : Store) :
    ids (syncRow P row added s).2 = ids s ++ (rowStamp P row added s).map Stamp.id := by
  unfold syncRow rowStamp
  cases row.name with
  | none => exact (List.append_nil _).symm
  | some name =>
    cases row.number with
    | none => exact (List.append_nil _).symm
    | some number =>
      dsimp only
      by_cases hlength : (PhoneNormalizer.lastTen number).length < 7
      · rw [if_pos hlength, if_pos (.inl hlength)]
        exact (List.append_nil _).symm
      · rw [if_neg hlength]
        cases hfound : s.contacts.findIdx? (isFoundBy P (PhoneNormalizer.lastTen number)) with
        | none =>
          rw [if_neg (by simp [hlength])]
          exact ids_addContact _ s
        | some i =>
          rw [if_pos (.inr rfl), List.map_nil, List.append_nil]
          dsimp only
          split
          · split
            · rfl
            · exact ids_changeContact (named_extends P name)
          · rfl

theorem ids_syncRows (rows : List AndroidRow) (added : ℕ) (s : Store) :
    ids (syncRows P rows added s).2 = ids s ++ (syncStamps P rows added s).map Stamp.id := by
  induction rows generalizing added s with
  | nil => exact (List.append_nil _).symm
  | cons row rows ih => simp only [syncRows, syncStamps, ih, ids_syncRow, List.map_append, List.append_assoc]

theorem ids_operate (op : Operation) (s : Store) :
    ids (operate P op s) = ids s ++ (stamps P op s).map Stamp.id := by
  cases op with
  | findOrCreateByPhone phone now =>
    cases hfound : findContact P phone s with
    | none => simp [operate, findOrCreateByPhone, stamps, hfound, ids_addContact, Stamp.id]
    | some c => simp [operate, findOrCreateByPhone, stamps, hfound]
  | findOrCreateByEmail email now =>
    cases hfound : findContact P email s with
    | none => simp [operate, findOrCreateByEmail, stamps, hfound, ids_addContact, Stamp.id]
    | some c => simp [operate, findOrCreateByEmail, stamps, hfound]
  | setInstructions identifier instructions behavior =>
    rw [stamps, List.map_nil, List.append_nil, operate, setInstructions]
    split
    · exact ids_changeContact (instructed_extends _ _)
    · rfl
  | syncAndroidContacts rows => exact ids_syncRows rows 0 s

theorem ids_run (ops : List Operation) (s : Store) :
    ids (run P ops s) = ids s ++ (allStamps P ops s).map Stamp.id := by
  induction ops generalizing s with
  | nil => exact (List.append_nil _).symm
  | cons op ops ih =>
    change ids (run P ops (operate P op s)) = _
    rw [ih, ids_operate, allStamps, List.map_append, List.append_assoc]

/-! The table -/

theorem ReplyBehavior.ofName_name (b : ReplyBehavior) : ReplyBehavior.ofName b.name = b := by
  cases b <;> decide

theorem toContact_toEntity (c : Contact) : c.toEntity.toContact = c := by
  simp [Contact.toEntity, ContactEntity.toContact, ReplyBehavior.ofName_name]

theorem reloaded_persistContact (c : Contact) (s : Store) :
    reloaded (persistContact c s) = replace Contact.id c (reloaded s) := by
  have hmap : (replace ContactEntity.id c.toEntity s.room).map ContactEntity.toContact =
      replace Contact.id c.toEntity.toContact (reloaded s) := map_replace fun _ ↦ rfl
  rw [toContact_toEntity] at hmap
  exact hmap

/-- The table has one row for each id, and agrees with the cache when that does. -/
structure Mirrors (s : Store) : Prop where
  keyed : (s.room.map ContactEntity.id).Nodup
  agrees : (ids s).Nodup → s.contacts.Perm (reloaded s)

theorem persistContact_keyed (h : (s.room.map ContactEntity.id).Nodup) (c : Contact) :
    ((persistContact c s).room.map ContactEntity.id).Nodup :=
  nodup_replace (x := c.toEntity) h

theorem Mirrors.load {room : List ContactEntity} (h : (room.map ContactEntity.id).Nodup) :
    Mirrors (loadFromRoom room) :=
  ⟨h, fun _ ↦ .refl _⟩

theorem Mirrors.add (h : Mirrors s) (c : Contact) : Mirrors (addContact c s) := by
  refine ⟨persistContact_keyed h.keyed c, fun hids ↦ ?_⟩
  rw [ids_addContact, List.nodup_append] at hids
  obtain ⟨hold, -, hnew⟩ := hids
  have hperm := h.agrees hold
  have hfresh : c.id ∉ (reloaded s).map Contact.id := by
    intro hmem
    exact hnew _ ((hperm.map Contact.id).mem_iff.mpr hmem) c.id (List.mem_singleton.mpr rfl) rfl
  have hroom : reloaded (addContact c s) = replace Contact.id c (reloaded s) := reloaded_persistContact c _
  rw [hroom, replace_of_fresh hfresh]
  exact hperm.append_right [c]

theorem Mirrors.change (h : Mirrors s) {i : ℕ} {f : Contact → Contact} (hf : ∀ c, Extends c (f c)) :
    Mirrors (changeContact i f s) := by
  have hids := ids_changeContact (s := s) (i := i) hf
  unfold changeContact at hids ⊢
  cases hi : s.contacts[i]? with
  | none => exact h
  | some c =>
    simp only [hi] at hids ⊢
    refine ⟨persistContact_keyed h.keyed _, fun hnodup ↦ ?_⟩
    rw [hids] at hnodup
    rw [reloaded_persistContact]
    exact (replace_perm_set hnodup hi (hf c).id).symm.trans (replace_perm (h.agrees hnodup))

theorem run_mirrors {ops : List Operation} (h : Mirrors s) : Mirrors (run P ops s) := by
  induction ops generalizing s with
  | nil => exact h
  | cons op ops ih =>
    exact ih (operate_induction h (fun c _ _ h ↦ h.add c) fun _ _ _ hf h ↦ h.change hf)

theorem Mirrors.agrees_iff (h : Mirrors s) : s.contacts.Perm (reloaded s) ↔ (ids s).Nodup := by
  refine ⟨fun hperm ↦ ?_, h.agrees⟩
  rw [ids, (hperm.map Contact.id).nodup_iff, reloaded, loadFromRoom, List.map_map]
  exact h.keyed

/-- The table has every contact exactly when no two contacts were created with one stamp and
none with the id of a contact that was loaded. -/
theorem room_agrees_iff {room : List ContactEntity} (hroom : (room.map ContactEntity.id).Nodup)
    (ops : List Operation) :
    let s := loadFromRoom room
    (run P ops s).contacts.Perm (loadFromRoom (run P ops s).room).contacts ↔
      (allStamps P ops s).Nodup ∧ ∀ stamp ∈ allStamps P ops s, stamp.id ∉ room.map ContactEntity.id := by
  intro s
  have hmirrors : Mirrors (run P ops s) := run_mirrors (.load hroom)
  have hloaded : ids s = room.map ContactEntity.id := List.map_map ..
  refine hmirrors.agrees_iff.trans ?_
  rw [ids_run, hloaded, List.nodup_append, List.nodup_map_iff Stamp.id_injective]
  constructor
  · intro h
    obtain ⟨-, hstamps, hapart⟩ := h
    exact ⟨hstamps, fun stamp hmem hid ↦ hapart _ hid _ (List.mem_map_of_mem hmem) rfl⟩
  · intro h
    obtain ⟨hstamps, hapart⟩ := h
    refine ⟨hroom, hstamps, ?_⟩
    intro id hid id' hid' heq
    obtain ⟨stamp, hmem, rfl⟩ := List.mem_map.mp hid'
    exact hapart stamp hmem (heq ▸ hid)

/-- One sender is known, and two more write in different milliseconds. -/
theorem apart_agrees :
    let room := [Contact.toEntity { id := contactId 1, name := none, phones := ["5550000000".toList], source := "sms" }]
    let s := loadFromRoom room
    let ops := [.findOrCreateByPhone "5550000000".toList 7, .findOrCreateByPhone "5550001111".toList 7,
      .findOrCreateByEmail "ann@example.com".toList 8]
    (run asciiPlatform ops s).contacts.Perm (loadFromRoom (run asciiPlatform ops s).room).contacts :=
  (room_agrees_iff (by decide +kernel) _).mpr (by decide +kernel)

/-- Two senders are new in the same millisecond. -/
theorem burst_lost :
    let s := loadFromRoom []
    let ops := [.findOrCreateByPhone "5550001111".toList 7, .findOrCreateByPhone "5550002222".toList 7]
    ¬ (run asciiPlatform ops s).contacts.Perm (loadFromRoom (run asciiPlatform ops s).room).contacts := by
  decide +kernel

end Aigentik.ContactStorage
