import Aigentik.Data.AppDB

namespace Aigentik.ChatUpdates

open Strings NumberedTable AppDB

structure EditableChatSettings where
  name : Str
  systemPrompt : Str
  minP : ℚ
  temperature : ℚ
  contextSize : ℤ
  nThreads : ℤ
  chatTemplate : Str
  useMmap : Bool
  useMlock : Bool
  isTask : Bool

def EditableChatSettings.fromChat (chat : Chat) : EditableChatSettings where
  name := chat.name
  systemPrompt := chat.systemPrompt
  minP := chat.minP
  temperature := chat.temperature
  contextSize := chat.contextSize
  nThreads := chat.nThreads
  chatTemplate := chat.chatTemplate
  useMmap := chat.useMmap
  useMlock := chat.useMlock
  isTask := chat.isTask

/-- Whether the chat is a task stays as it is. -/
def EditableChatSettings.toChat (settings : EditableChatSettings) (existingChat : Chat) : Chat :=
  { existingChat with
    name := settings.name
    systemPrompt := settings.systemPrompt
    minP := settings.minP
    temperature := settings.temperature
    contextSize := settings.contextSize
    nThreads := settings.nThreads
    chatTemplate := settings.chatTemplate
    useMmap := settings.useMmap
    useMlock := settings.useMlock }

theorem EditableChatSettings.toChat_fromChat (chat : Chat) : (fromChat chat).toChat chat = chat := rfl

/-- `Chat` objects are mutable and shared, so they bear numbers. The state of the screen holds the
number of its chat, the settings screens those of their copies, and the queries without a response
those of the chats that they were sent in. -/
structure State where
  db : DB
  objects : ℕ → Chat
  next : ℕ
  chat : ℕ
  routes : List ℕ
  generating : List ℕ

namespace State

variable (s : State)

def current : Chat := s.objects s.chat

/-- `_uiState.update { it.copy(chat = newChat) }` with a new object. -/
def display (newChat : Chat) : State :=
  { s with
    objects := Function.update s.objects s.next newChat
    next := s.next + 1
    chat := s.next }

end State

/-- The events of the screen. `editSettings` opens the settings with a serialised copy of the chat.
`collected` is the collector that gives the chat its model, and `conflated` the state flow that
keeps another object which is equal to the new one. -/
inductive Event
  | updateChatFolder (newFolderId : ℤ)
  | updateChatModel (modelId : ℤ) (chatTemplate : Str)
  | deleteModel (modelId : ℤ)
  | editSettings
  | updateChatSettings (settings : EditableChatSettings) (existingChat : ℕ)
  | sendUserQuery (now : ℤ) (query : Str) (addMessageToDB : Bool)
  | responseCompleted (chat : ℕ) (contextLengthUsed : ℤ)
  | collected
  | conflated (chat : ℕ)

/-- One event with the writes that it launches; `none` if it cannot happen. -/
def step (s : State) : Event → Option State
  | .updateChatFolder newFolderId => some { s with db := updateChat s.db { s.current with folderId := newFolderId } }
  | .updateChatModel modelId chatTemplate =>
    let newChat := { s.current with llmModelId := modelId, chatTemplate := chatTemplate }
    some { s.display newChat with db := updateChat s.db newChat }
  | .deleteModel modelId =>
    (getModel s.db modelId).map fun model ↦
      { s.display { s.current with llmModelId := -1 } with db := AppDB.deleteModel s.db model.id }
  | .editSettings =>
    some { s with
      objects := Function.update s.objects s.next s.current
      next := s.next + 1
      routes := s.next :: s.routes }
  | .updateChatSettings settings existingChat =>
    if existingChat ∈ s.routes then
      let newChat := settings.toChat (s.objects existingChat)
      some { s with
        objects := Function.update s.objects existingChat newChat
        chat := existingChat
        db := updateChat s.db newChat }
    else none
  | .sendUserQuery now query addMessageToDB =>
    let chat := { s.current with dateUsed := now }
    let db := updateChat s.db chat
    let db := if chat.isTask then deleteMessages db chat.id else db
    let db := if addMessageToDB then addUserMessage db chat.id query else db
    some { s with
      objects := Function.update s.objects s.chat chat
      db := db
      generating := s.chat :: s.generating }
  | .responseCompleted chat contextLengthUsed =>
    if chat ∈ s.generating then
      let updatedChat := { s.objects chat with contextSizeConsumed := contextLengthUsed }
      some { s.display updatedChat with
        db := updateChat s.db updatedChat
        generating := s.generating.erase chat }
    else none
  | .collected => some (s.display s.current)
  | .conflated chat => if s.objects chat = s.current then some { s with chat := chat } else none

def run (s : State) : List Event → Option State
  | [] => some s
  | event :: events => (step s event).bind fun s' ↦ run s' events

def opened (db : DB) (row : Chat) : State where
  db := db
  objects _ := row
  next := 1
  chat := 0
  routes := []
  generating := []

/-- The fields that an event sets. -/
def Event.set (chat : Chat) : Event → Chat
  | .updateChatFolder newFolderId => { chat with folderId := newFolderId }
  | .updateChatModel modelId chatTemplate => { chat with llmModelId := modelId, chatTemplate := chatTemplate }
  | .deleteModel _ => { chat with llmModelId := -1 }
  | .updateChatSettings settings _ => settings.toChat chat
  | .sendUserQuery now _ _ => { chat with dateUsed := now }
  | .responseCompleted _ contextLengthUsed => { chat with contextSizeConsumed := contextLengthUsed }
  | .editSettings | .collected | .conflated _ => chat

/-- The fields of a row after events, each with the last value that was set. -/
def lastSet (row : Chat) (events : List Event) : Chat := events.foldl Event.set row

/-- The copy from which an event writes the row. -/
def Event.copy (s : State) : Event → Option Chat
  | .updateChatFolder _ | .updateChatModel .. | .sendUserQuery .. => some s.current
  | .updateChatSettings _ chat | .responseCompleted chat _ => some (s.objects chat)
  | .deleteModel _ | .editSettings | .collected | .conflated _ => none

variable {s s' : State} {row : Chat} {event : Event} {id : ℤ}

/-- The copy agrees with the row in every field that the event does not set. An event that does not
write the row has nothing to set. -/
def Agrees (s : State) (row : Chat) (event : Event) : Prop :=
  match event.copy s with
  | some chat => event.set chat = event.set row
  | none => row = event.set row

/-- What an event leaves in the row. -/
def Event.stored (s : State) (row : Chat) (event : Event) : Chat :=
  match event.copy s with
  | some chat => event.set chat
  | none => row

theorem agrees_iff : Agrees s row event ↔ event.stored s row = event.set row := by
  unfold Agrees Event.stored
  cases event.copy s with
  | none => rfl
  | some chat => rfl

instance : Decidable (Agrees s row event) := decidable_of_iff' _ agrees_iff

/-- Every event agrees with the row that it finds. -/
def Agreeing (id : ℤ) (s : State) : List Event → Prop
  | [] => True
  | event :: events => ∀ s' ∈ step s event, (∀ row ∈ s.db.chats.find id, Agrees s row event) ∧ Agreeing id s' events

instance decidableAgreeing (id : ℤ) : ∀ (s : State) (events : List Event), Decidable (Agreeing id s events)
  | _, [] => inferInstanceAs (Decidable True)
  | s, event :: events =>
    have := fun s' ↦ decidableAgreeing id s' events
    inferInstanceAs (Decidable (∀ s' ∈ step s event, _))

/-! One event -/

/-- The number of the chat is that of every copy. -/
def Same (id : ℤ) (s : State) : Prop := ∀ chat, (s.objects chat).id = id

theorem set_id (chat : Chat) (event : Event) : (event.set chat).id = chat.id := by
  cases event <;> rfl

theorem Same.update (h : Same id s) {chat : Chat} (hchat : chat.id = id) (r : ℕ) :
    ∀ r', (Function.update s.objects r chat r').id = id := by
  intro r'
  by_cases hr : r' = r
  · rw [hr, Function.update_self]
    exact hchat
  · rw [Function.update_of_ne hr]
    exact h r'

theorem step_same (h : Same id s) (hstep : step s event = some s') : Same id s' := by
  have written : ∀ r, (event.set (s.objects r)).id = id := fun r ↦ (set_id _ event).trans (h r)
  cases event with
  | updateChatFolder newFolderId =>
    obtain rfl := Option.some.inj hstep
    exact h
  | updateChatModel modelId chatTemplate =>
    obtain rfl := Option.some.inj hstep
    exact h.update (written s.chat) s.next
  | deleteModel modelId =>
    obtain ⟨model, -, rfl⟩ := Option.map_eq_some_iff.mp hstep
    exact h.update (written s.chat) s.next
  | editSettings | collected =>
    obtain rfl := Option.some.inj hstep
    exact h.update (written s.chat) s.next
  | updateChatSettings settings existingChat =>
    obtain ⟨-, hstep⟩ := Option.ite_none_right_eq_some.mp hstep
    obtain rfl := Option.some.inj hstep
    exact h.update (written existingChat) existingChat
  | sendUserQuery now query addMessageToDB =>
    obtain rfl := Option.some.inj hstep
    exact h.update (written s.chat) s.chat
  | responseCompleted chat contextLengthUsed =>
    obtain ⟨-, hstep⟩ := Option.ite_none_right_eq_some.mp hstep
    obtain rfl := Option.some.inj hstep
    exact h.update (written chat) s.next
  | conflated chat =>
    obtain ⟨-, hstep⟩ := Option.ite_none_right_eq_some.mp hstep
    obtain rfl := Option.some.inj hstep
    exact h

theorem find_updateChat {db : DB} {chat : Chat} (hrow : db.chats.find id = some row) (hid : chat.id = id) :
    (updateChat db chat).chats.find id = some chat := by
  subst hid
  exact Table.find_update hrow

theorem step_find (h : Same id s) (hrow : s.db.chats.find id = some row) (hstep : step s event = some s') :
    s'.db.chats.find id = some (event.stored s row) := by
  have written : ∀ r, (event.set (s.objects r)).id = id := fun r ↦ (set_id _ event).trans (h r)
  cases event with
  | updateChatFolder newFolderId =>
    obtain rfl := Option.some.inj hstep
    exact find_updateChat hrow (written s.chat)
  | updateChatModel modelId chatTemplate =>
    obtain rfl := Option.some.inj hstep
    exact find_updateChat hrow (written s.chat)
  | deleteModel modelId =>
    obtain ⟨model, -, rfl⟩ := Option.map_eq_some_iff.mp hstep
    exact hrow
  | updateChatSettings settings existingChat =>
    obtain ⟨-, hstep⟩ := Option.ite_none_right_eq_some.mp hstep
    obtain rfl := Option.some.inj hstep
    exact find_updateChat hrow (written existingChat)
  | sendUserQuery now query addMessageToDB =>
    obtain rfl := Option.some.inj hstep
    -- the messages are in another table
    have chats : ∀ (db : DB) (isTask : Bool) (chatId : ℤ),
        (if addMessageToDB then addUserMessage (if isTask then deleteMessages db chatId else db) chatId query
          else if isTask then deleteMessages db chatId else db).chats = db.chats := by
      intro db isTask chatId
      cases addMessageToDB <;> cases isTask <;> rfl
    change Table.find (DB.chats _) id = _
    rw [chats]
    exact find_updateChat hrow (written s.chat)
  | responseCompleted chat contextLengthUsed =>
    obtain ⟨-, hstep⟩ := Option.ite_none_right_eq_some.mp hstep
    obtain rfl := Option.some.inj hstep
    exact find_updateChat hrow (written chat)
  | editSettings | collected =>
    obtain rfl := Option.some.inj hstep
    exact hrow
  | conflated chat =>
    obtain ⟨-, hstep⟩ := Option.ite_none_right_eq_some.mp hstep
    obtain rfl := Option.some.inj hstep
    exact hrow

/-! Runs -/

/-- The row has the values that were set last, after every part of a run that is possible. -/
def Keeps (s : State) (row : Chat) (events : List Event) : Prop :=
  ∀ before, before <+: events → ∀ s', run s before = some s' →
    s'.db.chats.find row.id = some (lastSet row before)

theorem run_cons (events : List Event) :
    run s (event :: events) = some s' ↔ ∃ s₁, step s event = some s₁ ∧ run s₁ events = some s' :=
  Option.bind_eq_some_iff

theorem keeps_nil (hrow : s.db.chats.find row.id = some row) : Keeps s row [] := by
  intro before hb s' hrun
  rw [List.prefix_nil.mp hb] at hrun ⊢
  obtain rfl := Option.some.inj hrun
  exact hrow

theorem Keeps.find {events : List Event} (h : Keeps s row events) : s.db.chats.find row.id = some row :=
  h [] List.nil_prefix s rfl

theorem keeps_cons (hrow : s.db.chats.find row.id = some row) (events : List Event) :
    Keeps s row (event :: events) ↔ ∀ s', step s event = some s' → Keeps s' (event.set row) events := by
  constructor
  · intro h s₁ hstep before hb s' hrun
    rw [set_id]
    exact h (event :: before) (List.cons_prefix_cons.mpr ⟨rfl, hb⟩) s' ((run_cons before).mpr ⟨s₁, hstep, hrun⟩)
  · intro h before hb s' hrun
    cases before with
    | nil =>
      obtain rfl := Option.some.inj hrun
      exact hrow
    | cons event' before =>
      obtain ⟨rfl, hrest⟩ := List.cons_prefix_cons.mp hb
      obtain ⟨s₁, hstep, hrun⟩ := (run_cons before).mp hrun
      rw [← set_id row event']
      exact h s₁ hstep before hrest s' hrun

theorem keeps_iff (events : List Event) (h : Same row.id s) (hrow : s.db.chats.find row.id = some row) :
    Keeps s row events ↔ Agreeing row.id s events := by
  induction events generalizing s row with
  | nil => exact iff_of_true (keeps_nil hrow) trivial
  | cons event events ih =>
    rw [keeps_cons hrow, Agreeing]
    refine forall₂_congr fun s' hstep ↦ ?_
    have hsame : Same (event.set row).id s' := by
      rw [set_id]
      exact step_same h hstep
    have hstored := step_find h hrow hstep
    rw [← set_id row event] at hstored ⊢
    constructor
    · intro hkeeps
      have hset := Option.some.inj (hstored.symm.trans hkeeps.find)
      refine ⟨fun row' hrow' ↦ ?_, (ih hsame hkeeps.find).mp hkeeps⟩
      rw [set_id, hrow] at hrow'
      obtain rfl := Option.some.inj hrow'
      exact agrees_iff.mpr hset
    · intro h'
      obtain ⟨hagrees, hrest⟩ := h'
      have hset := agrees_iff.mp (hagrees row (by rw [set_id, hrow, Option.mem_def]))
      exact (ih hsame (hset ▸ hstored)).mpr hrest

/-- Every field of the row keeps the value that was set last, throughout a run of events, if and only if
every event writes a copy that agrees with the row. -/
theorem fields_kept_iff (db : DB) (row : Chat) (hrow : row ∈ db.chats.rows) (events : List Event) :
    Keeps (opened db row) row events ↔ Agreeing row.id (opened db row) events :=
  keeps_iff events (fun _ ↦ rfl) (Table.find_eq_some.mpr ⟨hrow, rfl⟩)

def storedChat : Chat := (addChat .empty 0 "Untitled" [] defaultSystemPrompt (-1) false).1

def storedDB : DB := (addChat .empty 0 "Untitled" [] defaultSystemPrompt (-1) false).2

theorem query_and_response_kept : Keeps (opened storedDB storedChat) storedChat
    [.updateChatModel 3 "tiny", .sendUserQuery 5 "hi" true, .responseCompleted 1 40] :=
  (fields_kept_iff storedDB storedChat (by decide +kernel) _).mpr (by decide +kernel)

/-- The folder is lost when a query is sent after it has been changed. -/
theorem folder_lost :
    ¬ Keeps (opened storedDB storedChat) storedChat [.updateChatFolder 1, .sendUserQuery 5 "hi" true] := by
  intro h
  have lost := h _ List.prefix_rfl _ rfl
  revert lost
  decide +kernel

end Aigentik.ChatUpdates
