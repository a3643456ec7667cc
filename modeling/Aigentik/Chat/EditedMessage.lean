import Aigentik.Data.AppDB
import Aigentik.Smollm.SmolLM

namespace Aigentik.EditedMessage

open Strings Utf8 NumberedTable AppDB LLMInference

structure Manager (Token : Type) where
  chat : Option Chat
  isInstanceLoaded : Bool
  isInferenceOn : Bool
  native : Option (State Token)

structure World (Token : Type) where
  db : DB
  chat : Chat
  manager : Manager Token

/-- The time, the bytes that the native methods get for a text, the size of the context that
`instance.load` makes, unless it throws, and the answer to an earlier query, if it is still stored
in the chat before the load reads the messages. -/
structure Surroundings where
  now : ℤ
  utf : Str → Bytes
  nativeLoad : Chat → LLMModel → Option ℕ
  late : Option Str

structure MessageEdited where
  chatId : ℤ
  oldMessage : ChatMessage
  lastMessage : ChatMessage
  newMessageText : Str

/-- The screen sends the number of its chat. -/
structure Edit (chat : Chat) extends MessageEdited where
  ofChat : chatId = chat.id

variable {Token : Type} (L : Llama Token) (env : Surroundings)

/-! The manager -/

def unload (m : Manager Token) : Manager Token := { m with isInstanceLoaded := false, chat := none, native := none }

def addMessage (s : State Token) (message : ChatMessage) : State Token :=
  if message.isUserMessage then SmolLM.addUserMessage (env.utf message.message) s
  else SmolLM.addAssistantMessage (env.utf message.message) s

def addSystemPrompt (chat : Chat) (s : State Token) : State Token :=
  if chat.systemPrompt ≠ [] then SmolLM.addSystemPrompt (env.utf chat.systemPrompt) s else s

def addStoredMessages (db : DB) (chat : Chat) (s : State Token) : State Token :=
  if chat.isTask then s else (getMessagesForModel db chat.id).foldl (addMessage env) s

/-- The database that the load reads. -/
def meanwhile (db : DB) (chat : Chat) : DB :=
  match env.late with
  | some response => addAssistantMessage db chat.id response
  | none => db

/-- `load`, and whether it calls `onSuccess`. -/
def load (chat : Chat) (model : LLMModel) (w : World Token) : Bool × World Token :=
  let w := { w with db := meanwhile env w.db chat, manager.chat := some chat }
  match env.nativeLoad chat model with
  | none => (false, w)
  | some nCtx =>
    let s := addSystemPrompt env chat (LLMInference.loadModel (!chat.isTask) nCtx)
    (true, { w with
      manager.native := some (addStoredMessages env w.db chat s)
      manager.isInstanceLoaded := true })

/-- The native model as the completion begins. -/
def getResponse (query : Str) (m : Manager Token) : Option (State Token) :=
  if m.isInstanceLoaded then m.native.map fun s ↦ (SmolLM.nativeStartCompletion L (env.utf query) s).2 else none

/-! The view model -/

def unloadModel (w : World Token) : World Token :=
  if w.manager.isInferenceOn then w else { w with manager := unload w.manager }

def loadModel (w : World Token) : Bool × World Token :=
  match getModel w.db w.chat.llmModelId with
  | some model => if w.chat.llmModelId = -1 then (false, w) else load env w.chat model w
  | none => (false, w)

def storeQuery (chat : Chat) (query : Str) (addMessageToDB : Bool) (db : DB) : DB :=
  let db := updateChat db { chat with dateUsed := env.now }
  let db := if chat.isTask then deleteMessages db chat.id else db
  if addMessageToDB then addUserMessage db chat.id query else db

def sendUserQuery (query : Str) (addMessageToDB : Bool) (w : World Token) : Option (State Token) × World Token :=
  (getResponse L env query w.manager, { w with db := storeQuery env w.chat query addMessageToDB w.db })

def editMessages (e : MessageEdited) (db : DB) : DB :=
  let db := deleteMessage db e.oldMessage.id
  let db := if e.lastMessage.isUserMessage then db else deleteMessage db e.lastMessage.id
  addUserMessage db e.chatId e.newMessageText

def onMessageEdited (e : MessageEdited) (w : World Token) : Option (State Token) × World Token :=
  let w := unloadModel { w with db := editMessages e w.db }
  match loadModel env w with
  | (true, w) => sendUserQuery L env e.newMessageText false w
  | (false, w) => (none, w)

/-! The prompt -/

def spoken (message : ChatMessage) : Str × Bytes :=
  (if message.isUserMessage then "user".toList else "assistant".toList, cstr (env.utf message.message))

def systemMessages (chat : Chat) : List (Str × Bytes) :=
  if chat.systemPrompt ≠ [] then [("system".toList, cstr (env.utf chat.systemPrompt))] else []

/-- The chat's messages that the edit leaves. -/
def kept (e : MessageEdited) (w : World Token) : List ChatMessage :=
  (getMessagesForModel w.db w.chat.id).filter fun m ↦
    m.id ≠ e.oldMessage.id ∧ (e.lastMessage.isUserMessage = true ∨ m.id ≠ e.lastMessage.id)

/-- The chat's messages when the load reads them. -/
def rows (e : MessageEdited) (w : World Token) : List ChatMessage :=
  getMessagesForModel (meanwhile env (editMessages e w.db) w.chat) w.chat.id

/-- The system prompt and the messages of the chat, where one user message comes after those that
the edit leaves. -/
structure EditedOnce (e : MessageEdited) (w : World Token) (messages : List (Str × Bytes)) : Prop where
  ordered : messages = systemMessages env w.chat ++ (rows env e w).map (spoken env)
  once : messages.filter (fun m ↦ m.1 = "user".toList) =
    ((kept e w).filter ChatMessage.isUserMessage).map (spoken env) ++ [("user".toList, cstr (env.utf e.newMessageText))]

/-- The chat has a model, and it can be loaded. -/
def Begins (w : World Token) : Prop :=
  w.chat.llmModelId ≠ -1 ∧ ∃ model, getModel w.db w.chat.llmModelId = some model ∧ (env.nativeLoad w.chat model).isSome

variable {L env}

theorem addMessage_messages (s : State Token) (message : ChatMessage) :
    (addMessage env s message).messages = s.messages ++ [spoken env message] := by
  unfold addMessage spoken
  split <;> rfl

theorem foldl_addMessage (messages : List ChatMessage) (s : State Token) :
    (messages.foldl (addMessage env) s).messages = s.messages ++ messages.map (spoken env) := by
  induction messages generalizing s with
  | nil => exact (List.append_nil _).symm
  | cons message rest ih =>
    rw [List.foldl_cons, ih, addMessage_messages, List.append_assoc]
    rfl

theorem addSystemPrompt_messages (chat : Chat) (s : State Token) :
    (addSystemPrompt env chat s).messages = s.messages ++ systemMessages env chat := by
  unfold addSystemPrompt systemMessages
  split
  · rfl
  · exact (List.append_nil _).symm

theorem addStoredMessages_messages (db : DB) (chat : Chat) (s : State Token) :
    (addStoredMessages env db chat s).messages =
      s.messages ++ if chat.isTask then [] else (getMessagesForModel db chat.id).map (spoken env) := by
  unfold addStoredMessages
  split
  · exact (List.append_nil _).symm
  · exact foldl_addMessage _ s

def editedRow (e : MessageEdited) (w : World Token) : ChatMessage :=
  ⟨w.db.messages.last + 1, w.chat.id, e.newMessageText, true⟩

theorem getMessagesForModel_insert (db : DB) (chatId : ℤ) (message : Str) (isUserMessage : Bool) :
    getMessagesForModel (insertMessage db chatId message isUserMessage) chatId =
      getMessagesForModel db chatId ++ [⟨db.messages.last + 1, chatId, message, isUserMessage⟩] := by
  simp [getMessagesForModel, insertMessage, Table.insert, Row.withNum]

theorem getMessagesForModel_delete (db : DB) (messageId chatId : ℤ) :
    getMessagesForModel (deleteMessage db messageId) chatId =
      (getMessagesForModel db chatId).filter fun m ↦ m.id ≠ messageId := by
  simp only [getMessagesForModel, deleteMessage, Table.delete, List.filter_filter, decide_not, Bool.and_comm]

theorem editMessages_rows {w : World Token} (e : Edit w.chat) :
    getMessagesForModel (editMessages e.toMessageEdited w.db) w.chat.id =
      kept e.toMessageEdited w ++ [editedRow e.toMessageEdited w] := by
  unfold editMessages addUserMessage
  dsimp only
  rw [e.ofChat, getMessagesForModel_insert]
  unfold kept
  split
  · rename_i hlast
    rw [getMessagesForModel_delete]
    simp [hlast]
    rfl
  · rename_i hlast
    rw [getMessagesForModel_delete, getMessagesForModel_delete, List.filter_filter]
    simp [hlast, Bool.and_comm]
    rfl

theorem rows_eq (env : Surroundings) {w : World Token} (e : Edit w.chat) : ∃ answer : List ChatMessage,
    rows env e.toMessageEdited w = kept e.toMessageEdited w ++ editedRow e.toMessageEdited w :: answer ∧
      (answer = [] ↔ env.late = none) := by
  unfold rows meanwhile
  cases hlate : env.late with
  | none => exact ⟨[], editMessages_rows e, by simp⟩
  | some response =>
    refine ⟨[⟨(editMessages e.toMessageEdited w.db).messages.last + 1, w.chat.id, response, false⟩], ?_, by simp⟩
    dsimp only [addAssistantMessage]
    rw [getMessagesForModel_insert, editMessages_rows e, List.append_assoc]
    rfl

theorem editMessages_models (e : MessageEdited) (db : DB) : (editMessages e db).models = db.models := by
  unfold editMessages
  dsimp only
  split <;> rfl

theorem unloadModel_frame (w : World Token) : (unloadModel w).db = w.db ∧ (unloadModel w).chat = w.chat := by
  unfold unloadModel
  split <;> exact ⟨rfl, rfl⟩

/-- A load that ends well has made a fresh instance of what the database had for the chat. -/
theorem loadModel_cases (env : Surroundings) (w : World Token) :
    (¬Begins env w ∧ ∃ w', loadModel env w = (false, w')) ∨ (Begins env w ∧ ∃ w' s, loadModel env w = (true, w') ∧
      w'.manager.isInstanceLoaded = true ∧ w'.manager.native = some s ∧ s.messages = systemMessages env w.chat ++
        if w.chat.isTask then [] else
          (getMessagesForModel (meanwhile env w.db w.chat) w.chat.id).map (spoken env)) := by
  unfold loadModel Begins
  cases hmodel : getModel w.db w.chat.llmModelId with
  | none => exact .inl ⟨by simp, w, rfl⟩
  | some model =>
    dsimp only
    by_cases hid : w.chat.llmModelId = -1
    · rw [if_pos hid]
      exact .inl ⟨fun h ↦ h.1 hid, w, rfl⟩
    · rw [if_neg hid]
      unfold load
      cases hload : env.nativeLoad w.chat model with
      | none => exact .inl ⟨by simp [hload], _, rfl⟩
      | some nCtx =>
        refine .inr ⟨⟨hid, model, rfl, by rw [hload]; rfl⟩, _, _, rfl, rfl, rfl, ?_⟩
        rw [addStoredMessages_messages, addSystemPrompt_messages]
        rfl

/-- A completion adds the query to what the load has added. -/
theorem onMessageEdited_cases (L : Llama Token) (env : Surroundings) (e : MessageEdited) (w : World Token) :
    (¬Begins env w ∧ (onMessageEdited L env e w).1 = none) ∨
      (Begins env w ∧ ∃ s, (onMessageEdited L env e w).1 = some s ∧ s.messages = systemMessages env w.chat ++
        (if w.chat.isTask then [] else (rows env e w).map (spoken env)) ++
          [("user".toList, cstr (env.utf e.newMessageText))]) := by
  obtain ⟨hdb, hchat⟩ := unloadModel_frame { w with db := editMessages e w.db }
  have hbegins : Begins env (unloadModel { w with db := editMessages e w.db }) ↔ Begins env w := by
    unfold Begins getModel
    rw [hdb, hchat, editMessages_models]
  have hcases := loadModel_cases env (unloadModel { w with db := editMessages e w.db })
  rw [hbegins, hdb, hchat] at hcases
  unfold onMessageEdited
  dsimp only
  rcases hcases with ⟨hnot, w', heq⟩ | ⟨hyes, w', s, heq, hloaded, hnative, hmessages⟩
  · rw [heq]
    exact .inl ⟨hnot, rfl⟩
  · rw [heq]
    refine .inr ⟨hyes, (SmolLM.nativeStartCompletion L (env.utf e.newMessageText) s).2, ?_, ?_⟩
    · simp only [sendUserQuery, getResponse, hloaded, hnative, if_true, Option.map_some]
    · rw [SmolLM.nativeStartCompletion, (startCompletion_started L _ _).messages, hmessages]
      rfl

theorem systemMessages_user (chat : Chat) : (systemMessages env chat).filter (fun m ↦ m.1 = "user".toList) = [] := by
  unfold systemMessages
  split <;> rfl

/-- The messages are right exactly if the chat is a task and the edited message is all that the
database has for it; elsewhere the load and the query bring it both. -/
theorem edited_once_iff (L : Llama Token) (env : Surroundings) (w : World Token) (e : Edit w.chat) :
    (∀ s, (onMessageEdited L env e.toMessageEdited w).1 = some s → EditedOnce env e.toMessageEdited w s.messages) ↔
      (Begins env w → w.chat.isTask = true ∧ kept e.toMessageEdited w = [] ∧ env.late = none) := by
  obtain ⟨answer, hrows, hanswer⟩ := rows_eq env e
  have hedited : spoken env (editedRow e.toMessageEdited w) = ("user".toList, cstr (env.utf e.newMessageText)) := rfl
  rcases onMessageEdited_cases L env e.toMessageEdited w with ⟨hnot, heq⟩ | ⟨hyes, s, heq, hmessages⟩
  · rw [heq]
    exact ⟨fun _ h ↦ absurd h hnot, fun _ s hs ↦ by cases hs⟩
  · rw [heq]
    have hone : (∀ s', some s = some s' → EditedOnce env e.toMessageEdited w s'.messages) ↔
        EditedOnce env e.toMessageEdited w s.messages := by
      constructor
      · intro h
        exact h s rfl
      · intro h s' hs'
        cases hs'
        exact h
    rw [hone]
    constructor
    · intro h _
      have hordered := hmessages.symm.trans h.ordered
      rw [List.append_assoc] at hordered
      have hlist := List.append_cancel_left hordered
      by_cases htask : w.chat.isTask = true
      · rw [if_pos htask, hrows] at hlist
        have hlength := congrArg List.length hlist
        simp only [List.nil_append, List.length_map, List.length_append, List.length_cons, List.length_nil] at hlength
        refine ⟨htask, List.length_eq_zero_iff.mp (by omega), hanswer.mp (List.length_eq_zero_iff.mp (by omega))⟩
      · rw [if_neg htask] at hlist
        have hlength := congrArg List.length hlist
        simp only [List.length_append, List.length_singleton] at hlength
        omega
    · intro h
      obtain ⟨htask, hkept, hlate⟩ := h hyes
      rw [hanswer.mpr hlate, hkept] at hrows
      rw [hmessages, if_pos htask]
      constructor
      · rw [hrows, List.append_nil]
        exact congrArg (_ ++ [·]) hedited.symm
      · rw [hkept, List.append_nil, List.filter_append, systemMessages_user]
        rfl

/-! A chat with one question and its answer -/

def question : ChatMessage := ⟨1, 1, "hi".toList, true⟩

def answer : ChatMessage := ⟨2, 1, "hello".toList, false⟩

def chatDB : DB :=
  let db := addModel .empty "m" [] [] 2048 []
  let db := (addChat db 0 "c" [] [] 1 false).2
  let db := addUserMessage db 1 question.message
  addAssistantMessage db 1 answer.message

def opened : World Bytes where
  db := chatDB
  chat := (addChat .empty 0 "c" [] [] 1 false).1
  manager := ⟨none, false, false, none⟩

def quiet : Surroundings := ⟨1, SmolLM.ascii, fun _ _ ↦ some 2048, none⟩

def edit : Edit opened.chat where
  chatId := 1
  oldMessage := question
  lastMessage := answer
  newMessageText := "hey"
  ofChat := rfl

theorem edited_twice : ∃ s, (onMessageEdited SmolLM.bytesLlama quiet edit.toMessageEdited opened).1 = some s ∧
    s.messages = [("user".toList, SmolLM.ascii "hey"), ("user".toList, SmolLM.ascii "hey")] ∧
      ¬EditedOnce quiet edit.toMessageEdited opened s.messages := by
  have hrun : ((onMessageEdited SmolLM.bytesLlama quiet edit.toMessageEdited opened).1.map State.messages) =
      some [("user".toList, SmolLM.ascii "hey"), ("user".toList, SmolLM.ascii "hey")] := by decide +kernel
  obtain ⟨s, hs, hmessages⟩ := Option.map_eq_some_iff.mp hrun
  refine ⟨s, hs, hmessages, fun h ↦ ?_⟩
  have hordered := hmessages.symm.trans h.ordered
  revert hordered
  decide +kernel

end Aigentik.EditedMessage
