import Aigentik.Effects.NumberedTable
import Aigentik.Strings.Text
import Mathlib.Data.Rat.Defs

namespace Aigentik.AppDB

open Strings NumberedTable

/-- The rows of the five tables. Dates are in milliseconds; `Float`s are only passed on. -/
structure Chat where
  id : ℤ := 0
  name : Str := []
  systemPrompt : Str := []
  dateCreated : ℤ
  dateUsed : ℤ
  llmModelId : ℤ := -1
  minP : ℚ := 1 / 10
  temperature : ℚ := 8 / 10
  nThreads : ℤ := 4
  useMmap : Bool := true
  useMlock : Bool := false
  contextSize : ℤ := 0
  contextSizeConsumed : ℤ := 0
  chatTemplate : Str := []
  isTask : Bool := false
  folderId : ℤ := -1
  deriving DecidableEq

structure ChatMessage where
  id : ℤ := 0
  chatId : ℤ := 0
  message : Str := []
  isUserMessage : Bool := false
  deriving DecidableEq

structure LLMModel where
  id : ℤ := 0
  name : Str := []
  url : Str := []
  path : Str := []
  contextSize : ℤ := 0
  chatTemplate : Str := []
  deriving DecidableEq

structure Task where
  id : ℤ := 0
  name : Str := []
  systemPrompt : Str := []
  modelId : ℤ := -1
  shortcutId : Option Str := none
  deriving DecidableEq

structure Folder where
  id : ℤ := 0
  name : Str := []
  deriving DecidableEq

instance : Row Chat := ⟨Chat.id, fun x i ↦ { x with id := i }, fun _ _ ↦ rfl⟩
instance : Row ChatMessage := ⟨ChatMessage.id, fun x i ↦ { x with id := i }, fun _ _ ↦ rfl⟩
instance : Row LLMModel := ⟨LLMModel.id, fun x i ↦ { x with id := i }, fun _ _ ↦ rfl⟩
instance : Row Task := ⟨Task.id, fun x i ↦ { x with id := i }, fun _ _ ↦ rfl⟩
instance : Row Folder := ⟨Folder.id, fun x i ↦ { x with id := i }, fun _ _ ↦ rfl⟩

structure DB where
  chats : Table Chat
  messages : Table ChatMessage
  models : Table LLMModel
  tasks : Table Task
  folders : Table Folder

def DB.empty : DB := ⟨.empty, .empty, .empty, .empty, .empty⟩

variable (db : DB)

/-! Chats -/

def defaultSystemPrompt : Str := "You are a helpful assistant."

/-- The chat is returned with the number that it was given. -/
def addChat (now : ℤ) (chatName chatTemplate systemPrompt : Str) (llmModelId : ℤ) (isTask : Bool) : Chat × DB :=
  let newChat : Chat :=
    { name := chatName
      systemPrompt := systemPrompt
      dateCreated := now
      dateUsed := now
      llmModelId := llmModelId
      contextSize := 2048
      chatTemplate := chatTemplate
      isTask := isTask }
  ({ newChat with id := db.chats.last + 1 }, { db with chats := db.chats.insert newChat })

def getChatsCount : ℕ := db.chats.rows.length

/-- `ORDER BY dateUsed DESC LIMIT 1`; of equal dates the first row counts. -/
def getRecentlyUsedChat : Option Chat :=
  db.chats.rows.foldl (fun best chat ↦ match best with
    | none => some chat
    | some b => some (if b.dateUsed < chat.dateUsed then chat else b)) none

def loadDefaultChat (now : ℤ) : Option Chat × DB :=
  if getChatsCount db = 0 then
    let db := (addChat db now "Untitled" [] defaultSystemPrompt (-1) false).2
    (getRecentlyUsedChat db, db)
  else (getRecentlyUsedChat db, db)

def updateChat (modifiedChat : Chat) : DB := { db with chats := db.chats.update modifiedChat }

def deleteChat (chat : Chat) : DB := { db with chats := db.chats.delete fun c ↦ c.id = chat.id }

def moveChatToFolder (chat : Chat) (folderId : ℤ) : DB := updateChat db { chat with folderId := folderId }

/-! Messages -/

def getMessagesForModel (chatId : ℤ) : List ChatMessage := db.messages.rows.filter fun m ↦ m.chatId = chatId

def insertMessage (chatId : ℤ) (message : Str) (isUserMessage : Bool) : DB :=
  { db with
    messages := db.messages.insert { chatId := chatId, message := message, isUserMessage := isUserMessage } }

def addUserMessage (chatId : ℤ) (message : Str) : DB := insertMessage db chatId message true

def addAssistantMessage (chatId : ℤ) (message : Str) : DB := insertMessage db chatId message false

def deleteMessage (messageId : ℤ) : DB := { db with messages := db.messages.delete fun m ↦ m.id = messageId }

def deleteMessages (chatId : ℤ) : DB := { db with messages := db.messages.delete fun m ↦ m.chatId = chatId }

/-! Models -/

def addModel (name url path : Str) (contextSize : ℤ) (chatTemplate : Str) : DB :=
  { db with
    models := db.models.insert
      { name := name, url := url, path := path, contextSize := contextSize, chatTemplate := chatTemplate } }

def getModel (id : ℤ) : Option LLMModel := db.models.rows.find? fun m ↦ m.id = id

def deleteModel (id : ℤ) : DB := { db with models := db.models.delete fun m ↦ m.id = id }

/-! Tasks -/

def addTask (name systemPrompt : Str) (modelId : ℤ) : DB :=
  { db with tasks := db.tasks.insert { name := name, systemPrompt := systemPrompt, modelId := modelId } }

def deleteTask (taskId : ℤ) : DB := { db with tasks := db.tasks.delete fun t ↦ t.id = taskId }

def updateTask (task : Task) : DB := { db with tasks := db.tasks.update task }

/-! Folders -/

def addFolder (folderName : Str) : DB := { db with folders := db.folders.insert { name := folderName } }

def addFolderAndGetId (folderName : Str) : ℤ × DB :=
  let db := addFolder db folderName
  (((db.folders.rows.filter fun f ↦ f.name = folderName).getLast?.map Folder.id).getD (-1), db)

theorem addFolderAndGetId_snd (folderName : Str) : (addFolderAndGetId db folderName).2 = addFolder db folderName := rfl

def updateFolder (folder : Folder) : DB := { db with folders := db.folders.update folder }

def Chat.moved (oldFolderId newFolderId : ℤ) (c : Chat) : Chat :=
  if c.folderId = oldFolderId then { c with folderId := newFolderId } else c

theorem Chat.num_moved (oldFolderId newFolderId : ℤ) (c : Chat) :
    Row.num (c.moved oldFolderId newFolderId) = Row.num c := by
  unfold Chat.moved
  split <;> rfl

def updateFolderIds (oldFolderId newFolderId : ℤ) : DB :=
  { db with chats := db.chats.modify (Chat.moved oldFolderId newFolderId) (Chat.num_moved _ _) }

def deleteFolder (folderId : ℤ) : DB :=
  let db := { db with folders := db.folders.delete fun f ↦ f.id = folderId }
  updateFolderIds db folderId (-1)

def deleteChatsInFolder (folderId : ℤ) : DB := { db with chats := db.chats.delete fun c ↦ c.folderId = folderId }

def deleteFolderWithChats (folderId : ℤ) : DB :=
  let db := { db with folders := db.folders.delete fun f ↦ f.id = folderId }
  deleteChatsInFolder db folderId

end Aigentik.AppDB
