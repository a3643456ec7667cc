import Aigentik.Data.AppDB

namespace Aigentik.ReferentialIntegrity

open Strings NumberedTable AppDB

/-- The number -1 refers to nothing. -/
def optional (i : ℤ) : Option ℤ := if i = -1 then none else some i

/-- Every reference is to a row that is there. -/
structure Integrity (db : DB) : Prop where
  messages : Refers (fun m : ChatMessage ↦ some m.chatId) db.messages db.chats
  folders : Refers (fun c : Chat ↦ optional c.folderId) db.chats db.folders
  models : Refers (fun c : Chat ↦ optional c.llmModelId) db.chats db.models
  tasks : Refers (fun t : Task ↦ some t.modelId) db.tasks db.models

/-! The operations of the application -/

/-- `ModelsRepository.deleteModel`: it fails for a model that is not there. -/
def deleteModel (db : DB) (id : ℤ) : DB :=
  match getModel db id with
  | none => db
  | some model => AppDB.deleteModel db model.id

/-- The clean-up when `ModelsRepository` starts; `fileExists` tells of the paths. -/
def purgeModels (db : DB) (fileExists : Str → Bool) : DB :=
  db.models.rows.foldl (fun db model ↦ if fileExists model.path then db else deleteModel db model.id) db

/-- `ChatScreenViewModel.deleteChat`. -/
def deleteChat (db : DB) (now : ℤ) (chat : Chat) : DB :=
  (loadDefaultChat (deleteMessages (AppDB.deleteChat db chat) chat.id) now).2

inductive Op
  | loadDefaultChat (now : ℤ)
  | addChat (now : ℤ) (chatName chatTemplate systemPrompt : Str) (llmModelId : ℤ) (isTask : Bool)
  | updateChat (chat : Chat)
  | moveChatToFolder (chat : Chat) (folderId : ℤ)
  | deleteChat (now : ℤ) (chat : Chat)
  | deleteMessages (chatId : ℤ)
  | addUserMessage (chatId : ℤ) (message : Str)
  | addAssistantMessage (chatId : ℤ) (message : Str)
  | deleteMessage (messageId : ℤ)
  | addModel (name url path : Str) (contextSize : ℤ) (chatTemplate : Str)
  | deleteModel (id : ℤ)
  | purgeModels (fileExists : Str → Bool)
  | addTask (name systemPrompt : Str) (modelId : ℤ)
  | updateTask (task : Task)
  | deleteTask (taskId : ℤ)
  | addFolder (folderName : Str)
  | updateFolder (folder : Folder)
  | deleteFolder (folderId : ℤ)
  | deleteFolderWithChats (folderId : ℤ)

def step (db : DB) : Op → DB
  | .loadDefaultChat now => (AppDB.loadDefaultChat db now).2
  | .addChat now chatName chatTemplate systemPrompt llmModelId isTask =>
    (AppDB.addChat db now chatName chatTemplate systemPrompt llmModelId isTask).2
  | .updateChat chat => AppDB.updateChat db chat
  | .moveChatToFolder chat folderId => AppDB.moveChatToFolder db chat folderId
  | .deleteChat now chat => deleteChat db now chat
  | .deleteMessages chatId => AppDB.deleteMessages db chatId
  | .addUserMessage chatId message => AppDB.addUserMessage db chatId message
  | .addAssistantMessage chatId message => AppDB.addAssistantMessage db chatId message
  | .deleteMessage messageId => AppDB.deleteMessage db messageId
  | .addModel name url path contextSize chatTemplate => AppDB.addModel db name url path contextSize chatTemplate
  | .deleteModel id => deleteModel db id
  | .purgeModels fileExists => purgeModels db fileExists
  | .addTask name systemPrompt modelId => AppDB.addTask db name systemPrompt modelId
  | .updateTask task => AppDB.updateTask db task
  | .deleteTask taskId => AppDB.deleteTask db taskId
  | .addFolder folderName => AppDB.addFolder db folderName
  | .updateFolder folder => AppDB.updateFolder db folder
  | .deleteFolder folderId => AppDB.deleteFolder db folderId
  | .deleteFolderWithChats folderId => AppDB.deleteFolderWithChats db folderId

def run (db : DB) (ops : List Op) : DB := ops.foldl step db

/-- The folder and the model of a chat are there, or it has none. -/
structure Placed (db : DB) (folderId llmModelId : ℤ) : Prop where
  folder : folderId = -1 ∨ db.folders.Has folderId
  model : llmModelId = -1 ∨ db.models.Has llmModelId

structure Unused (db : DB) (modelId : ℤ) : Prop where
  chats : ∀ c ∈ db.chats.rows, c.llmModelId ≠ modelId
  tasks : ∀ t ∈ db.tasks.rows, t.modelId ≠ modelId

/-- What an operation needs of the database. -/
def Guard (db : DB) : Op → Prop
  | .addChat _ _ _ _ llmModelId _ => llmModelId = -1 ∨ db.models.Has llmModelId
  | .updateChat chat => db.chats.Has chat.id → Placed db chat.folderId chat.llmModelId
  | .moveChatToFolder chat folderId => db.chats.Has chat.id → Placed db folderId chat.llmModelId
  | .addUserMessage chatId _ | .addAssistantMessage chatId _ => db.chats.Has chatId
  | .deleteModel id => db.models.Has id → Unused db id
  | .purgeModels fileExists => ∀ m ∈ db.models.rows, fileExists m.path = false → Unused db m.id
  | .addTask _ _ modelId => db.models.Has modelId
  | .updateTask task => db.tasks.Has task.id → db.models.Has task.modelId
  | .deleteFolderWithChats folderId =>
    ∀ c ∈ db.chats.rows, c.folderId = folderId → ∀ m ∈ db.messages.rows, m.chatId ≠ c.id
  | .loadDefaultChat _ | .deleteChat .. | .deleteMessages _ | .deleteMessage _ | .addModel .. | .deleteTask _
  | .addFolder _ | .updateFolder _ | .deleteFolder _ => True

variable {db : DB} {i j : ℤ}

theorem forall_optional {p : ℤ → Prop} : (∀ i ∈ optional j, p i) ↔ j = -1 ∨ p j := by
  unfold optional
  by_cases h : j = -1 <;> simp [h]

theorem optional_ne_some (hi : 0 < i) : optional j ≠ some i ↔ j ≠ i := by
  unfold optional
  by_cases hj : j = -1
  · simp [hj]
    omega
  · simp [hj]

/-! Chats -/

theorem addChat_iff (h : Integrity db) {now : ℤ} {chatName chatTemplate systemPrompt : Str} {llmModelId : ℤ}
    {isTask : Bool} : Integrity (AppDB.addChat db now chatName chatTemplate systemPrompt llmModelId isTask).2 ↔
      llmModelId = -1 ∨ db.models.Has llmModelId := by
  constructor
  · intro h'
    exact forall_optional.mp (refers_insert.mp h'.models).2
  · intro hg
    exact ⟨h.messages.insert_target _, refers_insert.mpr ⟨h.folders, forall_optional.mpr (.inl rfl)⟩,
      refers_insert.mpr ⟨h.models, forall_optional.mpr hg⟩, h.tasks⟩

theorem loadDefaultChat_integrity (h : Integrity db) (now : ℤ) : Integrity (AppDB.loadDefaultChat db now).2 := by
  unfold AppDB.loadDefaultChat
  split
  · exact (addChat_iff h).mpr (.inl rfl)
  · exact h

theorem updateChat_iff (h : Integrity db) {chat : Chat} : Integrity (AppDB.updateChat db chat) ↔
    (db.chats.Has chat.id → Placed db chat.folderId chat.llmModelId) := by
  constructor
  · intro h' hchat
    exact ⟨forall_optional.mp ((refers_update h.folders).mp h'.folders hchat),
      forall_optional.mp ((refers_update h.models).mp h'.models hchat)⟩
  · intro hg
    exact ⟨refers_update_target.mpr h.messages,
      (refers_update h.folders).mpr fun hchat ↦ forall_optional.mpr (hg hchat).folder,
      (refers_update h.models).mpr fun hchat ↦ forall_optional.mpr (hg hchat).model, h.tasks⟩

theorem deleteChat_integrity (h : Integrity db) (now : ℤ) (chat : Chat) : Integrity (deleteChat db now chat) := by
  apply loadDefaultChat_integrity
  refine ⟨?_, h.folders.delete _, h.models.delete _, h.tasks⟩
  apply (refers_delete_target (h.messages.delete _)).mpr
  intro c _ hc m hm heq
  have hid : c.id = chat.id := by simpa using hc
  have hkept : m.chatId ≠ chat.id := by simpa using (List.mem_filter.mp hm).2
  exact hkept ((Option.some.inj heq).trans hid)

/-! Messages, models and tasks -/

theorem insertMessage_iff (h : Integrity db) {chatId : ℤ} {message : Str} {isUserMessage : Bool} :
    Integrity (insertMessage db chatId message isUserMessage) ↔ db.chats.Has chatId := by
  constructor
  · intro h'
    exact (refers_insert.mp h'.messages).2 _ rfl
  · intro hchat
    refine ⟨refers_insert.mpr ⟨h.messages, ?_⟩, h.folders, h.models, h.tasks⟩
    rintro i hi
    rwa [← Option.some.inj hi]

theorem addTask_iff (h : Integrity db) {name systemPrompt : Str} {modelId : ℤ} :
    Integrity (AppDB.addTask db name systemPrompt modelId) ↔ db.models.Has modelId := by
  constructor
  · intro h'
    exact (refers_insert.mp h'.tasks).2 _ rfl
  · intro hmodel
    refine ⟨h.messages, h.folders, h.models, refers_insert.mpr ⟨h.tasks, ?_⟩⟩
    rintro i hi
    rwa [← Option.some.inj hi]

theorem updateTask_iff (h : Integrity db) {task : Task} :
    Integrity (AppDB.updateTask db task) ↔ (db.tasks.Has task.id → db.models.Has task.modelId) := by
  constructor
  · intro h' htask
    exact (refers_update h.tasks).mp h'.tasks htask _ rfl
  · intro hg
    refine ⟨h.messages, h.folders, h.models, (refers_update h.tasks).mpr fun htask i hi ↦ ?_⟩
    rw [← Option.some.inj hi]
    exact hg htask

theorem deleteModels_iff (h : Integrity db) {p : LLMModel → Bool} :
    Integrity { db with models := db.models.delete p } ↔ ∀ m ∈ db.models.rows, p m = true → Unused db m.id := by
  constructor
  · intro h' m hm hp
    have chats := (refers_delete_target h.models).mp h'.models m hm hp
    have tasks := (refers_delete_target h.tasks).mp h'.tasks m hm hp
    exact ⟨fun c hc ↦ (optional_ne_some (db.models.numbered m hm).1).mp (chats c hc),
      fun t ht heq ↦ tasks t ht (congrArg some heq)⟩
  · intro hg
    refine ⟨h.messages, h.folders, ?_, ?_⟩
    · refine (refers_delete_target h.models).mpr fun m hm hp c hc ↦ ?_
      exact (optional_ne_some (db.models.numbered m hm).1).mpr ((hg m hm hp).chats c hc)
    · refine (refers_delete_target h.tasks).mpr fun m hm hp t ht heq ↦ ?_
      exact (hg m hm hp).tasks t ht (Option.some.inj heq)

theorem deleteModel_eq (db : DB) (id : ℤ) :
    deleteModel db id = { db with models := db.models.delete fun m ↦ m.id = id } := by
  rw [deleteModel, getModel]
  cases hfind : db.models.rows.find? fun m ↦ m.id = id with
  | none =>
    have absent := List.find?_eq_none.mp hfind
    have same : db.models.delete (fun m ↦ m.id = id) = db.models := by
      refine Table.ext_rows (List.filter_eq_self.mpr fun m hm ↦ ?_) rfl
      simpa using absent m hm
    rw [same]
  | some model =>
    have hid : model.id = id := by simpa using List.find?_some hfind
    change AppDB.deleteModel db model.id = _
    rw [hid, AppDB.deleteModel]

theorem deleteModel_iff (h : Integrity db) {id : ℤ} :
    Integrity (deleteModel db id) ↔ (db.models.Has id → Unused db id) := by
  rw [deleteModel_eq, deleteModels_iff h]
  constructor
  · intro hall h'
    obtain ⟨m, hm, rfl⟩ := h'
    exact hall m hm (by simp [Row.num])
  · intro hg m hm hid
    have hid : m.id = id := by simpa using hid
    subst hid
    exact hg ⟨m, hm, rfl⟩

/-- Of the models that are left, those of `models` whose files are missing go. -/
theorem purge_eq (fileExists : Str → Bool) (models : List LLMModel) (db : DB) :
    models.foldl (fun db model ↦ if fileExists model.path then db else deleteModel db model.id) db =
      { db with
        models := db.models.delete fun m ↦ models.any fun model ↦ !fileExists model.path && m.id = model.id } := by
  induction models generalizing db with
  | nil =>
    have same : db.models.delete (fun _ ↦ false) = db.models :=
      Table.ext_rows (List.filter_eq_self.mpr fun _ _ ↦ rfl) rfl
    simp only [List.foldl_nil, List.any_nil, same]
  | cons model models ih =>
    rw [List.foldl_cons]
    cases hfile : fileExists model.path with
    | true =>
      rw [if_pos rfl, ih]
      simp [hfile]
    | false =>
      rw [if_neg Bool.false_ne_true, ih, deleteModel_eq]
      have rows : ∀ t : Table LLMModel, (t.delete fun m ↦ m.id = model.id).delete
          (fun m ↦ models.any fun model ↦ !fileExists model.path && m.id = model.id) =
          t.delete fun m ↦ (model :: models).any fun model ↦ !fileExists model.path && m.id = model.id := by
        intro t
        refine Table.ext_rows ?_ rfl
        simp only [Table.delete, List.filter_filter, List.any_cons, hfile, Bool.not_false, Bool.true_and,
          Bool.not_or, Bool.and_comm]
      rw [rows]

theorem purgeModels_iff (h : Integrity db) {fileExists : Str → Bool} : Integrity (purgeModels db fileExists) ↔
    ∀ m ∈ db.models.rows, fileExists m.path = false → Unused db m.id := by
  rw [purgeModels, purge_eq, deleteModels_iff h]
  have stale : ∀ m ∈ db.models.rows,
      (db.models.rows.any fun model ↦ !fileExists model.path && m.id = model.id) = true ↔
        fileExists m.path = false := by
    intro m hm
    rw [List.any_eq_true]
    constructor
    · intro h'
      obtain ⟨model, hmodel, hstale⟩ := h'
      simp only [Bool.and_eq_true, Bool.not_eq_true', decide_eq_true_eq] at hstale
      rw [Table.eq_of_num hm hmodel hstale.2]
      exact hstale.1
    · intro hfile
      exact ⟨m, hm, by simp [hfile]⟩
  exact forall₂_congr fun m hm ↦ by rw [stale m hm]

/-! Folders -/

theorem has_other_folder {folderId : ℤ} (hi : i ≠ folderId) (h : db.folders.Has i) :
    (db.folders.delete fun f ↦ f.id = folderId).Has i := by
  obtain ⟨f, hf, hfi⟩ := h
  exact Table.has_delete.mpr ⟨f, hf, decide_eq_false fun heq ↦ hi (hfi.symm.trans heq), hfi⟩

theorem eq_of_mem_optional (h : i ∈ optional j) : i = j := by
  unfold optional at h
  split at h
  · cases h
  · exact (Option.some.inj h).symm

theorem deleteFolder_integrity (h : Integrity db) (folderId : ℤ) : Integrity (AppDB.deleteFolder db folderId) := by
  have hnum := Chat.num_moved folderId (-1)
  refine ⟨(refers_modify_target hnum).mpr h.messages, (refers_modify hnum).mpr ?_, (refers_modify hnum).mpr ?_, h.tasks⟩
  · intro c hc i hi
    by_cases hfolder : c.folderId = folderId
    · rw [Chat.moved, if_pos hfolder] at hi
      cases hi
    · rw [Chat.moved, if_neg hfolder] at hi
      exact has_other_folder (eq_of_mem_optional hi ▸ hfolder) (h.folders c hc i hi)
  · intro c hc i hi
    have hmodel : (c.moved folderId (-1)).llmModelId = c.llmModelId := by
      unfold Chat.moved
      split <;> rfl
    rw [hmodel] at hi
    exact h.models c hc i hi

theorem deleteFolderWithChats_iff (h : Integrity db) {folderId : ℤ} :
    Integrity (AppDB.deleteFolderWithChats db folderId) ↔
      ∀ c ∈ db.chats.rows, c.folderId = folderId → ∀ m ∈ db.messages.rows, m.chatId ≠ c.id := by
  constructor
  · intro h' c hc hfolder m hm heq
    exact (refers_delete_target h.messages).mp h'.messages c hc (by simpa using hfolder) m hm (congrArg some heq)
  · intro hg
    refine ⟨(refers_delete_target h.messages).mpr ?_, ?_, h.models.delete _, h.tasks⟩
    · intro c hc hfolder m hm heq
      exact hg c hc (by simpa using hfolder) m hm (Option.some.inj heq)
    · intro c hc i hi
      obtain ⟨hc, hkept⟩ := List.mem_filter.mp hc
      have hfolder : c.folderId ≠ folderId := by simpa using hkept
      exact has_other_folder (eq_of_mem_optional hi ▸ hfolder) (h.folders c hc i hi)

/-! Runs -/

/-- An operation keeps the references intact if and only if its guard holds. -/
theorem step_iff (h : Integrity db) (op : Op) : Integrity (step db op) ↔ Guard db op := by
  cases op with
  | loadDefaultChat now => exact iff_of_true (loadDefaultChat_integrity h now) trivial
  | addChat => exact addChat_iff h
  | updateChat | moveChatToFolder => exact updateChat_iff h
  | deleteChat now chat => exact iff_of_true (deleteChat_integrity h now chat) trivial
  | addUserMessage | addAssistantMessage => exact insertMessage_iff h
  | deleteMessages | deleteMessage =>
    exact iff_of_true ⟨h.messages.delete _, h.folders, h.models, h.tasks⟩ trivial
  | addModel => exact iff_of_true ⟨h.messages, h.folders, h.models.insert_target _, h.tasks.insert_target _⟩ trivial
  | deleteModel => exact deleteModel_iff h
  | purgeModels => exact purgeModels_iff h
  | addTask => exact addTask_iff h
  | updateTask => exact updateTask_iff h
  | deleteTask => exact iff_of_true ⟨h.messages, h.folders, h.models, h.tasks.delete _⟩ trivial
  | addFolder => exact iff_of_true ⟨h.messages, h.folders.insert_target _, h.models, h.tasks⟩ trivial
  | updateFolder => exact iff_of_true ⟨h.messages, refers_update_target.mpr h.folders, h.models, h.tasks⟩ trivial
  | deleteFolder folderId => exact iff_of_true (deleteFolder_integrity h folderId) trivial
  | deleteFolderWithChats => exact deleteFolderWithChats_iff h

theorem empty_integrity : Integrity .empty := by
  constructor <;> exact fun _ h ↦ (List.not_mem_nil h).elim

/-- The guards of the operations, each in the state in which it starts. -/
def Guarded (db : DB) : List Op → Prop
  | [] => True
  | op :: ops => Guard db op ∧ Guarded (step db op) ops

theorem run_iff (h : Integrity db) (ops : List Op) :
    (∀ before, before <+: ops → Integrity (run db before)) ↔ Guarded db ops := by
  induction ops generalizing db with
  | nil =>
    refine iff_of_true (fun before hb ↦ ?_) trivial
    rw [List.prefix_nil.mp hb]
    exact h
  | cons op ops ih =>
    rw [Guarded, ← step_iff h op]
    constructor
    · intro hall
      have hstep : Integrity (step db op) := hall [op] ⟨ops, rfl⟩
      refine ⟨hstep, (ih hstep).mp fun before hb ↦ ?_⟩
      exact hall (op :: before) (List.cons_prefix_cons.mpr ⟨rfl, hb⟩)
    · intro h' before hb
      obtain ⟨hstep, hguarded⟩ := h'
      cases before with
      | nil => exact h
      | cons op' before =>
        obtain ⟨rfl, hrest⟩ := List.cons_prefix_cons.mp hb
        exact (ih hstep).mpr hguarded before hrest

/-- All references are intact throughout a run of operations if and only if each of them meets
its guard. -/
theorem integrity_iff_guarded (ops : List Op) :
    (∀ before, before <+: ops → Integrity (run .empty before)) ↔ Guarded .empty ops :=
  run_iff empty_integrity ops

/-- A chat with a message, moved into a folder that is then deleted with its chats. -/
def folderRun : List Op :=
  [.addFolder "Work", .addChat 0 "Untitled" [] defaultSystemPrompt (-1) false, .addUserMessage 1 "hi",
    .moveChatToFolder { id := 1, dateCreated := 0, dateUsed := 0 } 1, .deleteFolderWithChats 1]

/-- A task on a model that is then deleted. -/
def modelRun : List Op := [.addModel "tiny" [] "tiny.gguf" 2048 [], .addTask "Summary" [] 1, .deleteModel 1]

theorem orphans_left : ¬ Integrity (run .empty folderRun) ∧ ¬ Integrity (run .empty modelRun) := by
  constructor
  · intro h
    have orphan := h.messages { id := 1, chatId := 1, message := "hi", isUserMessage := true } (by decide) 1 rfl
    revert orphan
    decide
  · intro h
    have orphan := h.tasks { id := 1, name := "Summary", modelId := 1 } (by decide) 1 rfl
    revert orphan
    decide

end Aigentik.ReferentialIntegrity
