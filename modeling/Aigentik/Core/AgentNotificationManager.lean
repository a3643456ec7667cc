import Aigentik.Data.AppDB

namespace Aigentik.AgentNotificationManager

open Strings NumberedTable AppDB

/-- The remembered numbers; -1 stands for none. -/
structure AigentikSettings where
  agentNotifFolderId : ℤ := -1
  agentNotifChatId : ℤ := -1
  benchmarkChatId : ℤ := -1
  deriving DecidableEq

/-- The database, the settings and the numbers that posts go to. -/
structure State where
  db : DB
  settings : AigentikSettings
  activityChatId : ℤ := -1
  benchmarkChatId : ℤ := -1

def FOLDER_NAME : Str := "Aigentik"

def ACTIVITY_CHAT_NAME : Str := "Agent Activity"

def BENCHMARK_CHAT_NAME : Str := "Benchmarks"

def activityPrompt : Str :=
  "This chat shows everything Aigentik is doing in the background: " ++
    "replies sent, actions blocked by policy, status updates, and errors."

def benchmarkPrompt : Str := "Agent pipeline benchmark results. Each message is one experiment run."

def readSettings (s : State) : State :=
  { s with activityChatId := s.settings.agentNotifChatId, benchmarkChatId := s.settings.benchmarkChatId }

/-- Chats exist if they can be counted. -/
def needsSetup (existingChats : Bool) (s : State) : Bool :=
  s.activityChatId = -1 ∨ s.benchmarkChatId = -1 ∨ ¬existingChats

def setupFolder (s : State) : ℤ × State :=
  if s.settings.agentNotifFolderId = -1 then
    let (id, db) := addFolderAndGetId s.db FOLDER_NAME
    (id, { s with db, settings.agentNotifFolderId := id })
  else (s.settings.agentNotifFolderId, s)

def addChatTo (db : DB) (now : ℤ) (chatName systemPrompt : Str) (folderId : ℤ) : ℤ × DB :=
  let (chat, db) := addChat db now chatName [] systemPrompt (-1) false
  (chat.id, moveChatToFolder db chat folderId)

def setupActivityChat (now folderId : ℤ) (s : State) : State :=
  if s.activityChatId = -1 then
    let (id, db) := addChatTo s.db now ACTIVITY_CHAT_NAME activityPrompt folderId
    { s with db, activityChatId := id, settings.agentNotifChatId := id }
  else s

def setupBenchmarkChat (now folderId : ℤ) (s : State) : State :=
  if s.benchmarkChatId = -1 then
    let (id, db) := addChatTo s.db now BENCHMARK_CHAT_NAME benchmarkPrompt folderId
    { s with db, benchmarkChatId := id, settings.benchmarkChatId := id }
  else s

/-- `init`, where no call of the database throws. -/
def init (now now' : ℤ) (s : State) : State :=
  let s := readSettings s
  if needsSetup true s then
    let (folderId, s) := setupFolder s
    setupBenchmarkChat now' folderId (setupActivityChat now folderId s)
  else s

/-! The chats after it -/

/-- The number is that of a chat in a folder. -/
def InFolder (db : DB) (id : ℤ) : Prop := ∃ chat ∈ db.chats.rows, chat.id = id ∧ db.folders.Has chat.folderId

structure Restored (s : State) : Prop where
  activity : InFolder s.db s.activityChatId
  benchmark : InFolder s.db s.benchmarkChatId

def Missing (s : State) : Prop := s.settings.agentNotifChatId = -1 ∨ s.settings.benchmarkChatId = -1

/-- Posts can go to a number that is remembered: its chat and the chat's folder are there, or will
be given just this number. -/
def Valid (s : State) (id : ℤ) : Prop :=
  (∃ chat ∈ s.db.chats.rows, chat.id = id ∧ (s.db.folders.Has chat.folderId ∨
    Missing s ∧ s.settings.agentNotifFolderId = -1 ∧ chat.folderId = s.db.folders.last + 1)) ∨
  Missing s ∧ id = s.db.chats.last + 1

structure Ready (s : State) : Prop where
  folder : Missing s → s.settings.agentNotifFolderId = -1 ∨ s.db.folders.Has s.settings.agentNotifFolderId
  activity : s.settings.agentNotifChatId ≠ -1 → Valid s s.settings.agentNotifChatId
  benchmark : s.settings.benchmarkChatId ≠ -1 → Valid s s.settings.benchmarkChatId

variable {db : DB} {s : State}

theorem addChatTo_rows (db : DB) (now folderId : ℤ) (chatName systemPrompt : Str) : ∃ chat : Chat,
    (addChatTo db now chatName systemPrompt folderId).2.chats.rows = db.chats.rows ++ [chat] ∧
      chat.id = db.chats.last + 1 ∧ chat.folderId = folderId :=
  ⟨_, Table.rows_update_insert rfl, rfl, rfl⟩

theorem not_inFolder_next (db : DB) : ¬InFolder db (db.chats.last + 1) := by
  intro h
  obtain ⟨chat, hchat, hid, -⟩ := h
  have hlast : chat.id ≤ db.chats.last := (db.chats.numbered chat hchat).2
  omega

theorem inFolder_addChatTo (now folderId id : ℤ) (chatName systemPrompt : Str) :
    InFolder (addChatTo db now chatName systemPrompt folderId).2 id ↔
      InFolder db id ∨ (id = db.chats.last + 1 ∧ db.folders.Has folderId) := by
  obtain ⟨chat, hrows, hid, hfolder⟩ := addChatTo_rows db now folderId chatName systemPrompt
  unfold InFolder
  rw [hrows]
  constructor
  · intro h
    obtain ⟨c, hc, rfl, hhas⟩ := h
    rcases List.mem_append.mp hc with hc | hc
    · exact .inl ⟨c, hc, rfl, hhas⟩
    · obtain rfl := List.mem_singleton.mp hc
      exact .inr ⟨hid, hfolder ▸ hhas⟩
  · intro h
    rcases h with ⟨c, hc, rfl, hhas⟩ | ⟨rfl, hhas⟩
    · exact ⟨c, List.mem_append_left _ hc, rfl, hhas⟩
    · exact ⟨chat, List.mem_append_right _ (List.mem_singleton_self chat), hid, hfolder.symm ▸ hhas⟩

/-- The new folder is the last one of its name. -/
theorem addFolderAndGetId_fst (db : DB) (folderName : Str) :
    (addFolderAndGetId db folderName).1 = db.folders.last + 1 := by
  unfold addFolderAndGetId addFolder
  dsimp only [Table.insert, Row.withNum]
  rw [List.filter_append]
  simp

theorem setupFolder_folders (s : State) (i : ℤ) : (setupFolder s).2.db.folders.Has i ↔
    s.db.folders.Has i ∨ s.settings.agentNotifFolderId = -1 ∧ i = s.db.folders.last + 1 := by
  unfold setupFolder
  split
  · rename_i hnone
    dsimp only
    rw [addFolderAndGetId_snd]
    simp only [hnone, true_and]
    exact Table.has_insert
  · rename_i hsome
    simp only [hsome, false_and, or_false]

theorem setupFolder_has (s : State) : (setupFolder s).2.db.folders.Has (setupFolder s).1 ↔
    s.settings.agentNotifFolderId = -1 ∨ s.db.folders.Has s.settings.agentNotifFolderId := by
  by_cases hnone : s.settings.agentNotifFolderId = -1
  · have hfst : (setupFolder s).1 = s.db.folders.last + 1 := by
      unfold setupFolder
      rw [if_pos hnone]
      exact addFolderAndGetId_fst s.db FOLDER_NAME
    rw [setupFolder_folders, hfst]
    simp [hnone]
  · have heq : setupFolder s = (s.settings.agentNotifFolderId, s) := if_neg hnone
    rw [heq]
    simp [hnone]

theorem setupFolder_frame (s : State) : (setupFolder s).2.db.chats = s.db.chats ∧
    (setupFolder s).2.activityChatId = s.activityChatId ∧ (setupFolder s).2.benchmarkChatId = s.benchmarkChatId := by
  unfold setupFolder
  split
  · exact ⟨rfl, rfl, rfl⟩
  · exact ⟨rfl, rfl, rfl⟩

theorem init_of_missing (now now' : ℤ) (h : Missing s) : init now now' s =
    setupBenchmarkChat now' (setupFolder (readSettings s)).1
      (setupActivityChat now (setupFolder (readSettings s)).1 (setupFolder (readSettings s)).2) := by
  have hsetup : needsSetup true (readSettings s) = true := decide_eq_true (h.imp_right Or.inl)
  unfold init
  rw [if_pos hsetup]

theorem init_of_not_missing (now now' : ℤ) (h : ¬Missing s) : init now now' s = readSettings s := by
  have hsetup : ¬needsSetup true (readSettings s) = true := by
    intro hneeds
    rcases of_decide_eq_true hneeds with ha | hb | hc
    · exact h (.inl ha)
    · exact h (.inr hb)
    · exact hc rfl
  unfold init
  rw [if_neg hsetup]

/-- A chat that was there, with the folders as they are now. -/
theorem valid_iff (h : Missing s) (id : ℤ) : Valid s id ↔
    InFolder (setupFolder (readSettings s)).2.db id ∨ id = s.db.chats.last + 1 := by
  unfold Valid InFolder
  rw [(setupFolder_frame (readSettings s)).1]
  simp only [setupFolder_folders, h, true_and]
  rfl

/-- A step that makes a chat if its number is missing. -/
structure Makes (missing : Prop) (folderId : ℤ) (s t : State) : Prop where
  inFolder : ∀ id, InFolder t.db id ↔
    InFolder s.db id ∨ missing ∧ id = s.db.chats.last + 1 ∧ s.db.folders.Has folderId
  folders : t.db.folders = s.db.folders

theorem setupActivityChat_spec (now folderId : ℤ) (s : State) :
    Makes (s.activityChatId = -1) folderId s (setupActivityChat now folderId s) ∧
      (setupActivityChat now folderId s).activityChatId =
        (if s.activityChatId = -1 then (s.db.chats.last : ℤ) + 1 else s.activityChatId) ∧
      (setupActivityChat now folderId s).benchmarkChatId = s.benchmarkChatId := by
  unfold setupActivityChat
  by_cases h : s.activityChatId = -1
  · rw [if_pos h, if_pos h]
    exact ⟨⟨fun id ↦ by simp only [inFolder_addChatTo, h, true_and], rfl⟩, rfl, rfl⟩
  · rw [if_neg h, if_neg h]
    exact ⟨⟨fun id ↦ by simp only [h, false_and, or_false], rfl⟩, rfl, rfl⟩

theorem setupBenchmarkChat_spec (now folderId : ℤ) (s : State) :
    Makes (s.benchmarkChatId = -1) folderId s (setupBenchmarkChat now folderId s) ∧
      (setupBenchmarkChat now folderId s).benchmarkChatId =
        (if s.benchmarkChatId = -1 then (s.db.chats.last : ℤ) + 1 else s.benchmarkChatId) ∧
      (setupBenchmarkChat now folderId s).activityChatId = s.activityChatId := by
  unfold setupBenchmarkChat
  by_cases h : s.benchmarkChatId = -1
  · rw [if_pos h, if_pos h]
    exact ⟨⟨fun id ↦ by simp only [inFolder_addChatTo, h, true_and], rfl⟩, rfl, rfl⟩
  · rw [if_neg h, if_neg h]
    exact ⟨⟨fun id ↦ by simp only [h, false_and, or_false], rfl⟩, rfl, rfl⟩

/-- Of the two chats those that are missing are made. -/
theorem restored_setup (now now' folderId : ℤ) (h : s.activityChatId = -1 ∨ s.benchmarkChatId = -1) :
    Restored (setupBenchmarkChat now' folderId (setupActivityChat now folderId s)) ↔
      s.db.folders.Has folderId ∧
      (s.activityChatId ≠ -1 → InFolder s.db s.activityChatId ∨ s.activityChatId = s.db.chats.last + 1) ∧
      (s.benchmarkChatId ≠ -1 → InFolder s.db s.benchmarkChatId ∨ s.benchmarkChatId = s.db.chats.last + 1) := by
  have hnext := not_inFolder_next s.db
  obtain ⟨hfirst, hactivity, hsame⟩ := setupActivityChat_spec now folderId s
  have hlast : s.activityChatId ≠ -1 → (setupActivityChat now folderId s).db = s.db := fun ha ↦
    congrArg State.db (if_neg ha)
  generalize setupActivityChat now folderId s = t at hfirst hactivity hsame hlast
  obtain ⟨hsecond, hbenchmark, hsame'⟩ := setupBenchmarkChat_spec now' folderId t
  generalize setupBenchmarkChat now' folderId t = u at hsecond hbenchmark hsame'
  have hdef : Restored u ↔ InFolder u.db u.activityChatId ∧ InFolder u.db u.benchmarkChatId :=
    ⟨fun h ↦ ⟨h.activity, h.benchmark⟩, fun h ↦ ⟨h.1, h.2⟩⟩
  rw [hdef, hsecond.inFolder, hsecond.inFolder, hfirst.inFolder, hfirst.inFolder, hfirst.folders, hsame', hbenchmark,
    hactivity, hsame]
  by_cases hhas : s.db.folders.Has folderId
  · by_cases ha : s.activityChatId = -1
    · by_cases hb : s.benchmarkChatId = -1 <;> simp [ha, hb, hnext, hhas]
    · have hb : s.benchmarkChatId = -1 := h.resolve_left ha
      simp [hlast ha, ha, hb, hnext, hhas]
  · by_cases ha : s.activityChatId = -1
    · by_cases hb : s.benchmarkChatId = -1 <;> simp [ha, hb, hnext, hhas]
    · have hb : s.benchmarkChatId = -1 := h.resolve_left ha
      simp [hlast ha, ha, hb, hnext, hhas]

theorem restored_of_missing (now now' : ℤ) (h : Missing s) : Restored (init now now' s) ↔ Ready s := by
  obtain ⟨hchats, hactivity, hbenchmark⟩ := setupFolder_frame (readSettings s)
  have hids : (setupFolder (readSettings s)).2.activityChatId = -1 ∨
      (setupFolder (readSettings s)).2.benchmarkChatId = -1 := by
    rw [hactivity, hbenchmark]
    exact h
  rw [init_of_missing now now' h, restored_setup now now' _ hids, setupFolder_has, hactivity, hbenchmark, hchats]
  constructor
  · intro h'
    obtain ⟨hfolder, ha, hb⟩ := h'
    exact ⟨fun _ ↦ hfolder, fun hne ↦ (valid_iff h _).mpr (ha hne), fun hne ↦ (valid_iff h _).mpr (hb hne)⟩
  · intro hr
    exact ⟨hr.folder h, fun hne ↦ (valid_iff h _).mp (hr.activity hne), fun hne ↦ (valid_iff h _).mp (hr.benchmark hne)⟩

theorem restored_iff (now now' : ℤ) (s : State) : Restored (init now now' s) ↔ Ready s := by
  by_cases h : Missing s
  · exact restored_of_missing now now' h
  · rw [init_of_not_missing now now' h]
    have hvalid (id : ℤ) : Valid s id ↔ InFolder s.db id := by
      unfold Valid InFolder
      simp only [h, false_and, or_false]
    obtain ⟨ha, hb⟩ := not_or.mp h
    constructor
    · intro hr
      exact ⟨fun hm ↦ absurd hm h, fun _ ↦ (hvalid _).mpr hr.activity, fun _ ↦ (hvalid _).mpr hr.benchmark⟩
    · intro hr
      exact ⟨(hvalid _).mp (hr.activity ha), (hvalid _).mp (hr.benchmark hb)⟩

/-- The settings have the numbers that posts go to. -/
structure Synced (s : State) : Prop where
  activity : s.settings.agentNotifChatId = s.activityChatId
  benchmark : s.settings.benchmarkChatId = s.benchmarkChatId

theorem Synced.readSettings (h : Synced s) : readSettings s = s := by
  unfold AgentNotificationManager.readSettings
  rw [h.activity, h.benchmark]

theorem Synced.setupFolder (h : Synced s) : Synced (setupFolder s).2 := by
  unfold AgentNotificationManager.setupFolder
  split
  · exact ⟨h.activity, h.benchmark⟩
  · exact h

theorem Synced.setupActivityChat (h : Synced s) (now folderId : ℤ) : Synced (setupActivityChat now folderId s) := by
  unfold AgentNotificationManager.setupActivityChat
  split
  · exact ⟨rfl, h.benchmark⟩
  · exact h

theorem Synced.setupBenchmarkChat (h : Synced s) (now folderId : ℤ) : Synced (setupBenchmarkChat now folderId s) := by
  unfold AgentNotificationManager.setupBenchmarkChat
  split
  · exact ⟨h.activity, rfl⟩
  · exact h

theorem init_synced (now now' : ℤ) (s : State) : Synced (init now now' s) := by
  have hread : Synced (readSettings s) := ⟨rfl, rfl⟩
  by_cases h : Missing s
  · rw [init_of_missing now now' h]
    exact (hread.setupFolder.setupActivityChat now _).setupBenchmarkChat now' _
  · rw [init_of_not_missing now now' h]
    exact hread

theorem not_missing_init (now now' : ℤ) (s : State) : ¬Missing (init now now' s) := by
  by_cases h : Missing s
  · have hsynced := init_synced now now' s
    have hnew {id : ℤ} {last : ℕ} : (if id = -1 then (last : ℤ) + 1 else id) ≠ -1 := by
      split <;> omega
    unfold Missing
    rw [hsynced.activity, hsynced.benchmark, init_of_missing now now' h]
    obtain ⟨-, hbenchmark, hsame⟩ := setupBenchmarkChat_spec now' (setupFolder (readSettings s)).1
      (setupActivityChat now (setupFolder (readSettings s)).1 (setupFolder (readSettings s)).2)
    obtain ⟨-, hactivity, -⟩ := setupActivityChat_spec now (setupFolder (readSettings s)).1
      (setupFolder (readSettings s)).2
    rw [hsame, hactivity, hbenchmark]
    exact not_or.mpr ⟨hnew, hnew⟩
  · rw [init_of_not_missing now now' h]
    exact h

theorem init_twice (now now' later later' : ℤ) (s : State) :
    init later later' (init now now' s) = init now now' s := by
  rw [init_of_not_missing later later' (not_missing_init now now' s), (init_synced now now' s).readSettings]

/-- The chats are restored, and a second `init` makes none, exactly if the numbers were still
valid; that they are is not looked at. -/
theorem restores_iff (now now' : ℤ) (s : State) :
    (Restored (init now now' s) ∧ ∀ later later', init later later' (init now now' s) = init now now' s) ↔ Ready s := by
  rw [restored_iff]
  exact and_iff_left fun later later' ↦ init_twice now now' later later' s

/-! The activity chat is deleted after the first start -/

def firstStart : State := init 0 0 { db := .empty, settings := {} }

def afterDeletion : State :=
  { firstStart with
    db := deleteChat firstStart.db { id := firstStart.activityChatId, dateCreated := 0, dateUsed := 0 } }

/-- Posts go to a chat that is no longer there. -/
theorem deleted_not_restored : (init 1 1 afterDeletion).activityChatId = 1 ∧
    ¬(init 1 1 afterDeletion).db.chats.Has 1 ∧ ¬Restored (init 1 1 afterDeletion) := by
  have hactivity : (init 1 1 afterDeletion).activityChatId = 1 := by decide +kernel
  have hgone : ¬(init 1 1 afterDeletion).db.chats.Has 1 := by decide +kernel
  refine ⟨hactivity, hgone, fun hr ↦ ?_⟩
  obtain ⟨chat, hchat, hid, -⟩ := hr.activity
  exact hgone ⟨chat, hchat, hid.trans hactivity⟩

end Aigentik.AgentNotificationManager
