import Aigentik.ManageAsr.UnzipTermination

namespace Aigentik.ManageASRViewModel

open Strings Files

/-- Every file that was not there before lies under the directory. -/
def Contained (destDir : List Str) (fs fs' : FileSystem) : Prop :=
  ∀ p content, fs'.node p = some (.file content) → fs.node p ≠ some (.file content) → destDir <+: p

def ZipEntry.isDirectory (entry : ZipEntry) : Bool := entry.name.getLast? == some '/'

/-- Every file entry is there with all its data, but for metadata. -/
def Complete (destDir : List Str) (stream : ZipStream) (fs' : FileSystem) : Prop :=
  ∀ entry, .ok entry ∈ stream → isMetadata entry = false → entry.isDirectory = false →
    entry.fault = none ∧ fs'.node (locate destDir (components entry.name)) = some (.file entry.data)

variable {refuses : List Str → Option Throwable} {destDir : List Str} {fs fs' : FileSystem} {entry : ZipEntry}
  {stream : ZipStream}

/-- What `Files.copy` is to write for an entry. -/
def target (destDir : List Str) (entry : ZipEntry) : List (Component Str) × Bytes :=
  (pathsGet destDir entry.name, entry.data)

theorem locate_pathsGet (destDir : List Str) (name : Str) :
    locate [] (pathsGet destDir name) = locate destDir (components name) := by
  rw [pathsGet, locate_append, locate_down, List.nil_append]

theorem copy_of_returned (h : copy refuses destDir fs entry = (fs', none)) :
    entry.fault = none ∧ fs.createNew entry.data [] (pathsGet destDir entry.name) = .ok fs' := by
  unfold copy at h
  split at h
  · cases h
  · split at h
    · cases h
    · split at h
      · cases h
      · rename_i hnew
        obtain ⟨rfl, hfault⟩ := Prod.mk.inj h
        exact ⟨Option.map_eq_none_iff.mp hfault, hnew⟩

theorem entries_of_ended {rounds : ℕ}
    (h : (round refuses destDir)^[rounds] (getNextEntry fs stream) = .ended fs') :
    ∃ entries : List ZipEntry, stream = entries.map .ok ∧ (∀ entry ∈ entries, entry.fault = none) ∧
      fs.createAll (entries.map (target destDir)) = .ok fs' := by
  induction stream generalizing fs rounds with
  | nil =>
    rw [iterate_round_halted (getNextEntry fs []) trivial] at h
    cases h
    exact ⟨[], rfl, by simp, rfl⟩
  | cons item stream ih =>
    cases item with
    | error e =>
      rw [iterate_round_halted (getNextEntry fs (.error e :: stream)) trivial] at h
      cases h
    | ok entry =>
      rw [getNextEntry] at h
      by_cases hmetadata : isMetadata entry = true
      · rw [iterate_round_metadata hmetadata] at h
        cases h
      · cases rounds with
        | zero => cases h
        | succ rounds =>
          rw [Function.iterate_succ_apply, round, if_neg hmetadata] at h
          cases hcopy : copy refuses destDir fs entry with
          | mk fs₁ failure =>
            rw [hcopy] at h
            cases failure with
            | some failure =>
              simp only at h
              rw [iterate_round_halted (.threw failure fs₁) trivial] at h
              cases h
            | none =>
              obtain ⟨entries, rfl, hfaults, hall⟩ := ih h
              obtain ⟨hfault, hnew⟩ := copy_of_returned hcopy
              refine ⟨entry :: entries, rfl, List.forall_mem_cons.mpr ⟨hfault, hfaults⟩, ?_⟩
              rw [List.map_cons, target, Tree.createAll, hnew]
              exact hall

/-- What a call that has returned leaves, apart from the archive itself. -/
theorem created_of_returned {readZip : Bytes → ZipStream} {rounds : ℕ} {zip dir : List Str} {name : Str}
    {content : Bytes} (hzip : fs.node zip = some (.file content))
    (h : unzipModel refuses readZip rounds fs zip dir name = some (.ok fs')) :
    ∃ entries : List ZipEntry, readZip content = entries.map .ok ∧ (∀ entry ∈ entries, entry.fault = none) ∧
      ∃ fs₂ : FileSystem, Tree.Created (fs.makeDir dir name) fs₂ (entries.map (target (dir ++ [name]))) ∧
        fs' = fs₂.deleteFile zip := by
  unfold unzipModel at h
  rw [hzip] at h
  simp only at h
  split at h
  · cases h
  · cases h
  · rename_i fs₂ hended
    obtain ⟨entries, hstream, hfaults, hall⟩ := entries_of_ended hended
    cases h
    exact ⟨entries, hstream, hfaults, fs₂, Tree.created_of_createAll hall, rfl⟩

/-- A call that has returned has kept to the directory and is complete exactly if each name, resolved by its
components, leads to a place under the directory. -/
theorem unzipModel_contained_iff {readZip : Bytes → ZipStream} {rounds : ℕ} {zip dir : List Str} {name : Str}
    {content : Bytes} (hzip : fs.node zip = some (.file content))
    (h : unzipModel refuses readZip rounds fs zip dir name = some (.ok fs')) :
    (Contained (dir ++ [name]) fs fs' ∧ Complete (dir ++ [name]) (readZip content) fs') ↔
      ∀ entry, .ok entry ∈ readZip content → dir ++ [name] <+: locate (dir ++ [name]) (components entry.name) := by
  obtain ⟨entries, hstream, hfaults, fs₂, hcreated, rfl⟩ := created_of_returned hzip h
  have hentries (entry : ZipEntry) : .ok entry ∈ readZip content ↔ entry ∈ entries := by
    rw [hstream]
    simp
  have hzip₁ : (fs.makeDir dir name).node zip = some (.file content) := Tree.makeDir_node_of_some dir name hzip
  have hzipNew : ∀ file ∈ entries.map (target (dir ++ [name])), zip ≠ locate [] file.1 := by
    intro file hfile heq
    rw [heq, hcreated.fresh file hfile] at hzip₁
    cases hzip₁
  have hzip₂ : fs₂.node zip = some (.file content) := (hcreated.same zip hzipNew).trans hzip₁
  have hwritten (entry : ZipEntry) (hentry : entry ∈ entries) :
      (fs₂.deleteFile zip).node (locate (dir ++ [name]) (components entry.name)) = some (.file entry.data) := by
    have hmem := List.mem_map_of_mem (f := target (dir ++ [name])) hentry
    rw [← locate_pathsGet]
    exact (Tree.deleteFile_node _ (hzipNew _ hmem).symm).trans (hcreated.content _ hmem)
  constructor
  · intro hboth entry hentry
    have hmem := (hentries entry).mp hentry
    refine hboth.1 _ entry.data (hwritten entry hmem) fun hold ↦ ?_
    have hfresh := hcreated.fresh _ (List.mem_map_of_mem (f := target (dir ++ [name])) hmem)
    rw [target, locate_pathsGet, Tree.makeDir_node_of_some dir name hold] at hfresh
    cases hfresh
  · intro hunder
    refine ⟨fun p written hp hold ↦ ?_, fun entry hentry _ _ ↦ ?_⟩
    · have hpzip : p ≠ zip := by
        intro heq
        rw [heq, Tree.deleteFile_node_self hzip₂] at hp
        cases hp
      rw [Tree.deleteFile_node _ hpzip] at hp
      by_cases hfile : ∀ file ∈ entries.map (target (dir ++ [name])), p ≠ locate [] file.1
      · by_cases hdest : p = dir ++ [name]
        · rw [hdest]
        · rw [hcreated.same p hfile, Tree.makeDir_node _ _ _ hdest] at hp
          exact absurd hp hold
      · obtain ⟨file, hfile⟩ := not_forall.mp hfile
        obtain ⟨hmem, heq⟩ := Classical.not_imp.mp hfile
        obtain ⟨entry, hentry, rfl⟩ := List.mem_map.mp hmem
        rw [not_not.mp heq, target, locate_pathsGet]
        exact hunder entry ((hentries entry).mpr hentry)
    · exact ⟨hfaults entry ((hentries entry).mp hentry), hwritten entry ((hentries entry).mp hentry)⟩

/-! Archives with one entry -/

def bundled : FileSystem := Tree.empty.insert [] "z".toList (.file [0]) rfl rfl

def extracted (name : String) : Option (Except Failure FileSystem) :=
  unzipModel (fun _ ↦ none) (fun _ ↦ [.ok ⟨name.toList, [1, 2, 3], none⟩]) 1 bundled ["z".toList] [] "m"

theorem exists_of_isOk {r : Option (Except Failure FileSystem)} (h : (r.map fun r ↦ r.toBool) = some true) :
    ∃ fs, r = some (.ok fs) := by
  cases r with
  | none => cases h
  | some r =>
    cases r with
    | error _ => cases h
    | ok fs => exact ⟨fs, rfl⟩

theorem plain_name_contained : ∃ fs', extracted "encoder.ort" = some (.ok fs') ∧
    Contained ["m".toList] bundled fs' ∧ Complete ["m".toList] [.ok ⟨"encoder.ort".toList, [1, 2, 3], none⟩] fs' := by
  obtain ⟨fs', h⟩ := exists_of_isOk (r := extracted "encoder.ort") rfl
  have hzip : bundled.node ["z".toList] = some (.file [0]) := rfl
  refine ⟨fs', h, (unzipModel_contained_iff hzip h).mpr fun entry hentry ↦ ?_⟩
  cases List.mem_singleton.mp hentry
  exact prefix_locate (by decide) _

/-- A name that leads out of the directory. -/
theorem parent_name_escapes : ∃ fs', extracted "../evil" = some (.ok fs') ∧
    fs'.node ["evil".toList] = some (.file [1, 2, 3]) ∧ ¬Contained ["m".toList] bundled fs' := by
  obtain ⟨fs', h⟩ := exists_of_isOk (r := extracted "../evil") rfl
  have hfile : fs'.node ["evil".toList] = some (.file [1, 2, 3]) := by
    have hnode : (extracted "../evil").map (fun r ↦ (r.toOption.bind fun fs ↦ fs.node ["evil".toList])) =
        some (some (.file [1, 2, 3])) := rfl
    rw [h] at hnode
    exact Option.some.inj hnode
  refine ⟨fs', h, hfile, fun hcontained ↦ ?_⟩
  have hprefix := hcontained _ _ hfile (by decide)
  exact absurd hprefix (by decide)

end Aigentik.ManageASRViewModel
