import Mathlib.Logic.Function.Basic

/-! Trees of files, and new files at paths that are resolved step by step. -/

namespace Files

variable {κ α : Type}

inductive Component (κ : Type)
  | here
  | up
  | down (name : κ)
  deriving DecidableEq

/-- A location is the list of names that leads to it from the root, which is its own parent. -/
def Component.apply (loc : List κ) : Component κ → List κ
  | .here => loc
  | .up => loc.dropLast
  | .down name => loc ++ [name]

/-- Where a path leads by its components alone. -/
def locate (loc : List κ) (path : List (Component κ)) : List κ := path.foldl Component.apply loc

theorem locate_append (loc : List κ) (path path' : List (Component κ)) :
    locate loc (path ++ path') = locate (locate loc path) path' := List.foldl_append

theorem locate_down (loc names : List κ) : locate loc (names.map .down) = loc ++ names := by
  induction names generalizing loc with
  | nil => exact (List.append_nil loc).symm
  | cons name names ih =>
    rw [List.map_cons]
    exact (ih (loc ++ [name])).trans (List.append_assoc loc [name] names)

/-- A path that never goes up stays where it started. -/
theorem prefix_locate {path : List (Component κ)} (h : .up ∉ path) (loc : List κ) : loc <+: locate loc path := by
  induction path generalizing loc with
  | nil => exact List.prefix_rfl
  | cons c path ih =>
    obtain ⟨hc, hpath⟩ := not_or.mp (mt List.mem_cons.mpr h)
    refine List.IsPrefix.trans ?_ (ih hpath (c.apply loc))
    cases c with
    | here => exact List.prefix_rfl
    | up => exact absurd rfl hc
    | down name => exact List.prefix_append loc [name]

inductive Node (α : Type)
  | dir
  | file (content : α)
  deriving DecidableEq

/-- What is there has a directory around it. -/
structure Tree (κ α : Type) where
  node : List κ → Option (Node α)
  root : node [] = some .dir
  parent : ∀ loc name, node (loc ++ [name]) ≠ none → node loc = some .dir

inductive Fault
  | missing
  | notDirectory
  | alreadyExists
  deriving DecidableEq

/-- The name of a new node, where only that is left of a path. -/
def newName : Component κ → List (Component κ) → Option κ
  | .down name, [] => some name
  | _, _ => none

theorem eq_of_newName {c : Component κ} {rest : List (Component κ)} {name : κ} (h : newName c rest = some name) :
    c = .down name ∧ rest = [] := by
  cases c with
  | down other =>
    cases rest with
    | nil =>
      cases h
      exact ⟨rfl, rfl⟩
    | cons _ _ => cases h
  | here => cases h
  | up => cases h

namespace Tree

variable [DecidableEq κ] (t : Tree κ α)

/-- The root alone. -/
def empty : Tree κ α where
  node loc := if loc = [] then some .dir else none
  root := rfl
  parent loc name h := by
    rw [if_neg (by simp)] at h
    exact absurd rfl h

def insert (loc : List κ) (name : κ) (node : Node α) (hdir : t.node loc = some .dir)
    (hnew : t.node (loc ++ [name]) = none) : Tree κ α where
  node := Function.update t.node (loc ++ [name]) (some node)
  root := by
    rw [Function.update_of_ne (by simp)]
    exact t.root
  parent loc' name' h := by
    have hold : t.node loc' = some .dir := by
      by_cases hsame : loc' ++ [name'] = loc ++ [name]
      · rw [(List.append_inj' hsame rfl).1]
        exact hdir
      · rw [Function.update_of_ne hsame] at h
        exact t.parent loc' name' h
    rwa [Function.update_of_ne]
    intro heq
    rw [heq, hnew] at hold
    cases hold

def removeFile (loc : List κ) {content : α} (hfile : t.node loc = some (.file content)) : Tree κ α where
  node := Function.update t.node loc none
  root := by
    rw [Function.update_of_ne]
    · exact t.root
    · intro heq
      rw [← heq, t.root] at hfile
      cases hfile
  parent loc' name' h := by
    have hold : t.node loc' = some .dir := by
      by_cases hsame : loc' ++ [name'] = loc
      · rw [hsame, Function.update_self] at h
        exact absurd rfl h
      · rw [Function.update_of_ne hsame] at h
        exact t.parent loc' name' h
    rwa [Function.update_of_ne]
    intro heq
    rw [heq, hfile] at hold
    cases hold

/-- A new file; every location on the way to it has to be a directory. -/
def createNew (content : α) : List κ → List (Component κ) → Except Fault (Tree κ α)
  | _, [] => .error .alreadyExists
  | loc, c :: rest =>
    match hdir : t.node loc with
    | none => .error .missing
    | some (.file _) => .error .notDirectory
    | some .dir =>
      match newName c rest with
      | none => createNew content (c.apply loc) rest
      | some name =>
        if hnew : t.node (loc ++ [name]) = none then .ok (t.insert loc name (.file content) hdir hnew)
        else .error .alreadyExists

/-- A new directory, where there is none and its parent is there. -/
def makeDir (loc : List κ) (name : κ) : Tree κ α :=
  match hdir : t.node loc with
  | some .dir => if hnew : t.node (loc ++ [name]) = none then t.insert loc name .dir hdir hnew else t
  | some (.file _) | none => t

def deleteFile (loc : List κ) : Tree κ α :=
  match hfile : t.node loc with
  | some (.file _) => t.removeFile loc hfile
  | some .dir | none => t

/-- New files one after another, at paths from the root. -/
def createAll : Tree κ α → List (List (Component κ) × α) → Except Fault (Tree κ α)
  | t, [] => .ok t
  | t, (path, content) :: rest =>
    match t.createNew content [] path with
    | .error fault => .error fault
    | .ok t' => t'.createAll rest

variable {t} {t' : Tree κ α} {content : α} {loc p : List κ} {name : κ} {path : List (Component κ)}

theorem createNew_ok (h : t.createNew content loc path = .ok t') :
    t.node (locate loc path) = none ∧ t'.node = Function.update t.node (locate loc path) (some (.file content)) := by
  induction path generalizing loc with
  | nil => cases h
  | cons c rest ih =>
    rw [createNew] at h
    split at h
    · cases h
    · cases h
    · cases hname : newName c rest with
      | none =>
        rw [hname] at h
        exact ih h
      | some name =>
        obtain ⟨rfl, rfl⟩ := eq_of_newName hname
        rw [hname] at h
        by_cases hnew : t.node (loc ++ [name]) = none
        · simp only [dif_pos hnew] at h
          cases h
          exact ⟨hnew, rfl⟩
        · simp only [dif_neg hnew] at h
          cases h

theorem makeDir_node (t : Tree κ α) (loc : List κ) (name : κ) (h : p ≠ loc ++ [name]) :
    (t.makeDir loc name).node p = t.node p := by
  unfold makeDir
  split
  · split
    · exact Function.update_of_ne h _ _
    · rfl
  · rfl
  · rfl

theorem makeDir_node_of_some (loc : List κ) (name : κ) {node : Node α} (h : t.node p = some node) :
    (t.makeDir loc name).node p = some node := by
  by_cases hp : p = loc ++ [name]
  · have hold : ¬t.node (loc ++ [name]) = none := by rw [← hp, h]; exact Option.some_ne_none node
    rw [makeDir]
    split
    · rw [dif_neg hold, h]
    · exact h
    · exact h
  · rw [makeDir_node t loc name hp, h]

theorem deleteFile_node_self (h : t.node loc = some (.file content)) : (t.deleteFile loc).node loc = none := by
  unfold deleteFile
  split
  · exact Function.update_self _ _ _
  · rename_i hdir
    rw [h] at hdir
    cases hdir
  · assumption

theorem deleteFile_node (t : Tree κ α) (h : p ≠ loc) : (t.deleteFile loc).node p = t.node p := by
  unfold deleteFile
  split
  · exact Function.update_of_ne h _ _
  · rfl
  · rfl

/-- What new files leave: each of them is there with its content where nothing was, and nothing else has
changed. -/
structure Created (t t' : Tree κ α) (files : List (List (Component κ) × α)) : Prop where
  fresh : ∀ file ∈ files, t.node (locate [] file.1) = none
  content : ∀ file ∈ files, t'.node (locate [] file.1) = some (.file file.2)
  same : ∀ p, (∀ file ∈ files, p ≠ locate [] file.1) → t'.node p = t.node p

theorem created_of_createAll {files : List (List (Component κ) × α)} (h : t.createAll files = .ok t') :
    Created t t' files := by
  induction files generalizing t with
  | nil =>
    cases h
    exact ⟨by simp, by simp, fun _ _ ↦ rfl⟩
  | cons file rest ih =>
    obtain ⟨path, content⟩ := file
    rw [createAll] at h
    cases hnew : t.createNew content [] path with
    | error fault =>
      rw [hnew] at h
      cases h
    | ok t₁ =>
      rw [hnew] at h
      obtain ⟨hnone, hnode⟩ := createNew_ok hnew
      obtain ⟨hfresh, hcontent, hsame⟩ := ih h
      have hother : ∀ file ∈ rest, locate [] path ≠ locate [] file.1 := by
        intro file hfile heq
        have hfree := hfresh file hfile
        rw [← heq, hnode, Function.update_self] at hfree
        cases hfree
      refine ⟨List.forall_mem_cons.mpr ⟨hnone, fun file hfile ↦ ?_⟩, List.forall_mem_cons.mpr ⟨?_, hcontent⟩,
        fun p hp ↦ ?_⟩
      · rw [← hfresh file hfile, hnode, Function.update_of_ne (hother file hfile).symm]
      · rw [hsame _ hother, hnode, Function.update_self]
      · obtain ⟨hne, hrest⟩ := List.forall_mem_cons.mp hp
        rw [hsame p hrest, hnode, Function.update_of_ne hne]

end Tree

end Files
