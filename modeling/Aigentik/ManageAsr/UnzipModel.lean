import Aigentik.Files.FileTree
import Aigentik.Platform
import Mathlib.Logic.Function.Iterate

namespace Aigentik.ManageASRViewModel

open Strings Files

abbrev Bytes := List UInt8

/-- An entry, with what can be read of its data before the end or an exception. -/
structure ZipEntry where
  name : Str
  data : Bytes
  fault : Option Throwable

/-- What `getNextEntry` gives: an entry or an exception, and null after the last one. -/
abbrev ZipStream := List (Except Throwable ZipEntry)

abbrev FileSystem := Tree Str Bytes

inductive Failure
  | fileNotFound
  | invalidPath
  | create (fault : Fault)
  | refused (e : Throwable)
  | read (e : Throwable)

/-- The names between the separators of a path; several in a row are one. -/
def components (s : Str) : List (Component Str) :=
  ((s.splitOn '/').filter fun part ↦ !part.isEmpty).map fun part ↦
    if part = ".".toList then .here else if part = "..".toList then .up else .down part

/-- `Paths.get(destDir.absolutePath, name)`, which resolves nothing. -/
def pathsGet (destDir : List Str) (name : Str) : List (Component Str) := destDir.map .down ++ components name

variable (refuses : List Str → Option Throwable) (destDir : List Str)

/-- `Files.copy(zipInputStream, _)`: a new file, unless it is refused for reasons of the system's own. What an
exception leaves is a part of the file. -/
def copy (fs : FileSystem) (entry : ZipEntry) : FileSystem × Option Failure :=
  if '\x00' ∈ entry.name then (fs, some .invalidPath)
  else
    match refuses (locate [] (pathsGet destDir entry.name)) with
    | some e => (fs, some (.refused e))
    | none =>
      match fs.createNew entry.data [] (pathsGet destDir entry.name) with
      | .error fault => (fs, some (.create fault))
      | .ok fs => (fs, entry.fault.map .read)

/-- The loop, with the entry at hand and the stream behind it. -/
inductive Loop
  | at (entry : ZipEntry) (stream : ZipStream) (fs : FileSystem)
  | ended (fs : FileSystem)
  | threw (failure : Failure) (fs : FileSystem)

def getNextEntry (fs : FileSystem) : ZipStream → Loop
  | [] => .ended fs
  | .error e :: _ => .threw (.read e) fs
  | .ok entry :: stream => .at entry stream fs

def isMetadata (entry : ZipEntry) : Bool := startsWith entry.name "__MACOSX"

/-- One round of the loop; `continue` comes before the next entry is got. -/
def round : Loop → Loop
  | .at entry stream fs =>
    if isMetadata entry then .at entry stream fs
    else
      match copy refuses destDir fs entry with
      | (fs, some failure) => .threw failure fs
      | (fs, none) => getNextEntry fs stream
  | loop => loop

/-- The file system after the call, if it ends within `rounds` rounds; `readZip` is the zip format. -/
def unzipModel (readZip : Bytes → ZipStream) (rounds : ℕ) (fs : FileSystem) (modelZipBundlePath : List Str)
    (defaultDownloadDir : List Str) (modelName : Str) : Option (Except Failure FileSystem) :=
  match fs.node modelZipBundlePath with
  | some (.file content) =>
    let destDir := defaultDownloadDir ++ [modelName]
    match (round refuses destDir)^[rounds]
        (getNextEntry (fs.makeDir defaultDownloadDir modelName) (readZip content)) with
    | .at .. => none
    | .threw failure _ => some (.error failure)
    | .ended fs => some (.ok (fs.deleteFile modelZipBundlePath))
  | some .dir | none => some (.error .fileNotFound)

end Aigentik.ManageASRViewModel
