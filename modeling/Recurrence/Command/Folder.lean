/-!
# Files and folders

A folder of text files that is held in memory, and the reading of a file in it by its
path. Around it lies what every system has: folders below the root, and a file that is
always empty. Paths are resolved as a file system does it, part by part: a dot stays, two dots
go up, an empty part is passed over, and no part may follow a file. A path has a greatest
length, and so has a part that is looked up.

`FileError` lists the reasons for which a file cannot be read, with the wording of the
operating system.
-/

namespace Recurrence.Command

/-- Why a file cannot be read. -/
inductive FileError where
  /-- There is nothing under the path. -/
  | missing
  /-- A part of the path is a file and not a folder. -/
  | notFolder
  /-- The path or a part of it is too long. -/
  | nameTooLong
  /-- The path leads to a folder. -/
  | folder
  /-- Another reason, with its wording; `found` tells whether there is a file. -/
  | other (found : Bool) (reason : String)
deriving DecidableEq, Repr

namespace FileError

/-- The wording of an error. -/
def message : FileError → String
  | missing => "No such file or directory (os error 2)"
  | notFolder => "Not a directory (os error 20)"
  | nameTooLong => "File name too long (os error 36)"
  | folder => "Is a directory (os error 21)"
  | other _ reason => reason

/-- Whether there is something under the path all the same. -/
def isFound : FileError → Bool
  | missing | notFolder | nameTooLong => false
  | folder => true
  | other found _ => found

end FileError

/-- The parts of a path between its slashes. -/
def pathParts (path : List Char) : List (List Char) :=
  path.foldr
    (fun c parts =>
      if c = '/' then [] :: parts
      else
        match parts with
        | part :: parts => (c :: part) :: parts
        | [] => [[c]])
    [[]]

/-- The most bytes in the part of a path. -/
def maxPartSize : Nat :=
  255

/-- The most bytes in a path. -/
def maxPathSize : Nat :=
  4095

/-- A folder of files below some place of the file system. -/
structure Folder where
  /-- The parts of the folder's own path. -/
  place : List (List Char)
  /-- The files: the parts of their paths below the folder, and their contents. -/
  files : List (List (List Char) × String)

namespace Folder

/-- The folder at an absolute path with files at relative paths. -/
def ofFiles (place : String) (files : List (String × String)) : Folder where
  place := (pathParts place.toList).filter (· ≠ [])
  files := files.map fun (path, content) =>
    ((pathParts path.toList).filter fun part => part ≠ [] ∧ part ≠ ['.'], content)

/-- The names of the folders below the root that every system has. -/
def systemFolders : List String :=
  ["bin", "boot", "dev", "etc", "home", "lib", "media", "mnt", "opt", "proc", "root", "run",
    "sbin", "srv", "sys", "tmp", "usr", "var"]

/-- The files that every system has: one that is always empty. -/
def systemFiles : List (List (List Char) × String) :=
  [(["dev".toList, "null".toList], "")]

/-- All files with the parts of their absolute paths. -/
def absoluteFiles (folder : Folder) : List (List (List Char) × String) :=
  folder.files.map (fun (parts, content) => (folder.place ++ parts, content)) ++ systemFiles

/-- The file at a place. -/
def fileAt? (folder : Folder) (place : List (List Char)) : Option String :=
  (folder.absoluteFiles.find? fun file => file.1 = place).map (·.2)

/--
Whether a place is a folder: the folder itself, one above it, one on the way to a file,
or one of the system's.
-/
def isFolderAt (folder : Folder) (place : List (List Char)) : Bool :=
  place.isPrefixOf folder.place || systemFolders.any (fun name => place = [name.toList]) ||
    folder.absoluteFiles.any fun file => place.isPrefixOf file.1 && file.1 ≠ place

/-- Follows the parts of a path from a place. -/
def follow (folder : Folder) : List (List Char) → List (List Char) →
    Except FileError (List (List Char))
  | place, [] => .ok place
  | place, part :: parts =>
      if (folder.fileAt? place).isSome then .error .notFolder
      else if part = [] ∨ part = ['.'] then follow folder place parts
      else if part = ['.', '.'] then follow folder place.dropLast parts
      else if (String.ofList part).utf8ByteSize > maxPartSize then .error .nameTooLong
      else
        let place := place ++ [part]
        if (folder.fileAt? place).isSome || folder.isFolderAt place then follow folder place parts
        else .error .missing

/-- Reads the file at a path; a relative path starts in the folder. -/
def read (folder : Folder) (path : String) : Except FileError String := do
  let (start, parts) := match path.toList with
    | '/' :: rest => ([], pathParts rest)
    | chars => (folder.place, pathParts chars)
  if path = "" then .error .missing
  else if path.utf8ByteSize > maxPathSize then .error .nameTooLong
  else
    let place ← folder.follow start parts
    match folder.fileAt? place with
    | some content => .ok content
    | none => .error .folder

end Folder

end Recurrence.Command
