import LoxLang.Table

/-!
# Folders and files

A tree of folders, the files in it, and what a path leads to. A path is walked name by name from the root
or from the working folder; an empty name and `.` stay where they are, and `..` goes back up, at the root
nowhere. The walk ends at the first name that cannot be followed.
-/

namespace LoxLang

/-- Why a file cannot be opened. -/
inductive OpenFault where
  | missing
  | forbidden
  /-- A name is asked for inside a file. -/
  | notFolder
  | nameTooLong
  /-- The path leads to a folder, which has no contents to read. -/
  | isFolder
  | other (reason : String)
deriving DecidableEq, Repr

/-- The fault in words. -/
def OpenFault.message : OpenFault → String
  | missing => "No such file or directory (os error 2)"
  | forbidden => "Permission denied (os error 13)"
  | notFolder => "Not a directory (os error 20)"
  | nameTooLong => "File name too long (os error 36)"
  | isFolder => "No such device (os error 19)"
  | other reason => reason

/-- What a path can lead to. -/
inductive Entry where
  | file (contents : ByteArray)
  | folder (entries : List (String × Entry))

/-- The folders of a machine, and the path of the working folder from the root. -/
structure FileTree where
  root : Entry
  working : List String := []

namespace FileTree

/-- The most bytes in one name of a path. -/
def nameLimit : Nat := 255

/-- The most bytes in a path. -/
def pathLimit : Nat := 4095

/-- Follows names from an entry; `above` holds the folders around it, the nearest first. -/
def walk (above : List Entry) (here : Entry) : List String → Except OpenFault Entry
  | [] => .ok here
  | name :: rest =>
    match here with
    | .file _ => .error .notFolder
    | .folder entries =>
      if name = "" ∨ name = "." then walk above here rest
      else if name = ".." then
        match above with
        | [] => walk [] here rest
        | parent :: above => walk above parent rest
      else if name.utf8ByteSize > nameLimit then .error .nameTooLong
      else
        match Table.get? name entries with
        | none => .error .missing
        | some entry => walk (here :: above) entry rest

/-- The names of a path, counted from the root. -/
def names (tree : FileTree) (path : String) : List String :=
  let names := path.splitOn "/"
  if path.startsWith "/" then names else tree.working ++ names

/-- What a path leads to. -/
def find (tree : FileTree) (path : String) : Except OpenFault Entry :=
  if path = "" then .error .missing
  else if path.utf8ByteSize > pathLimit then .error .nameTooLong
  else walk [] tree.root (tree.names path)

/-- The contents of the file that a path leads to. -/
def read (tree : FileTree) (path : String) : Except OpenFault ByteArray :=
  match tree.find path with
  | .ok (.file contents) => .ok contents
  | .ok (.folder _) => .error .isFolder
  | .error fault => .error fault

end FileTree

end LoxLang
