import TokiPona.Files.Path

/-!
A tree of files, given by the places of its folders and files. Paths start from a current folder or, after a slash,
from the root.
-/

namespace TokiPona

/-- A place in the tree: the names on the way to it from the root, the last one first. -/
abbrev Place := List String

structure FileTree where
  /-- The folders beside the root. -/
  folders : List Place := []
  /-- The files, of which the first at a place counts. -/
  files : List (Place × ByteArray) := []
  current : Place := []

namespace FileTree

def isFolder (t : FileTree) (place : Place) : Bool := place.isEmpty || t.folders.contains place

def file? (t : FileTree) (place : Place) : Option ByteArray := t.files.lookup place

def checkFolder (t : FileTree) (place : Place) : Except FileError Unit :=
  if t.isFolder place then .ok ()
  else if (t.file? place).isSome then .error .notFolder
  else .error .missing

def maxNameBytes : Nat := 255

/-- The place of a name in a folder. The root is its own parent. -/
def enter (t : FileTree) (folder : Place) (name : String) : Except FileError Place := do
  t.checkFolder folder
  if name = "." then pure folder
  else if name = ".." then pure folder.tail
  else if maxNameBytes < name.utf8ByteSize then throw .nameTooLong
  else pure (name :: folder)

def follow (t : FileTree) (path : Path) (names : List String) : Except FileError Place :=
  names.foldlM t.enter (if path.isAbsolute then [] else t.current)

def read (t : FileTree) (text : String) : Except FileError ByteArray := do
  let path ← Path.ofText text
  let place ← t.follow path path.names
  if t.isFolder place then throw .isFolder
  else
    match t.file? place with
    | some content => if path.endsInSlash then throw .notFolder else pure content
    | none => throw .missing

/-- The tree with a file made or replaced. No folders are made on the way. -/
def write (t : FileTree) (text : String) (content : ByteArray) : Except FileError FileTree := do
  let path ← Path.ofText text
  let folder ← t.follow path path.names.dropLast
  t.checkFolder folder
  match path.names.getLast? with
  | none => throw .isFolder
  | some name =>
    if path.endsInSlash then throw .isFolder
    else
      let place ← t.enter folder name
      if t.isFolder place then throw .isFolder else pure { t with files := (place, content) :: t.files }

end FileTree

def FileTree.access : Files (StateM FileTree) where
  read text t := (t.read text, t)
  write text content t :=
    match t.write text content with
    | .ok t => (.ok (), t)
    | .error e => (.error e, t)

end TokiPona
