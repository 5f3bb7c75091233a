/-
# Command.Folder -- files by their paths

A path is followed part by part, and slashes divide its parts: an empty part and `.`
stay, `..` goes to the directory above, and any other part goes to what has that name.
A path starts in the folder, or at the root if it begins with a slash.

The names of a folder's files are paths as well, and a file stands where its name leads;
so two spellings of one path name one file, and of two files with the same place the
later one is there (`Folder.ofFiles`).  The folder itself, the root and all directories
between them are there; apart from them only the files are, and the directories that
they stand in.  Nothing can be reached through a file.
-/
set_option autoImplicit false

namespace ColonLisp.Command

/-- Why an input could not be read. -/
inductive Unread where
  | missing
  | isDirectory
  | notDirectory
  | notText
  /-- A reason of the system. -/
  | other (reason : String)
deriving DecidableEq, Repr, Inhabited

/-- The words for why an input could not be read. -/
def Unread.reason : Unread → String
  | missing => "No such file or directory (os error 2)"
  | isDirectory => "Is a directory (os error 21)"
  | notDirectory => "Not a directory (os error 20)"
  | notText => "stream did not contain valid UTF-8"
  | other reason => reason

/-! ## Places -/

/-- Where the names of a place begin. -/
inductive Base where
  /-- So many directories above the folder; none is the folder itself. -/
  | above (levels : Nat)
  | root
deriving DecidableEq, Repr, Inhabited

/-- A place in the tree of directories: the names that lead to it from its base. -/
structure Location where
  base : Base
  names : List String
deriving DecidableEq, Repr, Inhabited

namespace Location

/-- The folder itself. -/
def here : Location := ⟨.above 0, []⟩

/-- The directory that a place stands in; the root stands in itself. -/
def parent (place : Location) : Location :=
  match place.names, place.base with
  | [], .above levels => ⟨.above (levels + 1), []⟩
  | [], .root => place
  | names, base => ⟨base, names.dropLast⟩

/-- Where one part of a path leads. -/
def follow (place : Location) (part : String) : Location :=
  if part = "" ∨ part = "." then place
  else if part = ".." then place.parent
  else ⟨place.base, place.names ++ [part]⟩

/-- Where a path starts. -/
def start (path : String) : Location :=
  if path.toList.head? = some '/' then ⟨.root, []⟩ else here

/-- The parts of a path. -/
def parts (path : String) : List String := (path.toList.splitOn '/').map String.ofList

/-- Where a path leads. -/
def ofPath (path : String) : Location := (parts path).foldl follow (start path)

/-- Whether one place is another, or has it inside. -/
def holds (outer inner : Location) : Bool :=
  outer.base == inner.base && outer.names.isPrefixOf inner.names

end Location

/-! ## Folders -/

/-- Files and their bytes, by their places. -/
structure Folder where
  files : List (Location × ByteArray)
deriving Inhabited

namespace Folder

/-- A folder of files given by their paths.  Of two with the same place, the later one
is there. -/
def ofFiles (files : List (String × ByteArray)) : Folder :=
  ⟨(files.map fun (path, bytes) => (Location.ofPath path, bytes)).reverse⟩

/-- What stands at a place. -/
inductive Entry where
  | directory
  | file (bytes : ByteArray)
deriving Inhabited

/-- What stands at a place, if anything does. -/
def entry? (folder : Folder) (place : Location) : Option Entry :=
  match folder.files.lookup place with
  | some bytes => some (.file bytes)
  | none =>
      if place.names.isEmpty || folder.files.any fun (name, _) => place.holds name then
        some .directory
      else none

/-- Goes through one part of a path, from a place that has to be a directory. -/
def go (folder : Folder) (place : Location) (part : String) : Except Unread Location :=
  match folder.entry? place with
  | some .directory => .ok (place.follow part)
  | some (.file _) => .error .notDirectory
  | none => .error .missing

/-- The bytes of the file at a path. -/
def read (folder : Folder) (path : String) : Except Unread ByteArray := do
  let place ← (Location.parts path).foldlM folder.go (Location.start path)
  match folder.entry? place with
  | some (.file bytes) => return bytes
  | some .directory => throw .isDirectory
  | none => throw .missing

end Folder

end ColonLisp.Command
