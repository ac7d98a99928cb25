/-!
# Files

What commands need of a file system: to read a file and to write one, by path.
A tree of files held in memory gives both without a disk.  A path is walked one
part at a time, and each part is looked up in a directory that is there, so that
a step up from a directory that is missing leads nowhere.
-/

namespace Chronograph.CommandLine

/-- Why a file is not read or written. -/
inductive FileFault where
  | notFound | isDirectory | notDirectory | nameTooLong | permissionDenied | notText
  /-- A fault of the system, in its own words. -/
  | other (message : String)
deriving DecidableEq

/-- The message of a fault. -/
def FileFault.message : FileFault → String
  | notFound => "No such file or directory (os error 2)"
  | permissionDenied => "Permission denied (os error 13)"
  | notDirectory => "Not a directory (os error 20)"
  | isDirectory => "Is a directory (os error 21)"
  | nameTooLong => "File name too long (os error 36)"
  | notText => "stream did not contain valid UTF-8"
  | other message => message

/-- Access to files. -/
structure FileAccess (m : Type → Type) where
  read : String → m (Except FileFault ByteArray)
  write : String → ByteArray → m (Except FileFault Unit)

/-- A file read as text. -/
def FileAccess.readText {m : Type → Type} [Monad m] (files : FileAccess m) (path : String) :
    m (Except FileFault String) := do
  match ← files.read path with
  | .error fault => return .error fault
  | .ok bytes =>
    match String.fromUTF8? bytes with
    | some text => return .ok text
    | none => return .error .notText

/-! ## Paths -/

/-- A path: the parts between its slashes, where it starts, and whether a slash
ends it. -/
structure Path where
  isAbsolute : Bool
  parts : List String
  endsInSlash : Bool

namespace Path

/-- The runs of characters of a text that are all slashes or none. -/
def runs (s : List Char) : List (List Char) := s.splitBy fun a b => (a == '/') == (b == '/')

/-- The path that a text spells.  Slashes in a row count as one. -/
def ofText (text : String) : Path where
  isAbsolute := text.toList.head? = some '/'
  parts := ((runs text.toList).filter (!·.contains '/')).map String.ofList
  endsInSlash := text.toList.getLast? = some '/'

/-- The most bytes of a path. -/
def maxBytes : Nat := 4095

/-- The most bytes of one part of a path. -/
def maxPartBytes : Nat := 255

/-- The path that a text spells, if a system takes it. -/
def ofText? (text : String) : Except FileFault Path :=
  if text.isEmpty then .error .notFound
  else if maxBytes < text.utf8ByteSize then .error .nameTooLong
  else .ok (ofText text)

/-- The path as one to write at: a slash behind the last name asks for the
directory that the name stands in. -/
def forWriting (p : Path) : Path :=
  if p.endsInSlash then { p with parts := p.parts.dropLast ++ ["."] } else p

end Path

/-! ## A tree of files in memory -/

/-- What stands at a place of a tree. -/
inductive Entry where
  | directory
  | file (content : ByteArray)
  /-- The device that holds nothing and takes anything. -/
  | null

/-- A tree of files: what stands at its places, each named by the names on the
way from the root, and the place where relative paths start.  Of two entries for
one place the first counts. -/
structure FileTree where
  entries : List (List String × Entry)
  current : List String

namespace FileTree

/-- The tree whose current directory is empty. -/
def empty : FileTree where
  entries := [(["dev"], .directory), (["dev", "null"], .null), (["tmp"], .directory),
    (["tmp", "work"], .directory)]
  current := ["tmp", "work"]

/-- What stands at a place.  The root is a directory. -/
def entry? (t : FileTree) (place : List String) : Option Entry :=
  if place.isEmpty then some .directory
  else (t.entries.find? (·.1 == place)).map (·.2)

/-- The place that one part of a path leads to.  Only a directory leads on. -/
def step (t : FileTree) (place : List String) (part : String) :
    Except FileFault (List String) :=
  match t.entry? place with
  | none => .error .notFound
  | some .directory =>
    if part = "." then .ok place
    else if part = ".." then .ok place.dropLast
    else if Path.maxPartBytes < part.utf8ByteSize then .error .nameTooLong
    else .ok (place ++ [part])
  | some _ => .error .notDirectory

/-- The place that a path leads to, where an entry may stand or not. -/
def locate (t : FileTree) (p : Path) : Except FileFault (List String) :=
  p.parts.foldlM t.step (if p.isAbsolute then [] else t.current)

/-- The bytes at a path. -/
def read (t : FileTree) (path : String) : Except FileFault ByteArray := do
  let p ← Path.ofText? path
  match t.entry? (← t.locate p) with
  | none => .error .notFound
  | some .directory => .error .isDirectory
  | some (.file content) => if p.endsInSlash then .error .notDirectory else .ok content
  | some .null => if p.endsInSlash then .error .notDirectory else .ok .empty

/-- The tree with a file at a place. -/
def insert (t : FileTree) (place : List String) (content : ByteArray) : FileTree :=
  { t with entries := (place, .file content) :: t.entries }

/-- The tree with a file written at a path. -/
def write (t : FileTree) (path : String) (content : ByteArray) : Except FileFault FileTree := do
  let place ← t.locate (← Path.ofText? path).forWriting
  match t.entry? place with
  | some .directory => .error .isDirectory
  | some .null => .ok t
  | some (.file _) | none => .ok (t.insert place content)

/-- The tree with a file below the current directory, and with the directories
that lead to it. -/
def put (t : FileTree) (path : String) (content : ByteArray) : FileTree :=
  let names := (Path.ofText path).parts.filter (· ≠ ".")
  let directories := (List.range names.length).map fun k =>
    (t.current ++ names.take k, Entry.directory)
  { t with entries := directories ++ t.entries }.insert (t.current ++ names) content

/-- The access to the files of a tree that is the state of a computation. -/
def access : FileAccess (StateM FileTree) where
  read path := do return (← get).read path
  write path content := do
    match (← get).write path content with
    | .ok t => set t; return .ok ()
    | .error fault => return .error fault

end FileTree

end Chronograph.CommandLine
