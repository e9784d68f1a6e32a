import SpanScript.Template

/-!
# Template files

Where templates are read from.  A `FileTree` is a directory with files and
directories below it, somewhere in a file system of which little else is known;
`read` follows a path from its top, or from the root of the system.  Opening a
template can fail in two ways: the file cannot be opened, or its bytes cannot be
held in the way that was asked for, for an empty file cannot be mapped.
-/

namespace SpanScript

inductive FileProblem
  | notFound
  | isDirectory
  | notDirectory
  | denied
  | nameTooLong
  | cannotHold
  deriving DecidableEq, Repr

def FileProblem.name : FileProblem → String
  | notFound => "FileNotFoundError"
  | isDirectory => "IsADirectoryError"
  | notDirectory => "NotADirectoryError"
  | denied => "PermissionError"
  | nameTooLong => "OSError"
  | cannotHold => "ValueError"

/-- A template file that cannot be opened, or be held once it is open. -/
inductive OpenFault
  | opening (path : String) (problem : FileProblem)
  | holding (path : String) (problem : FileProblem)
  deriving DecidableEq, Repr

namespace OpenFault

def problem : OpenFault → FileProblem
  | opening _ p | holding _ p => p

def message : OpenFault → String
  | opening path p => "open template file '" ++ path ++ "' failed with " ++ p.name
  | holding path p => "map template file '" ++ path ++ "' failed with " ++ p.name

end OpenFault

namespace Holding

/-- How a file is held unless told otherwise: mapped, if it has any bytes. -/
def standard (raw : Bytes) : Holding := if raw.isEmpty then read else mapped

/-- The way to hold a file that a name asks for; no name or an empty one asks
for the standard way. -/
def ofName? (name : Option String) (raw : Bytes) : Option Holding :=
  match name.getD "" with
  | "" => some (standard raw)
  | name =>
    if name = mapped.name then (if raw.isEmpty then none else some mapped)
    else if name = read.name then some read
    else none

end Holding

/-- Opens a template, from what reading its file gave. -/
def Template.open? (path : String) (holding : Option String)
    (contents : Except FileProblem Bytes) : Except OpenFault Template :=
  match contents with
  | .error p => .error (.opening path p)
  | .ok raw =>
    match Holding.ofName? holding raw with
    | some h => .ok (.ofRaw path h raw)
    | none => .error (.holding path .cannotHold)

/-- Files and directories below a directory, by their paths from it. -/
structure FileTree where
  files : List (List String × Bytes)
  directories : List (List String)

namespace FileTree

/-- The longest name of a file, in bytes. -/
def longestName : Nat := 255

/-- A path must be shorter than this many bytes. -/
def pathLimit : Nat := 4096

/-- The directories that a system has at its root. -/
def rootDirectories : List String :=
  ["bin", "boot", "dev", "etc", "home", "lib", "media", "mnt", "opt", "proc", "root", "run",
    "sbin", "srv", "sys", "tmp", "usr", "var"]

/-- The null device, which reads as an empty file. -/
def nullDevice : List String := ["dev", "null"]

/-- A directory that a path has come to: one of the tree, by its path from the
top; one by its path from the root of the system; or one above the tree, whose
name and depth are not known. -/
inductive Place
  | below (path : List String)
  | fromRoot (path : List String)
  | above
  deriving DecidableEq, Repr

/-- The directory that a directory lies in.  The root lies in itself. -/
def Place.parent : Place → Place
  | below [] => above
  | below path => below path.dropLast
  | fromRoot path => fromRoot path.dropLast
  | above => above

/-- What a name in a directory stands for. -/
inductive Entry
  | file (bytes : Bytes)
  | directory (place : Place)

/-- Whether there is a directory at a path: the top, one that was made, or one
that something lies in. -/
def hasDirectory (t : FileTree) (path : List String) : Bool :=
  path.isEmpty || t.directories.any (path.isPrefixOf ·)
    || t.files.any fun (p, _) => path.isPrefixOf p && path.length < p.length

/-- What a name in a directory stands for, if anything.  Of what lies outside
the tree only the root directories and the null device are known. -/
def entry? (t : FileTree) (here : Place) (name : String) : Option Entry :=
  match here with
  | .below path =>
    let path := path ++ [name]
    match t.files.lookup path with
    | some bytes => some (.file bytes)
    | none => if t.hasDirectory path then some (.directory (.below path)) else none
  | .fromRoot path =>
    let path := path ++ [name]
    if path = nullDevice then some (.file [])
    else if path.length = 1 ∧ name ∈ rootDirectories then some (.directory (.fromRoot path))
    else none
  | .above => none

/-- Follows names from a directory to a file.  `folder` says that what is found
has to be a directory.  The first name that cannot be followed decides what is
wrong. -/
def follow (t : FileTree) (folder : Bool) : Place → List String → Except FileProblem Bytes
  | _, [] => .error .isDirectory
  | here, name :: rest =>
    if name = ".." then t.follow folder here.parent rest
    else if longestName < name.utf8ByteSize then .error .nameTooLong
    else
      match t.entry? here name with
      | some (.file bytes) => if rest.isEmpty && !folder then .ok bytes else .error .notDirectory
      | some (.directory place) => t.follow folder place rest
      | none => .error .notFound

/-- The names that a path goes through. -/
def names (path : String) : List String :=
  (path.splitOn "/").filter fun n => n != "" && n != "."

/-- Where a path begins: at the root of the system if it begins with a slash,
else at the top of the tree. -/
def origin (path : String) : Place := if path.startsWith "/" then .fromRoot [] else .below []

def read (t : FileTree) (path : String) : Except FileProblem Bytes :=
  if path.isEmpty then .error .notFound
  else if pathLimit ≤ path.utf8ByteSize then .error .nameTooLong
  else t.follow (path.endsWith "/" || path.endsWith "/.") (origin path) (names path)

end FileTree

end SpanScript
