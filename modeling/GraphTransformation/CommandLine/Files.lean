/-!
Files by their paths.

`Files` is what the command needs of them. A `FileTree` holds files in memory: its
directories are those on the way to a file, the tree is the working directory, and
of the directories around it nothing is known but that they are there. A path is
followed name by name, and the first name that leads nowhere is the fault.
-/

namespace GraphTransformation.CommandLine

/-- Why a file cannot be read or written. -/
inductive FileFault where
  | notFound
  | notDirectory
  | isDirectory
  | nameTooLong
  | other (description : String)
  deriving DecidableEq, Repr

def FileFault.text : FileFault → String
  | .notFound => "No such file or directory (os error 2)"
  | .notDirectory => "Not a directory (os error 20)"
  | .isDirectory => "Is a directory (os error 21)"
  | .nameTooLong => "File name too long (os error 36)"
  | .other description => description

/-- Access to files by their paths. -/
structure Files (m : Type → Type) where
  read : String → m (Except FileFault ByteArray)
  write : String → String → m (Except FileFault Unit)

/-! ### Places -/

/-- Files by the names on the way to them. -/
structure FileTree where
  files : List (List String × ByteArray)

/-- Where a path leads. -/
inductive Location where
  | directory (names : List String)
  /-- A directory that the tree lies in. -/
  | outside
  | file (names : List String) (contents : ByteArray)
  /-- Nothing, in a directory; without names it is one outside. -/
  | missing (names : Option (List String))

/-- The longest name, in bytes. -/
def maxName : Nat := 255

/-- The longest path, in bytes. -/
def maxPath : Nat := 4095

namespace FileTree

variable (t : FileTree)

/-- What is under these names. -/
def lookup (names : List String) : Location :=
  match t.files.find? (·.1 == names) with
  | some (names, contents) => .file names contents
  | none =>
    if t.files.any fun (other, _) => names.isPrefixOf other then .directory names
    else .missing (some names)

/-- Follows one name of a path. A directory is left where it is by no name and by a dot. -/
def follow : Location → String → Except FileFault Location
  | .file _ _, _ => .error .notDirectory
  | .missing _, _ => .error .notFound
  | .outside, name =>
    if name == "" || name == "." || name == ".." then .ok .outside
    else if maxName < name.utf8ByteSize then .error .nameTooLong
    else .ok (.missing none)
  | .directory names, name =>
    if name == "" || name == "." then .ok (.directory names)
    else if name == ".." then .ok (if names.isEmpty then .outside else .directory names.dropLast)
    else if maxName < name.utf8ByteSize then .error .nameTooLong
    else .ok (t.lookup (names ++ [name]))

/-- Follows the names of a path one after another. -/
def followAll : Location → List String → Except FileFault Location
  | l, [] => .ok l
  | l, name :: rest => do followAll (← t.follow l name) rest

/-- Where a path starts: with a slash outside the tree. -/
def start (path : String) : Location :=
  if path.toList.head? == some '/' then .outside else .directory []

/-- Where a path leads. -/
def locate (path : String) : Except FileFault Location :=
  if maxPath < path.utf8ByteSize then .error .nameTooLong
  else t.followAll (start path) (path.splitOn "/")

/-! ### Access -/

/-- The path of the file that is empty whatever is written to it. -/
def emptyPath : String := "/dev/null"

/-- The contents of a file. -/
def read (path : String) : Except FileFault ByteArray := do
  if path == emptyPath then return .empty
  match ← t.locate path with
  | .file _ contents => return contents
  | .directory _ | .outside => .error .isDirectory
  | .missing _ => .error .notFound

/-- The tree with these contents under these names. -/
def put (names : List String) (contents : ByteArray) : FileTree :=
  ⟨(names, contents) :: t.files.filter (·.1 != names)⟩

/-- The names of a path from the working directory. -/
def names (path : String) : List String :=
  (path.splitOn "/").filter fun name => name != "" && name != "."

/-- The files with these paths. -/
def ofList (files : List (String × ByteArray)) : FileTree :=
  files.foldl (fun t (path, contents) => t.put (names path) contents) ⟨[]⟩

/-- The path without the slashes at its end. -/
def withoutSlashes (path : String) : String :=
  String.ofList (path.toList.reverse.dropWhile (· == '/')).reverse

/-- The tree with these contents in a file, which is created where there is none. A
path with a slash at its end leads to no file. -/
def write (path : String) (contents : ByteArray) : Except FileFault FileTree := do
  if path == emptyPath then return t
  else if maxPath < path.utf8ByteSize then .error .nameTooLong
  else if withoutSlashes path != path then
    let onTheWay := ((withoutSlashes path).splitOn "/").dropLast
    let _ ← t.followAll (start path) (onTheWay ++ [""])
    .error .isDirectory
  else
    match ← t.locate path with
    | .directory _ | .outside => .error .isDirectory
    | .file names _ | .missing (some names) => return t.put names contents
    | .missing none => return t

/-- Access to the files of a tree. -/
def access : Files (StateM FileTree) where
  read path := do return (← get).read path
  write path text := do
    match (← get).write path text.toUTF8 with
    | .ok t =>
      set t
      return .ok ()
    | .error fault => return .error fault

end FileTree

end GraphTransformation.CommandLine
