/-!
# File trees

The files and directories of a file system with a working directory, and what paths name in them. A
path with a slash in front is walked from the root, any other from the working directory.

A path is walked name by name: every name but the last has to be a directory by then, a dot stays
where it is and two dots go up, though never above the root. Wherever a name is looked up, it is
first measured: one that is too long is refused as such. A slash at the end asks for a directory.
-/
namespace ProtoSchema

/-- What a name stands for. -/
inductive Entry
  | directory
  | file (content : ByteArray)

/-- Contents are compared byte by byte. -/
instance : DecidableEq Entry
  | .directory, .directory => isTrue rfl
  | .directory, .file _ => isFalse nofun
  | .file _, .directory => isFalse nofun
  | .file a, .file b => decidable_of_iff (a.data = b.data) (by simp [ByteArray.ext_iff])

/-- The name of a file or directory within its directory. -/
abbrev Name := List Char

/-- The entries below the root, each under the names that lead to it. -/
structure FileTree where
  entries : List (List Name × Entry) := []
  /-- The names that lead to the working directory. -/
  workingDirectory : List Name := []
  deriving DecidableEq

/-- Why a file cannot be written. -/
inductive AccessFault
  | notFound
  | notDirectory
  | isDirectory
  | nameTooLong
  | nulByte
  deriving DecidableEq, Repr

def AccessFault.text : AccessFault → String
  | .notFound => "No such file or directory (os error 2)"
  | .notDirectory => "Not a directory (os error 20)"
  | .isDirectory => "Is a directory (os error 21)"
  | .nameTooLong => "File name too long (os error 36)"
  | .nulByte => "file name contained an unexpected NUL byte"

/-! ## Paths -/

/-- The pieces of a path between its slashes. -/
def pathPieces : List Char → List Name
  | [] => [[]]
  | c :: cs =>
    if c = '/' then [] :: pathPieces cs
    else
      match pathPieces cs with
      | [] => [[c]]
      | piece :: pieces => (c :: piece) :: pieces

/-- One step of a walk along a path. -/
inductive PathStep
  | stay
  | up
  | down (name : Name)
  deriving DecidableEq, Repr

def PathStep.ofPiece : Name → PathStep
  | [] | ['.'] => .stay
  | ['.', '.'] => .up
  | name => .down name

/-- The steps of a path. -/
def pathSteps (path : List Char) : List PathStep :=
  (pathPieces path).map PathStep.ofPiece

/-- The most bytes of a single name. -/
def nameLimit : Nat := 255

/-- The most bytes of a whole path. -/
def pathLimit : Nat := 4095

/-- The name has more bytes than a name may have. -/
def isTooLong (limit : Nat) (name : List Char) : Bool :=
  limit < (String.ofList name).utf8ByteSize

namespace FileTree

/-- What stands under these names; without a name, the root itself. -/
def entry? (tree : FileTree) : List Name → Option Entry
  | [] => some .directory
  | names => tree.entries.lookup names

/-- The tree with this entry under these names. -/
def put (tree : FileTree) (names : List Name) (entry : Entry) : FileTree :=
  { tree with entries := (names, entry) :: tree.entries.filter (·.1 ≠ names) }

/-- The directory one step on; all steps but the last one of a path end in a directory. -/
def enter (tree : FileTree) (names : List Name) : PathStep → Except AccessFault (List Name)
  | .stay => .ok names
  | .up => .ok names.dropLast
  | .down name =>
    if isTooLong nameLimit name then .error .nameTooLong
    else
      match tree.entry? (names ++ [name]) with
      | some .directory => .ok (names ++ [name])
      | some (.file _) => .error .notDirectory
      | none => .error .notFound

/-- The directory where the walk along a path starts. -/
def origin (tree : FileTree) (path : List Char) : List Name :=
  if path.head? = some '/' then [] else tree.workingDirectory

/-- The directory before the last step of a path, and that step. -/
def approach (tree : FileTree) (path : List Char) :
    Except AccessFault (List Name × PathStep) := do
  let steps := pathSteps path
  let names ← steps.dropLast.foldlM tree.enter (tree.origin path)
  return (names, steps.getLastD .stay)

/-- What a path names. -/
def lookup (tree : FileTree) (path : List Char) : Option Entry :=
  if path = [] ∨ '\x00' ∈ path ∨ isTooLong pathLimit path then none
  else
    match tree.approach path with
    | .ok (names, .down name) =>
      if isTooLong nameLimit name then none else tree.entry? (names ++ [name])
    | .ok (_, .stay) | .ok (_, .up) => some .directory
    | .error _ => none

/-- The names of the file that a path would write, which need not be there yet. -/
def target (tree : FileTree) (path : List Char) : Except AccessFault (List Name) :=
  if path = [] then .error .notFound
  else if '\x00' ∈ path then .error .nulByte
  else if isTooLong pathLimit path then .error .nameTooLong
  else do
    match ← tree.approach (path.reverse.dropWhile (· = '/')).reverse with
    | (_, .stay) | (_, .up) => throw .isDirectory
    | (names, .down name) =>
      if path.getLast? = some '/' then throw .isDirectory
      else if isTooLong nameLimit name then throw .nameTooLong
      else if tree.entry? (names ++ [name]) = some .directory then throw .isDirectory
      else return names ++ [name]

/-- Writes a whole file. Nothing changes if the path cannot be written. -/
def write (tree : FileTree) (path : List Char) (content : ByteArray) :
    Except AccessFault FileTree := do
  return tree.put (← tree.target path) (.file content)

/-- The tree with an entry under these names, and directories on the way to it. -/
def plantAt (tree : FileTree) (names : List Name) (entry : Entry) : FileTree :=
  let ways := (List.range names.length).map names.take
  let grown := (ways.filter (tree.entry? · = none)).foldl (fun t way => t.put way .directory) tree
  grown.put names entry

/-- The tree with an entry at a path of plain names, walked from the working directory. -/
def plant (tree : FileTree) (path : String) (entry : Entry) : FileTree :=
  let names := (pathPieces path.toList).filter fun piece => piece ≠ [] ∧ piece ≠ ['.']
  tree.plantAt (tree.workingDirectory ++ names) entry

/-- A file system with nothing in it but its working directory and the way there. -/
def empty (workingDirectory : List Name) : FileTree :=
  plantAt { workingDirectory } workingDirectory .directory

end FileTree

end ProtoSchema
