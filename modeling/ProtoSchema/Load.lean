import ProtoSchema.Compile
import ProtoSchema.FileTree

/-!
# Loading schemas

A schema is loaded from a file. Its path is checked first, by its extension and then by what it
names, and only then is anything read.
-/
namespace ProtoSchema

/-- What is wrong with the path of a schema. -/
inductive PathFault
  | notASchema
  | notFound
  | notARegularFile
  deriving DecidableEq, Repr

def PathFault.reason : PathFault → String
  | .notASchema => "expected a .proto file"
  | .notFound => "file not found"
  | .notARegularFile => "not a regular file"

/-- Why a schema cannot be loaded. -/
inductive LoadFault
  | invalidPath (path : String) (fault : PathFault)
  | invalidSchema (failure : Failure)
  deriving DecidableEq, Repr

def LoadFault.message : LoadFault → String
  | .invalidPath path fault => "Invalid schema path " ++ path ++ ": " ++ fault.reason
  | .invalidSchema failure => failure.message

/-- The extension of every schema file. -/
def schemaExtension : List Char := ['p', 'r', 'o', 't', 'o']

/-- What follows the last dot of a name, unless nothing precedes that dot. -/
def extension? (name : List Char) : Option (List Char) :=
  match name.reverse.dropWhile (· ≠ '.') with
  | _ :: _ :: _ => some (name.reverse.takeWhile (· ≠ '.')).reverse
  | _ => none

/-- The name at the end of a path; single dots and slashes behind it do not count. -/
def fileName? (path : List Char) : Option (List Char) :=
  match ((pathSteps path).filter (· ≠ .stay)).getLast? with
  | some (.down name) => some name
  | _ => none

/-- The path ends in a name with the extension of schemas. -/
def isSchemaPath (path : List Char) : Bool :=
  (fileName? path).bind extension? = some schemaExtension

/-- The bytes of the schema at a path, given what the path names. -/
def schemaBytes (path : String) (found : Option Entry) : Except PathFault ByteArray :=
  if !isSchemaPath path.toList then .error .notASchema
  else
    match found with
    | none => .error .notFound
    | some .directory => .error .notARegularFile
    | some (.file content) => .ok content

/-- The messages of the schema at a path, given what the path names: all of them or a fault. -/
def load (policy : Policy) (path : String) (found : Option Entry) :
    Report LoadFault (List Message) :=
  match schemaBytes path found with
  | .error fault => { result := .error (.invalidPath path fault) }
  | .ok content =>
    let report := compileBytes policy content
    match report.result with
    | .error failure =>
      { result := .error (.invalidSchema failure), events := .fileOpened path :: report.events }
    | .ok messages =>
      { result := .ok messages
        events := .fileOpened path :: (report.events ++ [.fileRead path messages.length]) }

/-- Checks a path against a file tree. -/
def FileTree.checkPath (tree : FileTree) (path : String) : Except PathFault Unit :=
  (schemaBytes path (tree.lookup path.toList)).map fun _ => ()

/-- Loads a schema from a file tree. -/
def FileTree.load (tree : FileTree) (policy : Policy) (path : String) :
    Report LoadFault (List Message) :=
  ProtoSchema.load policy path (tree.lookup path.toList)

end ProtoSchema
