import ProtoSchema.Load
import ProtoSchema.Message.Document

/-!
# Commands

`check` lists the messages of a schema and `dump` gives their JSON document, on the standard output
or in a file. A command is all or nothing: one that fails prints nothing but its error and changes
no file.
-/
namespace ProtoSchema

inductive Action
  | check
  /-- Writes to the file, or prints if there is none. -/
  | dump (output? : Option String)
  deriving DecidableEq, Repr

structure Command where
  action : Action
  input : String
  policy : Policy := {}
  verbose : Bool := false
  deriving DecidableEq, Repr

/-- What is left to do once the schema has been read. -/
inductive Plan
  | fail (message : String)
  | print (text : String)
  /-- Writes a file, and prints a text afterwards. -/
  | write (path content text : String)
  deriving DecidableEq, Repr

/-- The line that `check` prints for a message. -/
def Message.summary (m : Message) : String :=
  m.package?.getD "<no package>" ++ "." ++ m.name ++ ": " ++ Text.decimalText m.fields.length ++
    " field(s), " ++ Text.decimalText m.enums.length ++ " enum(s)\n"

namespace Command

/-- What a command does with the messages of its schema. -/
def planFor (command : Command) (messages : List Message) : Plan :=
  match command.action with
  | .check => .print (String.join (messages.map Message.summary) ++ command.input ++ " is valid\n")
  | .dump none => .print (Message.document messages ++ "\n")
  | .dump (some path) =>
    .write path (Message.document messages) ("Message model written to " ++ path ++ "\n")

/-- What a command does, given what its input path names. -/
def plan (command : Command) (found : Option Entry) : Plan × List Event :=
  let report := load command.policy command.input found
  match report.result with
  | .error fault => (.fail fault.message, report.events)
  | .ok messages => (command.planFor messages, report.events)

/-- What a command leaves behind. -/
structure Outcome where
  exitCode : Nat
  stdout : String := ""
  stderr : String := ""
  tree : FileTree

/-- The text in which an error reaches the standard error output. -/
def errorText (message : String) : String :=
  "Error: " ++ message ++ "\n"

def writeFaultMessage (fault : String) : String :=
  "I/O error: " ++ fault

/-- Carries a plan out on a file tree. -/
def perform (tree : FileTree) : Plan → Outcome
  | .fail message => { exitCode := 1, stderr := errorText message, tree }
  | .print text => { exitCode := 0, stdout := text, tree }
  | .write path content text =>
    match tree.write path.toList content.toUTF8 with
    | .ok tree => { exitCode := 0, stdout := text, tree }
    | .error fault => { exitCode := 1, stderr := errorText (writeFaultMessage fault.text), tree }

/-- Runs a command on a file tree. -/
def run (command : Command) (tree : FileTree) : Outcome :=
  perform tree (command.plan (tree.lookup command.input.toList)).1

end Command

end ProtoSchema
