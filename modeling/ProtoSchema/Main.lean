import ProtoSchema.Arguments

/-!
# The command line program

The outer layer: it asks the world what the input path names, lets the command plan, and carries
the plan out.
-/
namespace ProtoSchema.Program

/-- What is said when the arguments are refused. -/
def usage : String :=
  "Usage: protoschema [-v] check -i PATH [--deferred-id-check] [--require-messages]\n" ++
  "       protoschema [-v] dump -i PATH [-o PATH] [--deferred-id-check] [--require-messages]\n"

/-- What a path names in the world. -/
def entryAt (path : String) : IO (Option Entry) := do
  try
    return some (.file (← IO.FS.readBinFile path))
  catch
    | .inappropriateType _ 21 _ => return some .directory
    | _ => return none

/-- The wording of an error of the world, in the words of a file tree where it has them. -/
def accessText : IO.Error → String
  | .noFileOrDirectory .. => AccessFault.notFound.text
  | .inappropriateType _ 20 _ => AccessFault.notDirectory.text
  | .inappropriateType _ 21 _ => AccessFault.isDirectory.text
  | .invalidArgument _ 36 _ => AccessFault.nameTooLong.text
  | error => toString error

def perform : Plan → IO UInt32
  | .fail message => do
    IO.eprint (Command.errorText message)
    return 1
  | .print text => do
    IO.print text
    return 0
  | .write path content text => do
    try
      IO.FS.writeFile path content
      IO.print text
      return 0
    catch error =>
      IO.eprint (Command.errorText (Command.writeFaultMessage (accessText error)))
      return 1

def run (command : Command) : IO UInt32 := do
  let (plan, events) := command.plan (← entryAt command.input)
  if command.verbose then
    for event in events do
      IO.eprintln (event.level.name ++ " " ++ event.text)
  perform plan

end ProtoSchema.Program

def main (args : List String) : IO UInt32 :=
  match ProtoSchema.Arguments.parse args with
  | some command => ProtoSchema.Program.run command
  | none => do
    IO.eprint ProtoSchema.Program.usage
    return 2
