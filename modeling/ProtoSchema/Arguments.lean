import ProtoSchema.Command

/-!
# Command line arguments

A command line is the word `check` or `dump` and its options. Options are long (`--input PATH`,
`--input=PATH`) or short (`-i PATH`, `-iPATH`, `-i=PATH`), and short ones may share a dash. Only
`--verbose` may also stand before the word. No option may be given twice in the same place, a value
is never empty, and a value that stands by itself must not look like an option.
-/
namespace ProtoSchema.Arguments

inductive OptionName
  | input
  | output
  | deferredIdCheck
  | requireMessages
  | verbose
  deriving DecidableEq, Repr

namespace OptionName

/-- The long name, behind two dashes. -/
def long : OptionName → String
  | .input => "input"
  | .output => "output"
  | .deferredIdCheck => "deferred-id-check"
  | .requireMessages => "require-messages"
  | .verbose => "verbose"

/-- The short name, behind one dash. -/
def short? : OptionName → Option Char
  | .input => some 'i'
  | .output => some 'o'
  | .verbose => some 'v'
  | .deferredIdCheck | .requireMessages => none

def takesValue : OptionName → Bool
  | .input | .output => true
  | .deferredIdCheck | .requireMessages | .verbose => false

end OptionName

/-- Where an option stands: before the word of the command or behind it. -/
inductive Position
  | beforeWord
  | afterCheck
  | afterDump
  deriving DecidableEq, Repr

/-- The options that may stand there. -/
def Position.options : Position → List OptionName
  | .beforeWord => [.verbose]
  | .afterCheck => [.input, .deferredIdCheck, .requireMessages, .verbose]
  | .afterDump => [.input, .output, .deferredIdCheck, .requireMessages, .verbose]

/-- The options of one position with their values; one without value has the empty one. -/
abbrev Settings := List (OptionName × List Char)

/-- What a single argument gives: options, the last of which may still wait for its value. -/
structure Reading where
  settings : Settings := []
  waiting? : Option OptionName := none

/-- The short options behind a single dash. -/
def readShort (position : Position) : List Char → Option Reading
  | [] => some {}
  | c :: cs => do
    let name ← position.options.find? (·.short? = some c)
    if name.takesValue then
      match cs with
      | [] => return { waiting? := some name }
      | '=' :: value => return { settings := [(name, value)] }
      | value => return { settings := [(name, value)] }
    else
      let reading ← readShort position cs
      return { reading with settings := (name, []) :: reading.settings }

/-- The long option behind two dashes. -/
def readLong (position : Position) (cs : List Char) : Option Reading := do
  let name ← position.options.find? (·.long.toList = cs.takeWhile (· ≠ '='))
  match cs.dropWhile (· ≠ '='), name.takesValue with
  | [], true => return { waiting? := some name }
  | [], false => return { settings := [(name, [])] }
  | _ :: value, true => return { settings := [(name, value)] }
  | _ :: _, false => none

/-- The options of an argument, which has to start with a dash and go on. -/
def readArgument (position : Position) : List Char → Option Reading
  | '-' :: '-' :: cs => readLong position cs
  | '-' :: c :: cs => readShort position (c :: cs)
  | _ => none

/-- One more option: none that is there already, and no empty value. -/
def addSetting (settings : Settings) (setting : OptionName × List Char) : Option Settings :=
  if (settings.lookup setting.1).isSome ∨ (setting.1.takesValue ∧ setting.2 = []) then none
  else some (settings ++ [setting])

/-- A text that can stand by itself as the value of an option. -/
def isSeparateValue (cs : List Char) : Bool :=
  cs = ['-'] || cs.head? ≠ some '-'

/-- The options behind the word of a command, the first of which may be the value that an option
waits for. Two dashes may end them, with nothing behind. -/
def readOptions (position : Position) (settings : Settings) :
    Option OptionName → List (List Char) → Option Settings
  | none, [] => some settings
  | some _, [] => none
  | some name, value :: args =>
    if isSeparateValue value then do
      readOptions position (← addSetting settings (name, value)) none args
    else none
  | none, arg :: args =>
    if arg = ['-', '-'] then if args = [] then some settings else none
    else do
      let reading ← readArgument position arg
      readOptions position (← reading.settings.foldlM addSetting settings) reading.waiting? args

/-- The value of an option. -/
def value? (settings : Settings) (name : OptionName) : Option String :=
  (settings.lookup name).map String.ofList

/-- The option is there. -/
def has (settings : Settings) (name : OptionName) : Bool :=
  (settings.lookup name).isSome

/-- The command of a word with the options before and behind it. -/
def command? (early late : Settings) (action : Action) : Option Command := do
  return {
    action
    input := ← value? late .input
    policy :=
      { idCheck := if has late .deferredIdCheck then .atEnd else .whileReading
        emptyInput := if has late .requireMessages then .reject else .accept }
    verbose := has early .verbose || has late .verbose }

/-- The arguments up to the word of the command, then the rest. -/
def readCommand (early : Settings) : List (List Char) → Option Command
  | [] => none
  | arg :: args =>
    if arg = "check".toList then do
      command? early (← readOptions .afterCheck [] none args) .check
    else if arg = "dump".toList then do
      let late ← readOptions .afterDump [] none args
      command? early late (.dump (value? late .output))
    else do
      let reading ← readArgument .beforeWord arg
      readCommand (← reading.settings.foldlM addSetting early) args

/-- The command that the arguments of a program ask for; none if they are refused. -/
def parse (args : List String) : Option Command :=
  readCommand [] (args.map String.toList)

end ProtoSchema.Arguments
