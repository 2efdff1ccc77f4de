import ProtoSchema.FieldIds
import ProtoSchema.LineRules
import ProtoSchema.Policy
import ProtoSchema.Text.Comment

/-!
# Assembling messages

An assembly reads a schema line by line: it counts the lines, hands the code of each to its line
rules and keeps the finished messages. The first package that a line declares is the package of the
message under construction and of every later one. A failing line does not stop an assembly; it
keeps the state that the failing line left, and its caller decides whether to go on.
-/
namespace ProtoSchema

/-- The state between two lines, under rules with states in `σ`. -/
structure Assembly (σ : Type) where
  state : σ
  /-- How many lines were read. -/
  lineCount : Nat := 0
  /-- The message under construction. -/
  current : Message := {}
  /-- The package that all messages share from now on. -/
  package? : Option String := none
  finished : List Message := []

/-- What one or more lines make of an assembly. -/
structure Step (σ : Type) where
  next : Assembly σ
  failure? : Option Failure := none
  events : List Event := []

/-- The step with these events in front of its own. -/
def Step.after {σ : Type} (events : List Event) (step : Step σ) : Step σ :=
  { step with events := events ++ step.events }

/-- An answer with the events on the way to it. -/
structure Report (ε α : Type) where
  result : Except ε α
  events : List Event := []

/-- The report with these events in front of its own. -/
def Report.after {ε α : Type} (events : List Event) (report : Report ε α) : Report ε α :=
  { report with events := events ++ report.events }

namespace Assembly

variable {σ : Type}

/-- The line that a failure is pinned to: 1 before the first line. -/
def lineNumber (a : Assembly σ) : Nat :=
  max a.lineCount 1

/-- The first declared package is taken, and any other name is passed over. -/
def takePackage (a : Assembly σ) (package? : Option String) : Assembly σ × List Event :=
  match package?, a.package? with
  | none, _ => (a, [])
  | some name, none =>
    ({ a with current := { a.current with package? := some name }, package? := some name }, [])
  | some name, some first =>
    (a, if name = first then [] else [.packageIgnored name first a.lineCount])

/-- The message under construction is finished, and the next one is blank. -/
def finishMessage (a : Assembly σ) : Assembly σ × List Event :=
  ({ a with current := .blank a.package?, finished := a.finished ++ [a.current] },
    [.messageFinished a.current.name a.lineCount])

/-- The assembly after an accepted line, and what it reports. -/
def obey (a : Assembly σ) (signal : Signal) : Assembly σ × List Event :=
  let (b, packageEvents) := a.takePackage signal.package?
  if signal.closed then
    let (c, messageEvents) := b.finishMessage
    (c, packageEvents ++ messageEvents)
  else (b, packageEvents)

/-- The fault of the fields behind the first `known` ones, where the policy asks for it now. -/
def newIdFault? (policy : Policy) (known : Nat) (m : Message) : Option Fault :=
  match policy.idCheck with
  | .whileReading => m.idFaultFrom? known
  | .atEnd => none

/-- Applies a line of code at the current line. An empty line changes nothing. -/
def apply (rules : LineRules σ) (policy : Policy) (a : Assembly σ) (line : List Char) : Step σ :=
  if line = [] then { next := a }
  else
    let reply := rules.apply a.state line a.lineCount a.current
    let b := { a with state := reply.state, current := reply.current }
    match reply.result with
    | .error fault =>
      { next := b, failure? := some ⟨a.lineCount, fault⟩, events := reply.events }
    | .ok signal =>
      match newIdFault? policy a.current.fields.length reply.current with
      | some fault =>
        { next := b, failure? := some ⟨a.lineCount, fault⟩, events := reply.events }
      | none =>
        let (c, events) := b.obey signal
        { next := c, events := reply.events ++ events }

/-- Counts a line of text and applies its code. -/
def read (rules : LineRules σ) (policy : Policy) (a : Assembly σ) (line : List Char) : Step σ :=
  apply rules policy { a with lineCount := a.lineCount + 1 } (Text.code line)

/-- What an assembly is given: a line of text, or code that belongs to the current line. -/
inductive Input
  | text (line : List Char)
  | code (line : List Char)
  deriving DecidableEq, Repr

def feed (rules : LineRules σ) (policy : Policy) (a : Assembly σ) : Input → Step σ
  | .text line => a.read rules policy line
  | .code line => a.apply rules policy line

/-- What the end of the schema finds wrong: an open block, then no message, then a repeated id. -/
def endFault? (rules : LineRules σ) (policy : Policy) (a : Assembly σ) : Option Fault :=
  if !rules.isClosed a.state then some .unclosedMessage
  else if a.finished = [] ∧ policy.emptyInput = .reject then some .noMessages
  else Message.firstIdFault? a.finished

/-- Ends the schema: its messages in source order, unless something is wrong with it. -/
def finish (rules : LineRules σ) (policy : Policy) (a : Assembly σ) :
    Report Failure (List Message) :=
  match a.endFault? rules policy with
  | some fault => { result := .error ⟨a.lineNumber, fault⟩ }
  | none =>
    { result := .ok a.finished, events := [.schemaFinished a.lineCount a.finished.length] }

/-- Reads lines up to the first failure. `none` stands for a line that is no text. -/
def readAll (rules : LineRules σ) (policy : Policy) (a : Assembly σ) :
    List (Option (List Char)) → Step σ
  | [] => { next := a }
  | none :: _ => { next := a, failure? := some ⟨a.lineCount + 1, .unreadableSource⟩ }
  | some line :: lines =>
    let step := a.read rules policy line
    match step.failure? with
    | some _ => step
    | none => (readAll rules policy step.next lines).after step.events

/-- Reads all lines and ends the schema, or stops at the first failure. -/
def complete (rules : LineRules σ) (policy : Policy) (a : Assembly σ)
    (lines : List (Option (List Char))) : Report Failure (List Message) :=
  let step := a.readAll rules policy lines
  match step.failure? with
  | some failure => { result := .error failure, events := step.events }
  | none => (step.next.finish rules policy).after step.events

end Assembly

end ProtoSchema
