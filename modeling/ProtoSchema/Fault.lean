import ProtoSchema.Text.Blank
import ProtoSchema.Text.Numeral
import ProtoSchema.Text.Quoted

/-!
# Faults

What can be wrong with a schema, as causes; their wording is `Reason.text`, `Fault.message` and
`Failure.message`. A failure is a fault pinned to the line that was read when it was found.
-/
namespace ProtoSchema

/-- Why a line is rejected. -/
inductive Reason
  | notAStatement
  /-- The line starts like a field and goes on unlike one. -/
  | malformedField
  | messageInsideBlock
  | enumInsideEnum
  | enumOutsideMessage
  | strayClosingBrace
  | packageInsideEnum
  | fieldOutsideMessage
  | fieldIdNotPositive
  | fieldIdOutOfRange
  | enumValueOutsideEnum
  | enumValueOutOfRange
  | optionInsideEnum
  /-- A reason that line rules give in their own words. -/
  | other (text : String)
  deriving DecidableEq, Repr

def Reason.text : Reason → String
  | .notAStatement => "not a recognized statement"
  | .malformedField => "expected <scope> <type> <name> = <id>;"
  | .messageInsideBlock => "nested messages are not supported"
  | .enumInsideEnum => "nested enums are not supported"
  | .enumOutsideMessage => "enum declared outside of a message"
  | .strayClosingBrace => "closing brace without an open message"
  | .packageInsideEnum => "package declared inside an enum"
  | .fieldOutsideMessage => "field declared outside of a message body"
  | .fieldIdNotPositive => "field id must be a positive integer"
  | .fieldIdOutOfRange => "field id out of range"
  | .enumValueOutsideEnum => "enum value outside of an enum"
  | .enumValueOutOfRange => "enum value out of range"
  | .optionInsideEnum => "options are not supported inside an enum"
  | .other text => text

/-- What is wrong with a schema, without the line. -/
inductive Fault
  /-- A line is not valid UTF-8. -/
  | unreadableSource
  /-- The schema ends inside a block. -/
  | unclosedMessage
  /-- A line is rejected; `shown` is how the message shows it. -/
  | unrecognizedLine (shown : String) (reason : Reason)
  /-- A field has the id of an earlier field of its message. -/
  | duplicateFieldId (message field : String) (id : UInt32)
  /-- The schema declares no message, and an empty schema is not accepted. -/
  | noMessages
  deriving DecidableEq, Repr

/-- A text as messages show it: without outer blanks, between quotes. -/
def shown (text : List Char) : String :=
  String.ofList (Text.quoted (Text.trim text))

/-- The fault of a rejected text. -/
def Fault.rejected (text : List Char) (reason : Reason) : Fault :=
  .unrecognizedLine (shown text) reason

def Fault.message : Fault → String
  | .unreadableSource => "Unable to read schema source: stream did not contain valid UTF-8"
  | .unclosedMessage => "The schema does not end with a closing message marker"
  | .unrecognizedLine shown reason => "Unrecognized line " ++ shown ++ ": " ++ reason.text
  | .duplicateFieldId message field id =>
    "Message field id must be unique, field: " ++ field ++ " (id " ++ Text.decimalText id.toNat ++
      " in message " ++ message ++ ")"
  | .noMessages => "The schema does not declare any message"

/-- A fault and the line that was read when it was found. -/
structure Failure where
  line : Nat
  fault : Fault
  deriving DecidableEq, Repr

def Failure.message (failure : Failure) : String :=
  "Error at line " ++ Text.decimalText failure.line ++ ": " ++ failure.fault.message

end ProtoSchema
