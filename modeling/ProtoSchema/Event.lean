import ProtoSchema.Text.Numeral

/-!
# Events

What reading a schema reports while it goes on, as causes. `Event.text` is the wording,
`Event.level` the weight and `Event.line?` the line for the events that name one.
-/
namespace ProtoSchema

inductive Level
  | debug
  | info
  | warn
  deriving DecidableEq, Repr

def Level.name : Level → String
  | .debug => "DEBUG"
  | .info => "INFO"
  | .warn => "WARN"

inductive Event
  | packageDeclared (name : String) (line : Nat)
  | messageStarted (name : String) (line : Nat)
  | enumStarted (name message : String)
  | messageEnded (name : String) (fields : Nat)
  | optionIgnored (name value : String) (line : Nat)
  /-- A package line names another package than the first one did. -/
  | packageIgnored (name first : String) (line : Nat)
  | messageFinished (name : String) (line : Nat)
  /-- The whole schema was read without failure. -/
  | schemaFinished (lines messages : Nat)
  | fileOpened (path : String)
  | fileRead (path : String) (messages : Nat)
  deriving DecidableEq, Repr

namespace Event

def level : Event → Level
  | .packageIgnored .. => .warn
  | .fileOpened _ | .fileRead .. => .info
  | _ => .debug

/-- A count of things; only one thing is singular. -/
def counted (n : Nat) (thing : String) : String :=
  Text.decimalText n ++ " " ++ thing ++ (if n = 1 then "" else "s")

def text : Event → String
  | .packageDeclared name _ => "package " ++ name
  | .messageStarted name _ => "message " ++ name
  | .enumStarted name message => "enum " ++ name ++ " in message " ++ message
  | .messageEnded name fields =>
    "end of message " ++ name ++ " (" ++ Text.decimalText fields ++ " fields)"
  | .optionIgnored name value _ => "ignoring option " ++ name ++ " = " ++ value
  | .packageIgnored name first _ => "ignoring package " ++ name ++ ", already using " ++ first
  | .messageFinished name _ => "finalized message " ++ name
  | .schemaFinished lines messages =>
    "read " ++ counted lines "line" ++ ", " ++ counted messages "message"
  | .fileOpened path => "Reading schema " ++ path
  | .fileRead path messages => "Read " ++ Text.decimalText messages ++ " message(s) from " ++ path

def line? : Event → Option Nat
  | .packageDeclared _ line | .messageStarted _ line | .optionIgnored _ _ line
  | .packageIgnored _ _ line | .messageFinished _ line => some line
  | .enumStarted .. | .messageEnded .. | .schemaFinished .. | .fileOpened _ | .fileRead .. => none

end Event

end ProtoSchema
