import ProtoSchema.LineRules

/-!
# Replaying edits

Line rules without a language: every line takes the next edit of a list and does what it says, no
matter what the line is. A line beyond the list does nothing. The rules remember what they were
shown.
-/
namespace ProtoSchema

/-- A fault that an edit may report. -/
inductive EditFault
  | unclosedMessage
  | noMessages
  /-- The line is rejected for this reason. -/
  | rejectLine (reason : String)
  deriving DecidableEq, Repr

/-- What one line is to do, in this order. -/
structure Edit where
  /-- The new name of the message. -/
  name? : Option String := none
  /-- How many of the last fields to take away. -/
  dropFields : Nat := 0
  addFields : List Field := []
  /-- Whether a block is open from now on. -/
  isOpen? : Option Bool := none
  /-- The fault to report in place of the signal. -/
  fault? : Option EditFault := none
  signal : Signal := {}
  deriving DecidableEq, Repr

/-- What the rules were shown with one line. -/
structure Sighting where
  lineNumber : Nat
  line : String
  name : String
  package? : Option String
  fields : Nat
  deriving DecidableEq, Repr

structure ReplayState where
  edits : List Edit
  isOpen : Bool := false
  /-- The latest line first. -/
  sightings : List Sighting := []
  deriving DecidableEq, Repr

/-- The message after the edit. -/
def Edit.revise (edit : Edit) (m : Message) : Message :=
  { m with
    name := edit.name?.getD m.name
    fields := m.fields.take (m.fields.length - edit.dropFields) ++ edit.addFields }

/-- A rejected line is shown as it is. -/
def EditFault.fault (line : List Char) : EditFault → Fault
  | .unclosedMessage => .unclosedMessage
  | .noMessages => .noMessages
  | .rejectLine reason => .unrecognizedLine (String.ofList line) (.other reason)

/-- The rules that replay a list of edits. -/
def replay : LineRules ReplayState where
  apply state line lineNumber current :=
    let edit := state.edits.headD {}
    let sighting : Sighting :=
      { lineNumber
        line := String.ofList line
        name := current.name
        package? := current.package?
        fields := current.fields.length }
    { state :=
        { edits := state.edits.tail
          isOpen := edit.isOpen?.getD state.isOpen
          sightings := sighting :: state.sightings }
      current := edit.revise current
      result := match edit.fault? with
        | some fault => .error (fault.fault line)
        | none => .ok edit.signal }
  isClosed state := !state.isOpen

end ProtoSchema
