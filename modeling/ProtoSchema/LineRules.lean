import ProtoSchema.Event
import ProtoSchema.Fault
import ProtoSchema.Message

/-!
# Line rules

Line rules say what one line of code does to the message under construction. They keep whatever
state they need between lines, and answer each line with a signal or a fault. What they have done to
the message by then stands in either case.
-/
namespace ProtoSchema

/-- What a line meant for the messages as a whole. -/
structure Signal where
  /-- The line ends the message under construction. -/
  closed : Bool := false
  /-- The line declares this package. -/
  package? : Option String := none
  deriving DecidableEq, Repr

/-- The answer to one line. -/
structure Reply (σ : Type) where
  state : σ
  current : Message
  result : Except Fault Signal
  events : List Event := []

/-- Rules with states in `σ`. -/
structure LineRules (σ : Type) where
  /-- Applies a line of code, at a line number, to the message under construction. -/
  apply : σ → List Char → Nat → Message → Reply σ
  /-- No block is open. -/
  isClosed : σ → Bool

end ProtoSchema
