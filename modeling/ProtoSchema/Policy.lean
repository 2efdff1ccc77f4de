/-!
# Reading policy

The choices that a reader of a schema leaves to its caller.
-/
namespace ProtoSchema

/-- When repeated field ids are looked for. -/
inductive IdCheck
  /-- As each field is added; the failure names the line of the declaration. -/
  | whileReading
  /-- Once after the last line; the failure names that line. -/
  | atEnd
  deriving DecidableEq, Repr

/-- What a schema without messages amounts to. -/
inductive EmptyInput
  | accept
  | reject
  deriving DecidableEq, Repr

structure Policy where
  idCheck : IdCheck := .whileReading
  emptyInput : EmptyInput := .accept
  deriving DecidableEq, Repr

end ProtoSchema
