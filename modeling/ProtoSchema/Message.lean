import ProtoSchema.FieldType
import ProtoSchema.Scope
import ProtoSchema.Text.Numeral

/-!
# Messages

The model that a schema describes: messages with their fields and nested enums. Names are looked up
in declaration order, so the first of two equal names is found.
-/
namespace ProtoSchema

/-- One label of an enum. -/
structure EnumValue where
  label : String
  value : Int32
  deriving DecidableEq, Repr

/-- An enum nested in a message. -/
structure EnumDef where
  name : String
  values : List EnumValue := []
  deriving DecidableEq, Repr

/-- The value of the first such label. -/
def EnumDef.value? (e : EnumDef) (label : String) : Option Int32 :=
  (e.values.find? (·.label = label)).map (·.value)

/-- A field of a message. -/
structure Field where
  id : UInt32
  name : String
  type : FieldType
  scope : Scope
  /-- The default literal, as written. -/
  default? : Option String := none
  /-- The line of the declaration, 0 for a field that no text declares. -/
  line : Nat := 0
  deriving DecidableEq, Repr

/-- The declaration of the field, as a line of a schema. -/
def Field.declaration (f : Field) : String :=
  f.scope.keyword ++ " " ++ f.type.token ++ " " ++ f.name ++ " = " ++
    Text.decimalText f.id.toNat ++
    (match f.default? with
      | some literal => " [default = " ++ literal ++ "]"
      | none => "") ++ ";"

/-- A message block of a schema. -/
structure Message where
  name : String := ""
  package? : Option String := none
  /-- The line on which the message starts, 0 for a message that no text declares. -/
  line : Nat := 0
  fields : List Field := []
  enums : List EnumDef := []
  deriving DecidableEq, Repr

namespace Message

/-- A message with nothing in it yet, in the given package. -/
def blank (package? : Option String) : Message :=
  { package? }

def field? (m : Message) (name : String) : Option Field :=
  m.fields.find? (·.name = name)

def fieldById? (m : Message) (id : UInt32) : Option Field :=
  m.fields.find? (·.id = id)

def enum? (m : Message) (name : String) : Option EnumDef :=
  m.enums.find? (·.name = name)

end Message

end ProtoSchema
