import ProtoSchema.Json
import ProtoSchema.Message

/-!
# The JSON document of a message model

Keys stand in a fixed order. A message without package has `null` there, and a field without default
has no such key. A scalar type is its keyword and a reference an object, so that the two never look
alike.
-/
namespace ProtoSchema

def FieldType.toJson : FieldType → Json
  | .scalar type => .string type.keyword
  | .reference name => .object [("reference", .string name)]

def Field.toJson (f : Field) : Json :=
  .object <|
    [("id", .number f.id.toNat), ("name", .string f.name), ("type", f.type.toJson),
      ("scope", .string f.scope.keyword)] ++
    (match f.default? with
      | some literal => [("default", .string literal)]
      | none => []) ++
    [("line", .number f.line)]

def EnumValue.toJson (v : EnumValue) : Json :=
  .object [("label", .string v.label), ("value", .number v.value.toInt)]

def EnumDef.toJson (e : EnumDef) : Json :=
  .object [("name", .string e.name), ("values", .array (e.values.map EnumValue.toJson))]

def Message.toJson (m : Message) : Json :=
  .object
    [("name", .string m.name),
      ("package", match m.package? with
        | some name => .string name
        | none => .null),
      ("line", .number m.line),
      ("fields", .array (m.fields.map Field.toJson)),
      ("enums", .array (m.enums.map EnumDef.toJson))]

/-- The document of a list of messages. -/
def Message.document (messages : List Message) : String :=
  (Json.array (messages.map Message.toJson)).render

end ProtoSchema
