/-!
# Field types

A field has one of the scalar types or refers to a message or enum by name. References are kept as
written and not resolved.
-/
namespace ProtoSchema

inductive ScalarType
  | double
  | float
  | int32
  | int64
  | uint32
  | uint64
  | sint32
  | sint64
  | fixed32
  | fixed64
  | sfixed32
  | sfixed64
  | bool
  | string
  | bytes
  deriving DecidableEq, Repr

namespace ScalarType

/-- Every scalar type, in the order in which the language lists them. -/
def all : List ScalarType :=
  [.double, .float, .int32, .int64, .uint32, .uint64, .sint32, .sint64, .fixed32, .fixed64,
    .sfixed32, .sfixed64, .bool, .string, .bytes]

def keyword : ScalarType → String
  | .double => "double"
  | .float => "float"
  | .int32 => "int32"
  | .int64 => "int64"
  | .uint32 => "uint32"
  | .uint64 => "uint64"
  | .sint32 => "sint32"
  | .sint64 => "sint64"
  | .fixed32 => "fixed32"
  | .fixed64 => "fixed64"
  | .sfixed32 => "sfixed32"
  | .sfixed64 => "sfixed64"
  | .bool => "bool"
  | .string => "string"
  | .bytes => "bytes"

def ofKeyword? (token : String) : Option ScalarType :=
  all.find? (·.keyword = token)

theorem ofKeyword?_keyword (t : ScalarType) : ofKeyword? t.keyword = some t := by
  cases t <;> decide

end ScalarType

/-- The declared type of a field. -/
inductive FieldType
  | scalar (type : ScalarType)
  /-- A message or enum, by the name that the schema uses for it. -/
  | reference (name : String)
  deriving DecidableEq, Repr

namespace FieldType

/-- Every token names a type: one that is no scalar keyword is a reference. -/
def ofToken (token : String) : FieldType :=
  match ScalarType.ofKeyword? token with
  | some type => .scalar type
  | none => .reference token

/-- How the type is written in a schema. -/
def token : FieldType → String
  | .scalar type => type.keyword
  | .reference name => name

def isScalar : FieldType → Bool
  | .scalar _ => true
  | .reference _ => false

/-- The type of a token is written as that token. -/
theorem token_ofToken (token : String) : (ofToken token).token = token := by
  unfold ofToken
  split
  · next type h => simpa [FieldType.token] using List.find?_some h
  · rfl

end FieldType

end ProtoSchema
