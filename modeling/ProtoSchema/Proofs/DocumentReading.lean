import ProtoSchema.Message.Document
import ProtoSchema.Proofs.JsonLayout

/-!
# Reading documents back

A message model is read from its JSON document. Values are looked up by their keys, so their order
is of no account. The package of a message is `null` if there is none, and a field without default
has no such key. A type is the keyword of a scalar, or an object that holds the name of a reference.

Results:
* `Message.ofJson?_toJson`: a message is read from its JSON value as it is;
* `documents_readBack`: so is a list of messages from its document, which is a JSON text, and from
  no other list comes the same document.
-/
namespace ProtoSchema

/-! ## Pieces of values -/

namespace Json

/-- The value of the first entry with this key. -/
def entry? (value : Json) (key : String) : Option Json :=
  match value with
  | .object entries => entries.lookup key
  | _ => none

def text? : Json → Option String
  | .string content => some content
  | _ => none

/-- A text, or nothing for `null`. -/
def nullableText? : Json → Option (Option String)
  | .null => some none
  | .string content => some (some content)
  | _ => none

/-- The text under a key that need not be there. -/
def optionalText? (value : Json) (key : String) : Option (Option String) :=
  match entry? value key with
  | none => some none
  | some content => content.text?.map some

def natural? : Json → Option Nat
  | .number (.ofNat n) => some n
  | _ => none

/-- A number from 0 to 4294967295. -/
def uint32? (value : Json) : Option UInt32 := do
  let n ← value.natural?
  if n < UInt32.size then some (UInt32.ofNat n) else none

/-- A number from -2147483648 to 2147483647. -/
def int32? : Json → Option Int32
  | .number i =>
    if Int32.minValue.toInt ≤ i ∧ i ≤ Int32.maxValue.toInt then some (Int32.ofInt i) else none
  | _ => none

/-- A list whose items are all read in the same way. -/
def list? {α : Type} (readItem : Json → Option α) : Json → Option (List α)
  | .array items => items.mapM readItem
  | _ => none

@[simp] theorem entry?_object (entries : List (String × Json)) (key : String) :
    entry? (.object entries) key = entries.lookup key := rfl

@[simp] theorem text?_string (content : String) : text? (.string content) = some content := rfl

@[simp] theorem natural?_number (n : Nat) : natural? (.number n) = some n := rfl

@[simp] theorem uint32?_toNat (n : UInt32) : uint32? (.number n.toNat) = some n := by
  have hn : n.toNat < UInt32.size := n.toNat_lt
  change (if n.toNat < UInt32.size then some (UInt32.ofNat n.toNat) else none) = some n
  rw [if_pos hn, UInt32.ofNat_toNat]

@[simp] theorem int32?_toInt (i : Int32) : int32? (.number i.toInt) = some i := by
  have hmin : Int32.minValue.toInt ≤ i.toInt := i.minValue_le_toInt
  have hmax : i.toInt ≤ Int32.maxValue.toInt := i.toInt_le
  rw [int32?, if_pos ⟨hmin, hmax⟩, Int32.ofInt_toInt]

theorem list?_map {α : Type} {readItem : Json → Option α} {write : α → Json}
    (h : ∀ a, readItem (write a) = some a) (items : List α) :
    list? readItem (.array (items.map write)) = some items := by
  change (items.map write).mapM readItem = some items
  induction items with
  | nil => rfl
  | cons a items ih => rw [List.map_cons, List.mapM_cons, h, ih]; rfl

end Json

/-! ## Messages -/

def FieldType.ofJson? : Json → Option FieldType
  | .string token => (ScalarType.ofKeyword? token).map .scalar
  | value => do return .reference (← (← Json.entry? value "reference").text?)

def Field.ofJson? (value : Json) : Option Field := do
  return {
    id := ← (← Json.entry? value "id").uint32?
    name := ← (← Json.entry? value "name").text?
    type := ← FieldType.ofJson? (← Json.entry? value "type")
    scope := ← Scope.ofKeyword? (← (← Json.entry? value "scope").text?)
    default? := ← Json.optionalText? value "default"
    line := ← (← Json.entry? value "line").natural? }

def EnumValue.ofJson? (value : Json) : Option EnumValue := do
  return {
    label := ← (← Json.entry? value "label").text?
    value := ← (← Json.entry? value "value").int32? }

def EnumDef.ofJson? (value : Json) : Option EnumDef := do
  return {
    name := ← (← Json.entry? value "name").text?
    values := ← Json.list? EnumValue.ofJson? (← Json.entry? value "values") }

def Message.ofJson? (value : Json) : Option Message := do
  return {
    name := ← (← Json.entry? value "name").text?
    package? := ← (← Json.entry? value "package").nullableText?
    line := ← (← Json.entry? value "line").natural?
    fields := ← Json.list? Field.ofJson? (← Json.entry? value "fields")
    enums := ← Json.list? EnumDef.ofJson? (← Json.entry? value "enums") }

/-- The messages of a document. -/
def Message.readDocument? (document : String) : Option (List Message) := do
  Json.list? Message.ofJson? (← Json.read? document)

@[simp] theorem FieldType.ofJson?_toJson (type : FieldType) : ofJson? type.toJson = some type := by
  cases type with
  | scalar type =>
    rw [toJson, ofJson?, ScalarType.ofKeyword?_keyword]
    rfl
  | reference name => rfl

/-- A reference may have the name of a scalar type. -/
example : FieldType.ofJson? (FieldType.reference "bool").toJson = some (.reference "bool") := rfl

theorem Field.ofJson?_toJson (f : Field) : ofJson? f.toJson = some f := by
  obtain ⟨id, name, type, scope, default?, line⟩ := f
  cases default? <;>
    simp [ofJson?, toJson, Json.optionalText?, List.lookup_cons, Scope.ofKeyword?_keyword]

theorem EnumValue.ofJson?_toJson (v : EnumValue) : ofJson? v.toJson = some v := by
  simp [ofJson?, toJson, List.lookup_cons]

theorem EnumDef.ofJson?_toJson (e : EnumDef) : ofJson? e.toJson = some e := by
  simp [ofJson?, toJson, List.lookup_cons, Json.list?_map EnumValue.ofJson?_toJson]

theorem Message.ofJson?_toJson (m : Message) : ofJson? m.toJson = some m := by
  obtain ⟨name, package?, line, fields, enums⟩ := m
  cases package? <;>
    simp [ofJson?, toJson, Json.nullableText?, List.lookup_cons, Json.list?_map Field.ofJson?_toJson,
      Json.list?_map EnumDef.ofJson?_toJson]

/-- Messages are read from each JSON text of their values, however it is laid out. -/
theorem Message.readDocument?_of_spelling {messages : List Message} {text : String}
    (h : Json.Spelling (Json.array (messages.map toJson)).tokens text.toList) :
    readDocument? text = some messages := by
  rw [readDocument?, Json.read?_eq_some.2 h]
  exact Json.list?_map ofJson?_toJson messages

/-- The document of every list of messages is a JSON text, and the messages are read from it just as
they are. So no two lists have the same document. -/
theorem documents_readBack :
    (∀ messages : List Message,
      Json.Spelling (Json.array (messages.map Message.toJson)).tokens
          (Message.document messages).toList ∧
        Message.readDocument? (Message.document messages) = some messages) ∧
    Function.Injective Message.document := by
  have hspelling : ∀ messages : List Message,
      Json.Spelling (Json.array (messages.map Message.toJson)).tokens
        (Message.document messages).toList := fun _ => Json.spelling_render _
  have hread : ∀ messages, Message.readDocument? (Message.document messages) = some messages :=
    fun messages => Message.readDocument?_of_spelling (hspelling messages)
  refine ⟨fun messages => ⟨hspelling messages, hread messages⟩, fun messages others h => ?_⟩
  exact Option.some.inj ((hread messages).symm.trans (h ▸ hread others))

end ProtoSchema
