import ProtoSchema.Text.Numeral
import ProtoSchema.Text.Quoted

/-!
# JSON documents

The part of JSON in which a message model is written, and its layout: one entry per line, two
blanks deeper per level, and an empty list or object on the line where it stands.
-/
namespace ProtoSchema

/-- A JSON value without fractions and booleans. The entries of an object keep their order. -/
inductive Json
  | null
  | number (value : Int)
  | string (text : String)
  | array (items : List Json)
  | object (entries : List (String × Json))

namespace Json

/-- A line end, then two blanks per level. -/
def newline (level : Nat) : List Char :=
  '\n' :: List.replicate (2 * level) ' '

/-- Pieces one per line between two brackets, for a value that stands at the given level. -/
def bracketed (opening closing : Char) (level : Nat) : List (List Char) → List Char
  | [] => [opening, closing]
  | piece :: pieces =>
    opening :: (newline (level + 1) ++ piece ++
      pieces.flatMap (fun p => ',' :: (newline (level + 1) ++ p)) ++ newline level ++ [closing])

mutual

/-- The text of a value that stands at the given level. -/
def layout (level : Nat) : Json → List Char
  | .null => ['n', 'u', 'l', 'l']
  | .number value => Text.signedDecimal value
  | .string text => Text.quoted text.toList
  | .array items => bracketed '[' ']' level (layoutItems (level + 1) items)
  | .object entries => bracketed '\x7b' '\x7d' level (layoutEntries (level + 1) entries)
termination_by structural value => value

/-- The texts of the items of a list. -/
def layoutItems (level : Nat) : List Json → List (List Char)
  | [] => []
  | item :: items => layout level item :: layoutItems level items
termination_by structural items => items

/-- The texts of the entries of an object. -/
def layoutEntries (level : Nat) : List (String × Json) → List (List Char)
  | [] => []
  | (key, value) :: entries =>
    (Text.quoted key.toList ++ [':', ' '] ++ layout level value) :: layoutEntries level entries
termination_by structural entries => entries

end

/-- The document of a value. -/
def render (value : Json) : String :=
  String.ofList (value.layout 0)

end Json

end ProtoSchema
