import ProtoSchema.FieldType
import ProtoSchema.Fault
import ProtoSchema.Scope
import ProtoSchema.Text.Reader
import ProtoSchema.Text.Word

/-!
# Statements

A line of a schema holds one statement, and `Statement.ofLine` tells which. There is one reader per
kind of statement; the end of the line has to follow. Numbers stay numerals here: whether they are
in range matters only where the statement is allowed.

A default or the value of an option is a free literal: it reaches up to the last closing bracket or
semicolon of the line, less the blanks around it.
-/
namespace ProtoSchema

open Text Text.Reader

/-- A field declaration as it stands on a line. -/
structure FieldDecl where
  scope : Scope
  type : FieldType
  name : String
  /-- The numeral of the id: decimal digits of any script. -/
  digits : List Char
  default? : Option String
  deriving DecidableEq, Repr

inductive Statement
  /-- The closing brace of a message or enum. -/
  | blockEnd
  | package (name : String)
  | messageStart (name : String)
  | enumStart (name : String)
  | field (decl : FieldDecl)
  /-- A label with the numeral of its value. -/
  | enumValue (label : String) (negative : Bool) (digits : List Char)
  | option (name value : String)
  deriving DecidableEq, Repr

/-- The text without the character at its end, which must be this one. -/
def dropEnd? (c : Char) (cs : List Char) : Option (List Char) :=
  if cs.getLast? = some c then some cs.dropLast else none

/-- The literal that stands between two delimiters: what is left without the outer blanks, as long
as it has no line end. Of nothing but blanks the last one that ends no line is the literal. -/
def literal? (cs : List Char) : Option (List Char) :=
  if trim cs = [] then (cs.filter (· ≠ '\n')).getLast?.map ([·])
  else if '\n' ∈ trim cs then none
  else some (trim cs)

namespace Statement

def blockEnd? : Reader Statement := do
  blanks
  token "\x7d"
  return .blockEnd

def package? : Reader Statement := do
  blanks
  token "package"
  blanks1
  let name ← dottedName
  blanks
  token ";"
  return .package (String.ofList name)

def messageStart? : Reader Statement := do
  blanks
  token "message"
  blanks1
  let name ← identifier
  blanks
  token "\x7b"
  return .messageStart (String.ofList name)

def enumStart? : Reader Statement := do
  blanks
  token "enum"
  blanks1
  let name ← identifier
  blanks
  token "\x7b"
  return .enumStart (String.ofList name)

/-- The keyword of a scope. -/
def scope? : Reader Scope := fun cs =>
  Scope.all.findSome? fun s => (token s.keyword cs).map fun (_, cs') => (s, cs')

/-- A default in brackets and the semicolon behind it, up to the end of the line. -/
def default? : Reader (List Char) := do
  token "["
  blanks
  token "default"
  blanks
  token "="
  let bracketed ← dropEnd? ';' (← rest)
  let inner ← dropEnd? ']' (trimEnd bracketed)
  literal? inner

/-- What follows the id of a field: a semicolon alone, or behind a default. -/
def fieldEnd? : Reader (Option (List Char)) := fun cs =>
  if cs = [';'] then some (none, []) else (some <$> default?) cs

def field? : Reader Statement := do
  blanks
  let scope ← scope?
  blanks1
  let type ← typeName
  blanks1
  let name ← identifier
  blanks
  token "="
  blanks
  let digits ← digits
  blanks
  let literal? ← fieldEnd?
  return .field
    { scope
      type := FieldType.ofToken (String.ofList type)
      name := String.ofList name
      digits
      default? := literal?.map String.ofList }

def enumValue? : Reader Statement := do
  blanks
  let label ← identifier
  blanks
  token "="
  blanks
  let negative ← sign
  let digits ← digits
  blanks
  token ";"
  return .enumValue (String.ofList label) negative digits

def option? : Reader Statement := do
  blanks
  token "option"
  blanks1
  let name ← optionName
  blanks
  token "="
  let inner ← dropEnd? ';' (← rest)
  return .option (String.ofList name) (String.ofList (← literal? inner))

/-- The line starts with the keyword of a scope, as a word of its own. -/
def startsLikeField (line : List Char) : Bool :=
  match (do blanks; scope? : Reader Scope) line with
  | some (_, rest) => atWordEnd rest
  | none => false

/-- The statement on a line, or why there is none. A line that starts like a field is never an enum
value, even though a label may be spelled like a scope. -/
def ofLine (line : List Char) : Except Reason Statement :=
  match [blockEnd?, package?, messageStart?, enumStart?, field?].findSome? (·.whole? line) with
  | some statement => .ok statement
  | none =>
    if startsLikeField line then .error .malformedField
    else
      match [enumValue?, option?].findSome? (·.whole? line) with
      | some statement => .ok statement
      | none => .error .notAStatement

end Statement

end ProtoSchema
