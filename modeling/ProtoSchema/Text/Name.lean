/-!
# Names

The shapes that names of the schema language take: identifiers, dotted names of packages, names of
types and names of options. All are ASCII.
-/
namespace ProtoSchema.Text

/-- May start an identifier. -/
def isNameStart (c : Char) : Bool :=
  c.isAlpha || c == '_'

/-- May stand in an identifier. -/
def isNameChar (c : Char) : Bool :=
  c.isAlphanum || c == '_'

/-- A letter or underscore, then letters, digits and underscores. -/
def isIdentifier : List Char → Bool
  | [] => false
  | c :: cs => isNameStart c && cs.all isNameChar

/-- May stand in a dotted name. -/
def isDottedChar (c : Char) : Bool :=
  isNameChar c || c == '.'

/-- The rest of a dotted name, `fresh` when an identifier has to start here. -/
def isDottedRest (fresh : Bool) : List Char → Bool
  | [] => !fresh
  | c :: cs =>
    if fresh then isNameStart c && isDottedRest false cs
    else if c = '.' then isDottedRest true cs
    else isNameChar c && isDottedRest false cs

/-- Identifiers joined by single dots. -/
def isDottedName (cs : List Char) : Bool :=
  isDottedRest true cs

/-- A dotted name, perhaps behind one leading dot. -/
def isTypeName : List Char → Bool
  | '.' :: cs => isDottedName cs
  | cs => isDottedName cs

/-- May start the name of an option. -/
def isOptionStart (c : Char) : Bool :=
  isNameStart c || c == '('

/-- May stand in the name of an option. -/
def isOptionChar (c : Char) : Bool :=
  isDottedChar c || c == '(' || c == ')'

/-- The name of an option, extensions in parentheses included. -/
def isOptionName : List Char → Bool
  | [] => false
  | c :: cs => isOptionStart c && cs.all isOptionChar

end ProtoSchema.Text
