import ProtoSchema.LineRules
import ProtoSchema.Statement

/-!
# The grammar of schemas

A schema holds messages, a message holds fields and enums, and an enum holds values. Package and
option lines may stand anywhere but in an enum. `Grammar.step` says what each statement does at
each depth; a rejected line changes nothing.
-/
namespace ProtoSchema

/-- The blocks that are open. -/
inductive Nesting
  | topLevel
  | inMessage
  | inEnum
  deriving DecidableEq, Repr

namespace Grammar

/-- What an accepted line leads to. -/
structure Accepted where
  nesting : Nesting
  current : Message
  signal : Signal := {}
  events : List Event := []

/-- The id that a numeral denotes: a positive 32-bit number in ASCII digits. -/
def fieldId (digits : List Char) : Except Reason UInt32 :=
  match Text.natOfDigits? digits with
  | none => .error .fieldIdOutOfRange
  | some n =>
    if n = 0 then .error .fieldIdNotPositive
    else if n < UInt32.size then .ok (UInt32.ofNat n)
    else .error .fieldIdOutOfRange

/-- The value that a numeral denotes: a signed 32-bit number in ASCII digits. -/
def enumNumber (negative : Bool) (digits : List Char) : Except Reason Int32 :=
  match Text.natOfDigits? digits with
  | none => .error .enumValueOutOfRange
  | some n =>
    let i : Int := if negative then -n else n
    if Int32.minValue.toInt ≤ i ∧ i ≤ Int32.maxValue.toInt then .ok (Int32.ofInt i)
    else .error .enumValueOutOfRange

/-- The field that a declaration adds to a message. -/
def declared (decl : FieldDecl) (line : Nat) : Except Reason Field := do
  let id ← fieldId decl.digits
  return {
    id
    name := decl.name
    type := decl.type
    scope := decl.scope
    default? := decl.default?
    line }

/-- The enums with one more value in the last of them. -/
def addValue? (enums : List EnumDef) (value : EnumValue) : Option (List EnumDef) :=
  enums.getLast?.map fun e => enums.dropLast ++ [{ e with values := e.values ++ [value] }]

/-- The reason by which a whole line is rejected. -/
def orReject (line : List Char) {α : Type} : Except Reason α → Except Fault α
  | .ok a => .ok a
  | .error reason => .error (.rejected line reason)

/-- A message starts at top level only. -/
def startMessage (nesting : Nesting) (name : String) (lineNumber : Nat) (current : Message) :
    Except Fault Accepted :=
  match nesting with
  | .topLevel => .ok
    { nesting := .inMessage
      current := { current with name, line := lineNumber }
      events := [.messageStarted name lineNumber] }
  | .inMessage | .inEnum => .error (.rejected name.toList .messageInsideBlock)

/-- An enum starts in a message only. -/
def startEnum (nesting : Nesting) (name : String) (current : Message) : Except Fault Accepted :=
  match nesting with
  | .inMessage => .ok
    { nesting := .inEnum
      current := { current with enums := current.enums ++ [{ name }] }
      events := [.enumStarted name current.name] }
  | .inEnum => .error (.rejected name.toList .enumInsideEnum)
  | .topLevel => .error (.rejected name.toList .enumOutsideMessage)

/-- A closing brace ends the innermost block. -/
def endBlock (nesting : Nesting) (current : Message) : Except Fault Accepted :=
  match nesting with
  | .inEnum => .ok { nesting := .inMessage, current }
  | .inMessage => .ok
    { nesting := .topLevel
      current
      signal := { closed := true }
      events := [.messageEnded current.name current.fields.length] }
  | .topLevel => .error (.rejected ['\x7d'] .strayClosingBrace)

def declarePackage (nesting : Nesting) (name : String) (lineNumber : Nat) (current : Message) :
    Except Reason Accepted :=
  if nesting = .inEnum then .error .packageInsideEnum
  else .ok
    { nesting
      current
      signal := { package? := some name }
      events := [.packageDeclared name lineNumber] }

def addField (nesting : Nesting) (decl : FieldDecl) (lineNumber : Nat) (current : Message) :
    Except Reason Accepted :=
  if nesting ≠ .inMessage then .error .fieldOutsideMessage
  else do
    let field ← declared decl lineNumber
    return { nesting, current := { current with fields := current.fields ++ [field] } }

def addEnumValue (nesting : Nesting) (label : String) (negative : Bool) (digits : List Char)
    (current : Message) : Except Reason Accepted :=
  if nesting ≠ .inEnum then .error .enumValueOutsideEnum
  else do
    let value ← enumNumber negative digits
    match addValue? current.enums { label, value } with
    | some enums => return { nesting, current := { current with enums } }
    | none => throw .enumValueOutsideEnum

/-- Options are checked for their place and then ignored. -/
def ignoreOption (nesting : Nesting) (name value : String) (lineNumber : Nat) (current : Message) :
    Except Reason Accepted :=
  if nesting = .inEnum then .error .optionInsideEnum
  else .ok { nesting, current, events := [.optionIgnored name value lineNumber] }

/-- What a line does. A misplaced block is rejected by its name, anything else by the whole line. -/
def step (nesting : Nesting) (line : List Char) (lineNumber : Nat) (current : Message) :
    Except Fault Accepted :=
  match Statement.ofLine line with
  | .error reason => .error (.rejected line reason)
  | .ok .blockEnd => endBlock nesting current
  | .ok (.messageStart name) => startMessage nesting name lineNumber current
  | .ok (.enumStart name) => startEnum nesting name current
  | .ok (.package name) => orReject line (declarePackage nesting name lineNumber current)
  | .ok (.field decl) => orReject line (addField nesting decl lineNumber current)
  | .ok (.enumValue label negative digits) =>
    orReject line (addEnumValue nesting label negative digits current)
  | .ok (.option name value) => orReject line (ignoreOption nesting name value lineNumber current)

end Grammar

/-- The grammar as line rules: the state is the nesting. -/
def grammar : LineRules Nesting where
  apply nesting line lineNumber current :=
    match Grammar.step nesting line lineNumber current with
    | .ok a =>
      { state := a.nesting, current := a.current, result := .ok a.signal, events := a.events }
    | .error fault => { state := nesting, current, result := .error fault }
  isClosed nesting := nesting = .topLevel

end ProtoSchema
