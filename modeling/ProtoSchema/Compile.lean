import ProtoSchema.Assembly
import ProtoSchema.Grammar
import ProtoSchema.Text.Lines

/-!
# Compiling schemas

A schema is compiled from text or from bytes. Bytes are cut into lines first and each line is
decoded by itself, so what stands before a line that is not valid UTF-8 is still read.
-/
namespace ProtoSchema

/-- The lines of a text, all of which are readable. -/
def sourceLines (text : List Char) : List (Option (List Char)) :=
  (Text.textLines text).map some

/-- The characters that bytes encode in UTF-8. -/
def decode? (bytes : List UInt8) : Option (List Char) :=
  (String.fromUTF8? ⟨bytes.toArray⟩).map String.toList

/-- The lines of bytes, decoded one by one. -/
def decodedLines (bytes : ByteArray) : List (Option (List Char)) :=
  (Text.byteLines bytes.data.toList).map decode?

/-- The assembly of a schema before its first line. -/
def Assembly.start : Assembly Nesting :=
  { state := .topLevel }

def compileText (policy : Policy) (text : String) : Report Failure (List Message) :=
  Assembly.start.complete grammar policy (sourceLines text.toList)

def compileBytes (policy : Policy) (bytes : ByteArray) : Report Failure (List Message) :=
  Assembly.start.complete grammar policy (decodedLines bytes)

end ProtoSchema
