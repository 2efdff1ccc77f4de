import ProtoSchema.Fault
import ProtoSchema.Message

/-!
# Field ids

No two fields of a message may have the same id. Messages are independent of each other, and the
values of enums are no ids. A fault names the later of the two fields.

There are two ways to look: `firstRepeat?` goes through all fields of a message once, and
`repeatedAt?` looks back from one field.
-/
namespace ProtoSchema

/-- The first field whose id is among `seen` or belongs to an earlier field. -/
def firstRepeat? (seen : List UInt32) : List Field → Option Field
  | [] => none
  | f :: fields => if f.id ∈ seen then some f else firstRepeat? (f.id :: seen) fields

namespace Message

def duplicateFault (m : Message) (f : Field) : Fault :=
  .duplicateFieldId m.name f.name f.id

/-- The field at this index, if an earlier field has its id. -/
def repeatedAt? (m : Message) (index : Nat) : Option Field :=
  m.fields[index]?.filter fun f => (m.fields.take index).any (·.id = f.id)

/-- The fault of the field at this index; none if there is no such field. -/
def idFaultAt? (m : Message) (index : Nat) : Option Fault :=
  (m.repeatedAt? index).map m.duplicateFault

/-- The fault of the first field that repeats an id. -/
def idFault? (m : Message) : Option Fault :=
  (firstRepeat? [] m.fields).map m.duplicateFault

/-- The first fault among the fields from this index on. -/
def idFaultFrom? (m : Message) (index : Nat) : Option Fault :=
  (List.range' index (m.fields.length - index)).findSome? m.idFaultAt?

/-- The fault of the first message that repeats an id. -/
def firstIdFault? (messages : List Message) : Option Fault :=
  messages.findSome? idFault?

end Message

end ProtoSchema
