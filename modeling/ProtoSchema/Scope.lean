/-!
# Field scopes

The qualifier in front of every field declaration.
-/
namespace ProtoSchema

inductive Scope
  | required
  | optional
  | repeated
  deriving DecidableEq, Repr

namespace Scope

/-- Every scope, in the order in which the language lists them. -/
def all : List Scope := [.required, .optional, .repeated]

def keyword : Scope → String
  | .required => "required"
  | .optional => "optional"
  | .repeated => "repeated"

def ofKeyword? (token : String) : Option Scope :=
  all.find? (·.keyword = token)

/-- What is said of a token that is no scope. -/
def unknownMessage (token : String) : String :=
  "unknown field scope \"" ++ token ++ "\""

theorem mem_all (s : Scope) : s ∈ all := by
  cases s <;> decide

theorem ofKeyword?_keyword (s : Scope) : ofKeyword? s.keyword = some s := by
  cases s <;> decide

end Scope

end ProtoSchema
