import ProtoSchema.Text.Blank
import ProtoSchema.Text.DecimalDigit
import ProtoSchema.Text.Name

/-!
# Readers

A reader takes a piece off the front of a text or refuses. Every run of characters is taken as long
as it goes, so a reader never has a choice to come back to.
-/
namespace ProtoSchema.Text

/-- Takes a piece off the front of a text, or refuses. -/
abbrev Reader := StateT (List Char) Option

namespace Reader

/-- The longest run of characters of the class, which must be a text that `ok` accepts. -/
def run (cls : Char → Bool) (ok : List Char → Bool) : Reader (List Char) := fun cs =>
  if ok (cs.takeWhile cls) then some (cs.takeWhile cls, cs.dropWhile cls) else none

/-- Exactly this text. -/
def exactly (text : List Char) : Reader Unit := fun cs =>
  if text.isPrefixOf cs then some ((), cs.drop text.length) else none

/-- Exactly this keyword or punctuation. -/
def token (text : String) : Reader Unit :=
  exactly text.toList

/-- Any number of blanks. -/
def blanks : Reader Unit := fun cs =>
  some ((), trimStart cs)

/-- At least one blank. -/
def blanks1 : Reader Unit := fun cs =>
  if cs.head?.any isBlank then some ((), trimStart cs) else none

def identifier : Reader (List Char) :=
  run isNameChar isIdentifier

def dottedName : Reader (List Char) :=
  run isDottedChar isDottedName

def typeName : Reader (List Char) :=
  run isDottedChar isTypeName

def optionName : Reader (List Char) :=
  run isOptionChar isOptionName

/-- At least one decimal digit, of any script. -/
def digits : Reader (List Char) :=
  run isDecimalDigit (!·.isEmpty)

/-- A minus sign, or nothing. -/
def sign : Reader Bool := fun cs =>
  match cs with
  | '-' :: rest => some (true, rest)
  | _ => some (false, cs)

/-- Everything that is left. -/
def rest : Reader (List Char) := fun cs =>
  some (cs, [])

/-- What the reader makes of a whole text: nothing may be left over. -/
def whole? {α : Type} (reader : Reader α) (cs : List Char) : Option α :=
  match reader cs with
  | some (a, []) => some a
  | _ => none

/-! ## What readers take -/

/-- What a run takes and leaves is the text. -/
theorem append_of_run {cls : Char → Bool} {ok : List Char → Bool} {cs piece rest : List Char}
    (h : run cls ok cs = some (piece, rest)) :
    piece ++ rest = cs ∧ ok piece = true ∧ ∀ c ∈ piece, cls c = true := by
  unfold run at h
  split at h
  · next hok =>
    obtain ⟨rfl, rfl⟩ := Prod.mk.inj (Option.some.inj h)
    exact ⟨List.takeWhile_append_dropWhile, hok, fun c hc =>
      List.all_eq_true.1 List.all_takeWhile c hc⟩
  · cases h

theorem exactly_append (text rest : List Char) : exactly text (text ++ rest) = some ((), rest) := by
  simp [exactly, List.isPrefixOf_iff_prefix]

end Reader

end ProtoSchema.Text
