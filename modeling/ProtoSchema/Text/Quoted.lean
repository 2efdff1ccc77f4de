/-!
# Quoted text

A text between double quotes, as JSON strings write it: the quote and the backslash are escaped,
control characters below U+0020 take their short escape or four hexadecimal digits, and every
other character stands for itself.
-/
namespace ProtoSchema.Text

/-- How one character is written between quotes. -/
def escape (c : Char) : List Char :=
  if c = '"' then ['\\', '"']
  else if c = '\\' then ['\\', '\\']
  else if c = '\x08' then ['\\', 'b']
  else if c = '\x0c' then ['\\', 'f']
  else if c = '\n' then ['\\', 'n']
  else if c = '\r' then ['\\', 'r']
  else if c = '\t' then ['\\', 't']
  else if c.toNat < 0x20 then
    ['\\', 'u', '0', '0', Nat.digitChar (c.toNat / 16), Nat.digitChar (c.toNat % 16)]
  else [c]

def quoted (cs : List Char) : List Char :=
  '"' :: (cs.flatMap escape ++ ['"'])

end ProtoSchema.Text
