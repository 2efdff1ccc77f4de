import ProtoSchema.Text.Blank

/-!
# Comments

The code of a line is what stands before its comment, without trailing blanks. A comment starts at
the first `//` that lies outside every literal. A literal is opened by a double or a single quote
and closed by the same character; inside it a backslash takes the next character with it. A literal
that is never closed reaches to the end of the line, so no comment follows it.
-/
namespace ProtoSchema.Text

/-- Where a scan of a line stands between two characters. -/
inductive Scan
  /-- Outside every literal. -/
  | outside
  /-- Inside the literal that `quote` opened. -/
  | literal (quote : Char)
  /-- Behind a backslash inside the literal that `quote` opened. -/
  | escape (quote : Char)
  deriving DecidableEq, Repr

/-- The scan after one more character. -/
def Scan.next : Scan → Char → Scan
  | .outside, c => if c = '"' ∨ c = '\'' then .literal c else .outside
  | .literal quote, c =>
    if c = '\\' then .escape quote else if c = quote then .outside else .literal quote
  | .escape quote, _ => .literal quote

/-- The characters that start a comment. -/
def commentMarker : List Char := ['/', '/']

/-- What stands before the first comment marker that the scan meets outside every literal. -/
def beforeComment : Scan → List Char → List Char
  | _, [] => []
  | scan, c :: cs =>
    if scan = .outside ∧ commentMarker.isPrefixOf (c :: cs) then []
    else c :: beforeComment (scan.next c) cs

/-- The code of a line: no comment and no trailing blank. -/
def code (line : List Char) : List Char :=
  trimEnd (beforeComment .outside line)

/-- Code and comment together are the line. -/
theorem beforeComment_isPrefix (scan : Scan) (cs : List Char) :
    beforeComment scan cs <+: cs := by
  induction cs generalizing scan with
  | nil => exact List.prefix_refl _
  | cons c cs ih =>
    rw [beforeComment]
    split
    · exact List.nil_prefix
    · exact List.cons_prefix_cons.2 ⟨rfl, ih _⟩

end ProtoSchema.Text
