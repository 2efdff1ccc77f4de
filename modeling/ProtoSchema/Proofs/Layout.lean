import Mathlib.Data.List.Forall2
import ProtoSchema.Compile
import ProtoSchema.Proofs.Comments
import ProtoSchema.Proofs.Written

/-!
# Layout

The layout of a text does not matter: the indentation of its lines, the blanks at their ends, whether
a line ends with a newline or with a carriage return and a newline, and whether the last line has a
line end at all. Line for line, what counts is the code without its leading blanks.

**Lines.** Every statement is read behind leading blanks, and a rejected line is shown without them,
so two lines of the same code are the same to the grammar (`step_congr`) and to an assembly
(`read_congr`), whatever was read before.

**Texts.** `Relaid` lists the ways in which a text may be laid out anew. Both texts have the same
number of lines then, and their codes are the same line for line (`Relaid.sameCode`).

Results:
* `code_append_allBlank`, `trimStart_code_append`: blanks at the ends of a line;
* `ofLine_congr`, `step_congr`, `read_congr`, `readAll_congr`: lines of the same code;
* `exists_textLines_line`: a line and its end;
* `compileText_congr`: texts of the same code compile alike.
-/
namespace ProtoSchema

open Text Text.Reader

/-! ## Blanks around a line -/

namespace Text

theorem code_append_allBlank {w : List Char} (hw : AllBlank w) (line : List Char) :
    code (line ++ w) = code line := by
  rw [code, code]
  by_cases hcomment : beforeComment .outside line = line
  · have hslash : '/' ∉ w := fun hmem => (hw.plain '/' hmem).2.2 rfl
    rw [beforeComment_append hcomment hslash, hcomment, trimEnd_append_allBlank hw]
  · rw [beforeComment_append_of_ne hcomment]

theorem trimStart_code_append {w : List Char} (hw : AllBlank w) (line : List Char) :
    trimStart (code (w ++ line)) = trimStart (code line) := by
  rw [code, code, beforeComment_plain_append hw.plain, trimStart_trimEnd, trimStart_trimEnd, trim,
    trim, trimStart_append_allBlank hw]

theorem trimStart_code_eq_nil {line : List Char} : trimStart (code line) = [] ↔ code line = [] := by
  refine ⟨fun h => ?_, fun h => by rw [h]; rfl⟩
  rw [code, trimStart_trimEnd] at h
  exact trimEnd_of_allBlank (allBlank_of_trim_eq_nil h)

end Text

/-! ## Lines of the same code -/

/-- A reader that starts with blanks reads the same without them. -/
theorem Text.Reader.blanks_bind_trimStart {α : Type} (f : Unit → Reader α) (cs : List Char) :
    (blanks >>= f) (trimStart cs) = (blanks >>= f) cs := by
  simp only [bind, StateT.bind, blanks, trimStart_trimStart]

namespace Statement

theorem reader_trimStart (k : Kind) (line : List Char) :
    k.reader (trimStart line) = k.reader line := by
  cases k <;> exact blanks_bind_trimStart _ line

theorem startsLikeField_trimStart (line : List Char) :
    startsLikeField (trimStart line) = startsLikeField line := by
  rw [startsLikeField, startsLikeField, blanks_bind_trimStart]

theorem ofLine_trimStart (line : List Char) : ofLine (trimStart line) = ofLine line := by
  have hfind (kinds : List Kind) : kinds.findSome? (·.reader.whole? (trimStart line)) =
      kinds.findSome? (·.reader.whole? line) := by
    simp only [whole?, reader_trimStart]
  have hearly : [blockEnd?, package?, messageStart?, enumStart?, field?].findSome?
      (·.whole? (trimStart line)) = _ :=
    hfind [.blockEnd, .package, .messageStart, .enumStart, .field]
  have hlate : [enumValue?, option?].findSome? (·.whole? (trimStart line)) = _ :=
    hfind [.enumValue, .option]
  rw [ofLine, hearly, hlate, startsLikeField_trimStart]
  rfl

theorem ofLine_congr {line₁ line₂ : List Char} (h : trimStart line₁ = trimStart line₂) :
    ofLine line₁ = ofLine line₂ := by
  rw [← ofLine_trimStart line₁, h, ofLine_trimStart]

end Statement

theorem Fault.rejected_congr {text₁ text₂ : List Char} (h : trimStart text₁ = trimStart text₂)
    (reason : Reason) : Fault.rejected text₁ reason = .rejected text₂ reason := by
  rw [Fault.rejected, Fault.rejected, shown, shown, trim, trim, h]

namespace Grammar

theorem orReject_congr {α : Type} {line₁ line₂ : List Char} (h : trimStart line₁ = trimStart line₂)
    (x : Except Reason α) : orReject line₁ x = orReject line₂ x := by
  cases x with
  | ok a => rfl
  | error reason => exact congrArg Except.error (Fault.rejected_congr h reason)

/-- Without their leading blanks, the same line does the same or is rejected alike. -/
theorem step_congr {line₁ line₂ : List Char} (h : trimStart line₁ = trimStart line₂)
    (nesting : Nesting) (n : Nat) (m : Message) :
    step nesting line₁ n m = step nesting line₂ n m := by
  unfold step
  rw [Statement.ofLine_congr h]
  simp only [Fault.rejected_congr h, orReject_congr h]

end Grammar

namespace Assembly

variable {policy : Policy}

theorem read_congr {line₁ line₂ : List Char} (h : trimStart (code line₁) = trimStart (code line₂))
    (a : Assembly Nesting) : a.read grammar policy line₁ = a.read grammar policy line₂ := by
  rw [read, read, apply, apply]
  by_cases hline : code line₁ = []
  · rw [if_pos hline, if_pos (trimStart_code_eq_nil.1 (h ▸ trimStart_code_eq_nil.2 hline))]
  · rw [if_neg hline,
      if_neg fun hnil => hline (trimStart_code_eq_nil.1 (h ▸ trimStart_code_eq_nil.2 hnil))]
    simp only [grammar, Grammar.step_congr h]

theorem readAll_congr {lines₁ lines₂ : List (List Char)}
    (h : List.Forall₂ (fun line₁ line₂ => trimStart (code line₁) = trimStart (code line₂))
      lines₁ lines₂) (a : Assembly Nesting) :
    a.readAll grammar policy (lines₁.map some) = a.readAll grammar policy (lines₂.map some) := by
  induction h generalizing a with
  | nil => rfl
  | cons hline _ ih => simp only [List.map_cons, readAll, read_congr hline, ih]

end Assembly

/-! ## Texts laid out anew -/

/-- The ways in which a line ends. -/
inductive LineEnd : List Char → Prop
  | newline : LineEnd "\n".toList
  | returnNewline : LineEnd "\r\n".toList

/-- Two lines that differ at most in the blanks at their ends. -/
inductive Reindented : List Char → List Char → Prop
  | intro {u v u' v' middle : List Char} : AllBlank u → AllBlank v → AllBlank u' → AllBlank v' →
      '\n' ∉ u ++ middle ++ v → '\n' ∉ u' ++ middle ++ v' →
      Reindented (u ++ middle ++ v) (u' ++ middle ++ v')

/-- Two texts that differ at most in the blanks at the ends of their lines and in their line ends.
The last line may have none, as long as there is something on it. -/
inductive Relaid : List Char → List Char → Prop
  | nil : Relaid [] []
  | line {line line' lineEnd lineEnd' rest rest' : List Char} : Reindented line line' →
      LineEnd lineEnd → LineEnd lineEnd' → Relaid rest rest' →
      Relaid (line ++ lineEnd ++ rest) (line' ++ lineEnd' ++ rest')
  | last {line line' lineEnd lineEnd' : List Char} : Reindented line line' →
      (LineEnd lineEnd ∨ lineEnd = [] ∧ line ≠ []) →
      (LineEnd lineEnd' ∨ lineEnd' = [] ∧ line' ≠ []) →
      Relaid (line ++ lineEnd) (line' ++ lineEnd')

theorem Reindented.sameCode {line line' : List Char} (h : Reindented line line') :
    trimStart (code line) = trimStart (code line') := by
  cases h with
  | intro hu hv hu' hv' _ _ =>
    rw [code_append_allBlank hv, code_append_allBlank hv', trimStart_code_append hu,
      trimStart_code_append hu']

theorem Reindented.oneLine {line line' : List Char} (h : Reindented line line') :
    '\n' ∉ line ∧ '\n' ∉ line' := by
  cases h with
  | intro _ _ _ _ hline hline' => exact ⟨hline, hline'⟩

/-- A line is cut off at its end. It may lose a carriage return, which is a blank. -/
theorem exists_textLines_line {line lineEnd : List Char} (hline : '\n' ∉ line)
    (hend : LineEnd lineEnd) (rest : List Char) :
    ∃ line', textLines (line ++ lineEnd ++ rest) = line' :: textLines rest ∧
      code line' = code line := by
  have hreturn (front : List Char) (hfront : '\n' ∉ front) :
      textLines (front ++ "\r\n".toList ++ rest) = front :: textLines rest := by
    rw [List.append_assoc]
    exact splitLines_append_ret_newline (by decide) hfront rest
  cases hend with
  | returnNewline => exact ⟨line, hreturn line hline, rfl⟩
  | newline =>
    by_cases hlast : line.getLast? = some '\r'
    · obtain ⟨front, rfl⟩ := List.getLast?_eq_some_iff.1 hlast
      have hblank : AllBlank ['\r'] := allBlank_cons.2 ⟨by decide, allBlank_nil⟩
      refine ⟨front, ?_, (code_append_allBlank hblank front).symm⟩
      rw [List.append_assoc front]
      exact hreturn front fun hmem => hline (List.mem_append_left _ hmem)
    · refine ⟨line, ?_, rfl⟩
      rw [List.append_assoc]
      exact splitLines_append_newline hline hlast rest

/-- The last line of a text, with or without its end. -/
theorem exists_textLines_last {line lineEnd : List Char} (hline : '\n' ∉ line)
    (hend : LineEnd lineEnd ∨ lineEnd = [] ∧ line ≠ []) :
    ∃ line', textLines (line ++ lineEnd) = [line'] ∧ code line' = code line := by
  rcases hend with hend | ⟨rfl, hne⟩
  · obtain ⟨line', hlines, hcode⟩ := exists_textLines_line hline hend []
    rw [List.append_nil] at hlines
    exact ⟨line', hlines, hcode⟩
  · rw [List.append_nil]
    exact ⟨line, splitLines_of_not_mem hline hne, rfl⟩

theorem Relaid.sameCode {text₁ text₂ : List Char} (h : Relaid text₁ text₂) :
    List.Forall₂ (fun line₁ line₂ => trimStart (code line₁) = trimStart (code line₂))
      (textLines text₁) (textLines text₂) := by
  induction h with
  | nil => exact .nil
  | @line line line' lineEnd lineEnd' rest rest' hline hend hend' _ ih =>
    obtain ⟨line₁, hlines₁, hcode₁⟩ := exists_textLines_line hline.oneLine.1 hend rest
    obtain ⟨line₂, hlines₂, hcode₂⟩ := exists_textLines_line hline.oneLine.2 hend' rest'
    rw [hlines₁, hlines₂]
    exact .cons (by rw [hcode₁, hcode₂, hline.sameCode]) ih
  | last hline hend hend' =>
    obtain ⟨line₁, hlines₁, hcode₁⟩ := exists_textLines_last hline.oneLine.1 hend
    obtain ⟨line₂, hlines₂, hcode₂⟩ := exists_textLines_last hline.oneLine.2 hend'
    rw [hlines₁, hlines₂]
    exact .cons (by rw [hcode₁, hcode₂, hline.sameCode]) .nil

theorem compileText_of_sameCode (policy : Policy) {text₁ text₂ : String}
    (h : List.Forall₂ (fun line₁ line₂ => trimStart (code line₁) = trimStart (code line₂))
      (textLines text₁.toList) (textLines text₂.toList)) :
    compileText policy text₁ = compileText policy text₂ := by
  simp only [compileText, sourceLines, Assembly.complete, Assembly.readAll_congr h]

/-- Two texts whose codes are the same line for line, leading blanks aside, compile alike: to the same
messages on the same lines, or with the same failure, and with the same events. So does a text that
is laid out anew: indented otherwise, with other blanks at the ends of its lines, with other line
ends, or with or without the end of its last line. -/
theorem compileText_congr (policy : Policy) (text₁ text₂ : String) :
    (List.Forall₂ (fun line₁ line₂ => trimStart (code line₁) = trimStart (code line₂))
        (textLines text₁.toList) (textLines text₂.toList) →
      compileText policy text₁ = compileText policy text₂) ∧
    (Relaid text₁.toList text₂.toList →
      compileText policy text₁ = compileText policy text₂) :=
  ⟨compileText_of_sameCode policy, fun h => compileText_of_sameCode policy h.sameCode⟩

/-- A comment that goes, and a text with other line ends, indented by a no-break space, without the
newline at its end. -/
theorem compileText_congr_runs :
    compileText {} "message A \x7b // first\n  x" = compileText {} "\tmessage A \x7b\r\nx\r" ∧
    compileText {} "message A \x7b\n\n\x7d\n" =
      compileText {} "\u00a0message A \x7b \r\n\t\r\n\u3000\x7d" := by
  have hblank : ∀ {w : List Char}, w.all isBlank = true → AllBlank w :=
    fun h c hc => List.all_eq_true.1 h c hc
  refine ⟨(compileText_congr {} _ _).1 (.cons (by rfl) (.cons (by rfl) .nil)),
    (compileText_congr {} _ _).2 ?_⟩
  have hfirst : Reindented "message A \x7b".toList "\u00a0message A \x7b ".toList :=
    @Reindented.intro [] [] ['\u00a0'] [' '] "message A \x7b".toList allBlank_nil allBlank_nil
      (hblank (by decide)) (hblank (by decide)) (by decide) (by decide)
  have hsecond : Reindented [] ['\t'] :=
    @Reindented.intro [] [] ['\t'] [] [] allBlank_nil allBlank_nil (hblank (by decide)) allBlank_nil
      (by decide) (by decide)
  have hthird : Reindented ['\x7d'] ['\u3000', '\x7d'] :=
    @Reindented.intro [] [] ['\u3000'] [] ['\x7d'] allBlank_nil allBlank_nil (hblank (by decide))
      allBlank_nil (by decide) (by decide)
  exact .line hfirst .newline .returnNewline (.line hsecond .newline .returnNewline
    (.last hthird (.inl .newline) (.inr ⟨rfl, nofun⟩)))

end ProtoSchema
