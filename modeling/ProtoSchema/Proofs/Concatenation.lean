import ProtoSchema.Proofs.Relocation
import ProtoSchema.Proofs.SourceMap

/-!
# Texts behind texts

Behind a text that compiles, another text means what it means alone. Only two things cross over: the
number of lines, and the package, which the first text may have settled.

**The translation.** `Assembly.behind` puts an assembly behind some lines, a package and the
messages that these lines came to, with all of its lines further down (`behind_eq_relocated`). A line
does the same to it as to the assembly alone (`read_behind`), and so do all lines and the end of the
schema (`complete_behind`).

**The message under construction.** A finished message moves with its line (`Message.moved`). One
that has not started is on no line, and stays there (`Message.behind`).

Results:
* `read_behind`, `complete_behind`: every line and the end commute with the translation;
* `package?_readAll`: the package behind lines that do not fail;
* `compileText_append`: a text behind a text.
-/
namespace ProtoSchema

open Text

/-! ## Further down -/

def Field.moved (n : Nat) (f : Field) : Field :=
  { f with line := n + f.line }

/-- The message `n` lines further down, in a file that has this package if it has one. -/
def Message.moved (n : Nat) (package? : Option String) (m : Message) : Message :=
  { m with
    package? := package?.or m.package?
    line := n + m.line
    fields := m.fields.map (Field.moved n) }

def Failure.moved (n : Nat) (failure : Failure) : Failure :=
  { failure with line := n + failure.line }

/-- The package that a clause declares. -/
def Clause.package? : Clause → Option String
  | .package name => some name
  | _ => none

/-- The package of the first package line of a text. -/
def firstPackage? (text : String) : Option String :=
  (textClauses text).findSome? Clause.package?

/-- The moved message, unless it has not started. -/
def Message.behind (n : Nat) (package? : Option String) (m : Message) : Message :=
  { m.moved n package? with line := if m.line = 0 then 0 else n + m.line }

/-- The assembly as it is behind `n` lines with this package, if any, and these messages. -/
def Assembly.behind (n : Nat) (package? : Option String) (messages : List Message)
    (a : Assembly Nesting) : Assembly Nesting :=
  { state := a.state
    lineCount := n + a.lineCount
    current := a.current.behind n package?
    package? := package?.or a.package?
    finished := messages ++ a.finished.map (Message.behind n package?) }

variable {n : Nat} {package? : Option String}

theorem Message.behind_eq_moved {m : Message} (h : m.line ≠ 0) :
    m.behind n package? = m.moved n package? := by
  rw [behind, if_neg h]
  rfl

theorem Grammar.Takes.signal_package? {number : Nat} {nesting : Nesting} {m : Message}
    {clause : Clause} {accepted : Accepted} (h : Takes number nesting m clause accepted) :
    accepted.signal.package? = clause.package? := by
  cases h <;> rfl

namespace Assembly

variable {a : Assembly Nesting} {messages : List Message} {policy : Policy}

/-! ## Lines behind lines -/

theorem behind_eq_relocated (a : Assembly Nesting) :
    a.behind n package? messages =
      a.relocated (n + ·) (n + a.lineCount) package? messages := rfl

theorem read_behind (line : List Char) :
    ((a.behind n package? messages).read grammar policy line).failure? =
        (a.read grammar policy line).failure?.map (Failure.moved n) ∧
      ((a.behind n package? messages).read grammar policy line).next =
        (a.read grammar policy line).next.behind n package? messages := by
  have hcount : (a.read grammar policy line).next.lineCount = a.lineCount + 1 :=
    a.feed_lineCount (.text line)
  have hplace : n + (a.lineCount + 1) = n + a.lineCount + 1 := rfl
  rw [behind_eq_relocated, behind_eq_relocated, hcount]
  exact read_relocated hplace line

/-- What comes of an assembly behind `n` lines with this package, if any, and these messages. -/
def resultBehind (n : Nat) (package? : Option String) (messages : List Message) :
    Except Failure (List Message) → Except Failure (List Message)
  | .ok more => .ok (messages ++ more.map (Message.behind n package?))
  | .error failure => .error (failure.moved n)

variable {idCheck : IdCheck}

theorem finish_behind (hnone : Message.firstIdFault? messages = none) (hcount : a.lineCount ≠ 0) :
    ((a.behind n package? messages).finish grammar ⟨idCheck, .accept⟩).result =
      resultBehind n package? messages (a.finish grammar ⟨idCheck, .accept⟩).result := by
  have hend : (a.behind n package? messages).endFault? grammar ⟨idCheck, .accept⟩ =
      a.endFault? grammar ⟨idCheck, .accept⟩ :=
    endFault?_relocated hnone (.inr rfl)
  have hline : (a.behind n package? messages).lineNumber = n + a.lineNumber := by
    simp only [lineNumber, behind]
    omega
  cases hfault : a.endFault? grammar ⟨idCheck, .accept⟩ with
  | some fault =>
    rw [finish_of_endFault? hfault, finish_of_endFault? (hend.trans hfault), hline]
    rfl
  | none =>
    rw [finish_of_endFault?_eq_none hfault, finish_of_endFault?_eq_none (hend.trans hfault)]
    rfl

/-- The lines of a text and its end do behind other lines what they do alone. -/
theorem complete_behind (hnone : Message.firstIdFault? messages = none) (lines : List (List Char))
    (hcount : a.lineCount + lines.length ≠ 0) :
    ((a.behind n package? messages).complete grammar ⟨idCheck, .accept⟩ (lines.map some)).result =
      resultBehind n package? messages
        (a.complete grammar ⟨idCheck, .accept⟩ (lines.map some)).result := by
  induction lines generalizing a with
  | nil => exact finish_behind hnone hcount
  | cons line lines ih =>
    obtain ⟨hfailure, hnext⟩ := read_behind (a := a) line
    rw [List.map_cons, complete_cons, complete_cons, hfailure, hnext]
    cases (a.read grammar ⟨idCheck, .accept⟩ line).failure? with
    | some failure => rfl
    | none =>
      have hread : (a.read grammar ⟨idCheck, .accept⟩ line).next.lineCount = a.lineCount + 1 :=
        a.feed_lineCount (.text line)
      exact ih (by omega)

/-! ## Behind a text that compiles -/

theorem apply_package? (h : a.Linked) {line : List Char} (hline : line ≠ [])
    (happly : (a.apply grammar policy line).failure? = none) :
    (a.apply grammar policy line).next.package? =
      a.package?.or ((Clause.ofLine? (a.lineCount, line)).bind Clause.package?) := by
  rcases apply_cases policy a line with
    ⟨hnil, _, _⟩ | ⟨_, _, _, hfailure, _⟩ | ⟨_, clause, accepted, hsaid, htakes, _, hnext⟩
  · exact absurd hnil hline
  · cases hfailure.symm.trans happly
  · rw [hnext, h.accept_package? htakes, Clause.ofLine?_eq_some.2 hsaid, htakes.signal_package?]
    rfl

/-- Behind lines that do not fail the package is the first one that they declare, unless there was
one before. -/
theorem package?_readAll (h : a.Linked) {lines : List (List Char)}
    (hread : (a.readAll grammar policy (lines.map some)).failure? = none) :
    (a.readAll grammar policy (lines.map some)).next.package? =
      a.package?.or
        (((codeLines a.lineCount lines).filterMap Clause.ofLine?).findSome? Clause.package?) := by
  induction lines generalizing a with
  | nil => exact Option.or_none.symm
  | cons line lines ih =>
    obtain ⟨hline, hlines⟩ := readAll_cons_failure?_eq_none.1 hread
    have hlinked : (a.read grammar policy line).next.Linked := h.feed policy (.text line)
    have hcount : (a.read grammar policy line).next.lineCount = a.lineCount + 1 :=
      a.feed_lineCount (.text line)
    rw [List.map_cons, readAll_cons hline, Step.after]
    simp only
    rw [ih hlinked hlines, hcount, codeLines]
    by_cases hcode : code line = []
    · rw [if_pos hcode, read, hcode]
      rfl
    · have hpackage : (a.read grammar policy line).next.package? =
          a.package?.or ((Clause.ofLine? (a.lineCount + 1, code line)).bind Clause.package?) :=
        apply_package? (a := a.atLine (a.lineCount + 1)) (h.atLine _) hcode hline
      rw [if_neg hcode, hpackage, Option.or_assoc, List.filterMap_cons]
      cases Clause.ofLine? (a.lineCount + 1, code line) with
      | none => rfl
      | some clause =>
        simp only [Option.bind_some, List.findSome?_cons]
        cases clause.package? <;> rfl

/-- Behind a text that compiles all is as it was before it, further down. -/
theorem readAll_of_complete_eq_ok {lines : List (List Char)}
    (h : (start.complete grammar ⟨idCheck, .accept⟩ (lines.map some)).result = .ok messages) :
    (start.readAll grammar ⟨idCheck, .accept⟩ (lines.map some)).failure? = none ∧
      (start.readAll grammar ⟨idCheck, .accept⟩ (lines.map some)).next =
        start.behind lines.length
          (((codeLines 0 lines).filterMap Clause.ofLine?).findSome? Clause.package?) messages ∧
      Message.firstIdFault? messages = none := by
  obtain ⟨hread, hend, hfinished⟩ := complete_eq_ok.1 h
  obtain ⟨htop, hnone, _⟩ := finish_eq_ok.1 (finish_of_endFault?_eq_none hend)
  have hlinked : (start.readAll grammar ⟨idCheck, .accept⟩ (lines.map some)).next.Linked := by
    rw [(readAll_eq_feedAll hread).1]
    exact linked_start.feedAll _ _
  have hblank := hlinked.blank htop
  have hcount := readAll_lineCount hread
  have hpackage := package?_readAll linked_start hread
  refine ⟨hread, ?_, hfinished ▸ hnone⟩
  generalize (start.readAll grammar ⟨idCheck, .accept⟩ (lines.map some)).next = a at *
  obtain ⟨state, lineCount, current, package?, finished⟩ := a
  simp only at htop hblank hcount hpackage hfinished
  subst htop hblank hcount hpackage hfinished
  simp [behind, start, Message.behind, Message.moved, Message.blank]

end Assembly

theorem line_ne_zero_of_compileText {idCheck : IdCheck} {text : String} {messages : List Message}
    (h : (compileText ⟨idCheck, .accept⟩ text).result = .ok messages) :
    ∀ m ∈ messages, m.line ≠ 0 := by
  obtain ⟨items, hsays, rfl, _⟩ := exists_items_of_compileText h
  intro m hm
  obtain ⟨b, declared, hb, rfl⟩ := exists_block_of_mem hm
  have hstart : .messageStart b.name b.line ∈ items.flatMap Item.clauses :=
    List.mem_flatMap.2 ⟨.block b, hb, List.mem_cons_self⟩
  obtain ⟨line, _, hpos, _⟩ := exists_line_of_mem hsays hstart rfl
  exact Nat.ne_of_gt hpos

/-- A text behind a text that compiles and is empty or ends with a newline. Both together compile
exactly when the second one does alone, and fail as it does. The number of lines of the first text
is added to each line of the second, and the first package of the first text, if it has one, is that
of all messages of the second. -/
theorem compileText_append (idCheck : IdCheck) (text₁ text₂ : String) (messages₁ : List Message)
    (hend : text₁ = "" ∨ text₁.toList.getLast? = some '\n')
    (h : (compileText ⟨idCheck, .accept⟩ text₁).result = .ok messages₁) :
    (compileText ⟨idCheck, .accept⟩ (text₁ ++ text₂)).result =
      match (compileText ⟨idCheck, .accept⟩ text₂).result with
      | .ok messages₂ =>
        .ok (messages₁ ++ messages₂.map
          (Message.moved (textLines text₁.toList).length (firstPackage? text₁)))
      | .error failure => .error (failure.moved (textLines text₁.toList).length) := by
  have hlines : textLines (text₁ ++ text₂).toList =
      textLines text₁.toList ++ textLines text₂.toList := by
    rw [String.toList_append]
    exact textLines_append (hend.imp_left (congrArg String.toList)) _
  -- Before its first line an assembly is at line 1, which does not move with the others, so a text
  -- without lines is a case of its own.
  by_cases hempty : textLines text₂.toList = []
  · have hfirst : compileText ⟨idCheck, .accept⟩ (text₁ ++ text₂) =
        compileText ⟨idCheck, .accept⟩ text₁ := by
      rw [compileText, sourceLines, hlines, hempty, List.append_nil]
      rfl
    have hsecond : (compileText ⟨idCheck, .accept⟩ text₂).result = .ok [] := by
      rw [compileText, sourceLines, hempty]
      rfl
    rw [hfirst, hsecond, h]
    simp only [List.map_nil, List.append_nil]
  · have hcount : Assembly.start.lineCount + (textLines text₂.toList).length ≠ 0 := by
      simpa [Assembly.start] using hempty
    obtain ⟨hread, hnext, hnone⟩ := Assembly.readAll_of_complete_eq_ok h
    have hboth : (compileText ⟨idCheck, .accept⟩ (text₁ ++ text₂)).result =
        Assembly.resultBehind (textLines text₁.toList).length (firstPackage? text₁) messages₁
          (compileText ⟨idCheck, .accept⟩ text₂).result := by
      rw [compileText, sourceLines, hlines, List.map_append, Assembly.complete_append hread, hnext,
        Assembly.complete_behind hnone _ hcount]
      rfl
    rw [hboth]
    cases hsecond : (compileText ⟨idCheck, .accept⟩ text₂).result with
    | error failure => rfl
    | ok messages₂ =>
      -- All messages of a text have started, so they move with their lines.
      have hmoved : messages₂.map (Message.behind (textLines text₁.toList).length
            (firstPackage? text₁)) =
          messages₂.map (Message.moved (textLines text₁.toList).length (firstPackage? text₁)) :=
        List.map_congr_left fun m hm =>
          Message.behind_eq_moved (line_ne_zero_of_compileText hsecond m hm)
      simp only [Assembly.resultBehind, hmoved]

/-- A message behind a text with a package, and a line that is rejected behind it. -/
theorem compileText_append_runs :
    (compileText ⟨.whileReading, .accept⟩ ("package p;\nmessage A \x7b\n\x7d\n" ++
        "message B \x7b\nrequired int32 a = 1;\n\x7d")).result =
      .ok [{ name := "A", package? := some "p", line := 2 },
        { name := "B", package? := some "p", line := 4
          fields :=
            [{ id := 1, name := "a", type := .scalar .int32, scope := .required, line := 5 }] }] ∧
    (compileText ⟨.atEnd, .accept⟩ ("package p;\nmessage A \x7b\n\x7d\n" ++ "x")).result =
      .error ⟨4, .unrecognizedLine "\"x\"" .notAStatement⟩ := by
  refine ⟨?_, ?_⟩
  · rw [compileText_append .whileReading _ _ [{ name := "A", package? := some "p", line := 2 }]
      (.inr (by decide)) (by rfl)]
    rfl
  · rw [compileText_append .atEnd _ _ [{ name := "A", package? := some "p", line := 2 }]
      (.inr (by decide)) (by rfl)]
    rfl

end ProtoSchema
