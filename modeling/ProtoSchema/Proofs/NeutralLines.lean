import ProtoSchema.Proofs.Concatenation
import ProtoSchema.Proofs.FirstFailure

/-!
# Neutral lines

Lines without code may be added to a text anywhere. Up to its first failing line so may options, and
packages behind the first one, as long as no enum is open. The text still compiles to the same
messages or fails with the same fault. Only the line numbers change, and each of them follows its
line.

**Marked lines.** A text with added lines is a list of lines that are marked as kept or added, so
that the text before (`keptLines`) and the text behind the addition can be read off it. `position`
tells where a line went.

**The two runs.** Where the run over the kept lines stands on `a`, the run over all lines stands on
the relocated `a`. A kept line takes both runs one step further or stops both (`Mirrors.of_kept`). An
added line is read by the second run alone, and leaves its assembly as it is but for the count
(`Mirrors.of_added`).

Results:
* `position_of_kept`: `position` is where the kept lines are;
* `read_of_passes`, `passes_of_neutral`: an added line is counted, and nothing else;
* `readAll_marked`: the two runs side by side, up to the first failure;
* `compileText_marked`: texts with added lines.
-/
namespace ProtoSchema

open Text

/-! ## Texts with added lines -/

/-- A line of a text to which lines were added. -/
inductive MarkedLine
  | kept (line : List Char)
  | added (line : List Char)
  deriving DecidableEq, Repr

def MarkedLine.line : MarkedLine → List Char
  | .kept line => line
  | .added line => line

/-- The lines of the text before the others were added. -/
def keptLines (marked : List MarkedLine) : List (List Char) :=
  marked.filterMap fun
    | .kept line => some line
    | .added _ => none

/-- Where the kept line of this number is among all lines. Both are counted from 1. -/
def position : List MarkedLine → Nat → Nat
  | _, 0 => 0
  | [], n + 1 => n + 1
  | .kept _ :: marked, n + 1 => position marked n + 1
  | .added _ :: marked, n + 1 => position marked (n + 1) + 1

/-- A line that leaves no trace behind these lines: it has no code, or no line fails before it, no
enum is open, and it is an option or a package that is not the first one. -/
def Neutral (policy : Policy) (front : List (List Char)) (line : List Char) : Prop :=
  code line = [] ∨
    (Assembly.start.readAll grammar policy (front.map some)).failure? = none ∧
    (Assembly.start.readAll grammar policy (front.map some)).next.state ≠ .inEnum ∧
    ((∃ name value, Statement.ofLine (code line) = .ok (.option name value)) ∨
      (∃ name, Statement.ofLine (code line) = .ok (.package name)) ∧
      ∃ earlier ∈ front, ∃ name, Statement.ofLine (code earlier) = .ok (.package name))

/-- The message with each of its lines elsewhere. -/
def Message.renumbered (place : Nat → Nat) (m : Message) : Message :=
  { m with line := place m.line, fields := m.fields.map fun f => { f with line := place f.line } }

theorem position_zero (marked : List MarkedLine) : position marked 0 = 0 := by
  cases marked <;> rfl

theorem keptLines_kept (line : List Char) (marked : List MarkedLine) :
    keptLines (.kept line :: marked) = line :: keptLines marked := rfl

theorem keptLines_added (line : List Char) (marked : List MarkedLine) :
    keptLines (.added line :: marked) = keptLines marked := rfl

/-- A kept line has a place among the kept lines and one among all lines. -/
theorem position_of_kept {marked : List MarkedLine} {i : Nat} {line : List Char}
    (h : marked[i]? = some (.kept line)) :
    (keptLines marked)[(keptLines (marked.take i)).length]? = some line ∧
      position marked ((keptLines (marked.take i)).length + 1) = i + 1 := by
  induction marked generalizing i with
  | nil => cases h
  | cons first marked ih =>
    cases i with
    | zero =>
      cases h
      exact ⟨rfl, congrArg (· + 1) (position_zero marked)⟩
    | succ i =>
      obtain ⟨hline, hposition⟩ := ih h
      cases first with
      | kept other =>
        rw [List.take_succ_cons, keptLines_kept, keptLines_kept, List.length_cons]
        exact ⟨hline, congrArg (· + 1) hposition⟩
      | added other =>
        rw [List.take_succ_cons, keptLines_added, keptLines_added]
        exact ⟨hline, congrArg (· + 1) hposition⟩

theorem relocated_eq_renumbered {place : Nat → Nat} (hzero : place 0 = 0) (m : Message) :
    m.relocated place none = m.renumbered place := by
  have hline : (if m.line = 0 then 0 else place m.line) = place m.line := by
    split
    · next h => rw [h, hzero]
    · rfl
  rw [Message.relocated, hline]
  rfl

theorem Statement.code_ne_nil {line : List Char} {statement : Statement}
    (h : ofLine (code line) = .ok statement) : code line ≠ [] := by
  intro hnil
  rw [hnil] at h
  cases h

namespace Assembly

variable {policy : Policy} {a : Assembly Nesting} {line : List Char}

/-! ## Lines that pass -/

/-- The line is counted by this assembly, and nothing else comes of it. -/
def Passes (a : Assembly Nesting) (line : List Char) : Prop :=
  code line = [] ∨
    a.state ≠ .inEnum ∧
    ((∃ name value, Statement.ofLine (code line) = .ok (.option name value)) ∨
      (∃ name, Statement.ofLine (code line) = .ok (.package name)) ∧ a.package? ≠ none)

/-- An accepted line that changes neither the nesting nor the message does what its signal says. -/
theorem read_of_step (policy : Policy) {accepted : Grammar.Accepted} (hline : code line ≠ [])
    (hstep : Grammar.step a.state (code line) (a.lineCount + 1) a.current = .ok accepted)
    (hnesting : accepted.nesting = a.state) (hcurrent : accepted.current = a.current) :
    (a.read grammar policy line).failure? = none ∧
      (a.read grammar policy line).next =
        ((a.atLine (a.lineCount + 1)).obey accepted.signal).1 := by
  have hnext := advance_of_step_eq_ok (a := a.atLine (a.lineCount + 1)) hline hstep
  rw [accept, hnesting, hcurrent] at hnext
  refine ⟨?_, apply_next.trans hnext⟩
  rw [read, apply_failure? hline, hstep]
  simp only [newIdFault?_of_length (congrArg (·.fields.length) hcurrent), Option.map_none]

theorem read_of_passes (policy : Policy) (h : a.Passes line) :
    (a.read grammar policy line).failure? = none ∧
      (a.read grammar policy line).next = a.atLine (a.lineCount + 1) := by
  rcases h with hnil | ⟨hstate, ⟨name, value, hread⟩ | ⟨⟨name, hread⟩, hpackage⟩⟩
  · rw [read, hnil]
    exact ⟨rfl, rfl⟩
  · have hsays : Says (a.lineCount + 1, code line) (.option name value) :=
      .option (Statement.ofLine_eq_ok.1 hread).1
    exact read_of_step policy (Statement.code_ne_nil hread)
      (Grammar.step_eq_ok.2 ⟨_, hsays, .option hstate⟩) rfl rfl
  · have hsays : Says (a.lineCount + 1, code line) (.package name) :=
      .package (Statement.ofLine_eq_ok.1 hread).1
    obtain ⟨hfailure, hnext⟩ := read_of_step policy (Statement.code_ne_nil hread)
      (Grammar.step_eq_ok.2 ⟨_, hsays, .package hstate⟩) rfl rfl
    refine ⟨hfailure, hnext.trans ?_⟩
    -- The package is passed over, since it is not the first one.
    obtain ⟨first, hfirst⟩ := Option.ne_none_iff_exists'.1 hpackage
    simp [obey, takePackage, atLine, hfirst]

theorem package?_ne_none {front : List (List Char)}
    (hread : (start.readAll grammar policy (front.map some)).failure? = none)
    {earlier : List Char} (hearlier : earlier ∈ front) {name : String}
    (hpackage : Statement.ofLine (code earlier) = .ok (.package name)) :
    (start.readAll grammar policy (front.map some)).next.package? ≠ none := by
  intro hnone
  rw [package?_readAll linked_start hread, Option.or_eq_none_iff,
    List.findSome?_eq_none_iff] at hnone
  obtain ⟨k, hk⟩ := exists_mem_codeLines hearlier (Statement.code_ne_nil hpackage) start.lineCount
  have hsays : Says (k, code earlier) (.package name) :=
    .package (Statement.ofLine_eq_ok.1 hpackage).1
  have hclause : Clause.package name ∈
      (codeLines start.lineCount front).filterMap Clause.ofLine? :=
    List.mem_filterMap.2 ⟨_, hk, Clause.ofLine?_eq_some.2 hsays⟩
  cases hnone.2 _ hclause

theorem passes_of_neutral {front : List (List Char)} (h : Neutral policy front line)
    (hread : (start.readAll grammar policy (front.map some)).failure? = none) :
    (start.readAll grammar policy (front.map some)).next.Passes line := by
  rcases h with hnil | ⟨_, hstate, hoption | ⟨hpackage, earlier, hearlier, name, hfirst⟩⟩
  · exact .inl hnil
  · exact .inr ⟨hstate, .inl hoption⟩
  · exact .inr ⟨hstate, .inr ⟨hpackage, package?_ne_none hread hearlier hfirst⟩⟩

/-! ## The two runs -/

/-- The second run fails where the first one does, or it has come as far. -/
structure Mirrors (place : Nat → Nat) (count : Nat) (run run' : Step Nesting) : Prop where
  failure : run'.failure? = run.failure?.map (Failure.relocated place)
  next : run.failure? = none → run'.next = run.next.relocated place count none []

section Mirrors

variable {place : Nat → Nat} {count total : Nat} {run run' : Step Nesting}
  {lines lines' : List (Option (List Char))}

theorem Mirrors.after (h : Mirrors place count run run') (events events' : List Event) :
    Mirrors place count (run.after events) (run'.after events') :=
  ⟨h.failure, h.next⟩

/-- A line that passes is read by the second run alone. -/
theorem Mirrors.of_added (hpass : a.Passes line)
    (h : Mirrors place total run
      ((a.relocated place (count + 1) none []).readAll grammar policy lines')) :
    Mirrors place total run
      ((a.relocated place count none []).readAll grammar policy (some line :: lines')) := by
  have hpass' : (a.relocated place count none []).Passes line := hpass
  obtain ⟨hread, hnext⟩ := read_of_passes policy hpass'
  rw [readAll_cons hread, hnext]
  exact h.after [] _

/-- A kept line is read by both runs, and stops both or none. -/
theorem Mirrors.of_kept (hplace : place (a.lineCount + 1) = count + 1)
    (h : (a.read grammar policy line).failure? = none →
      Mirrors place total ((a.read grammar policy line).next.readAll grammar policy lines)
        (((a.read grammar policy line).next.relocated place (count + 1) none []).readAll grammar
          policy lines')) :
    Mirrors place total (a.readAll grammar policy (some line :: lines))
      ((a.relocated place count none []).readAll grammar policy (some line :: lines')) := by
  obtain ⟨hfailure, hnext⟩ := read_relocated hplace line
  cases hread : (a.read grammar policy line).failure? with
  | some failure =>
    have hread' : ((a.relocated place count none []).read grammar policy line).failure? =
        some (failure.relocated place) := by
      rw [hfailure, hread]
      rfl
    rw [readAll_cons_of_failure? hread, readAll_cons_of_failure? hread']
    exact ⟨hfailure, fun hnone => absurd (hread.symm.trans hnone) nofun⟩
  | none =>
    have hread' : ((a.relocated place count none []).read grammar policy line).failure? = none := by
      rw [hfailure, hread]
      rfl
    rw [readAll_cons hread, readAll_cons hread', hnext]
    exact (h hread).after _ _

end Mirrors

/-- Behind `count` of all lines, the run over all of the marked lines goes along with the run over
the kept ones, if the kept lines are placed at their positions and the added ones pass where they
stand. -/
theorem readAll_marked {place : Nat → Nat} {count : Nat} {marked : List MarkedLine}
    (hplace : ∀ k, place (a.lineCount + (k + 1)) = count + position marked (k + 1))
    (hpasses : ∀ i line, marked[i]? = some (.added line) →
      (a.readAll grammar policy ((keptLines (marked.take i)).map some)).failure? = none →
      (a.readAll grammar policy ((keptLines (marked.take i)).map some)).next.Passes line) :
    Mirrors place (count + marked.length)
      (a.readAll grammar policy ((keptLines marked).map some))
      ((a.relocated place count none []).readAll grammar policy
        ((marked.map MarkedLine.line).map some)) := by
  induction marked generalizing a count with
  | nil => exact ⟨rfl, fun _ => rfl⟩
  | cons first marked ih =>
    have hlength : count + (marked.length + 1) = count + 1 + marked.length := by omega
    rw [List.length_cons, hlength, List.map_cons, List.map_cons]
    cases first with
    | added line =>
      rw [keptLines_added]
      refine .of_added (hpasses 0 line rfl rfl) (ih (fun k => ?_) fun i => hpasses (i + 1))
      rw [hplace, position]
      omega
    | kept line =>
      have hnext : place (a.lineCount + 1) = count + 1 := by
        rw [hplace 0, position, position_zero]
      have hcount : (a.read grammar policy line).next.lineCount = a.lineCount + 1 :=
        a.feed_lineCount (.text line)
      rw [keptLines_kept, List.map_cons]
      refine .of_kept hnext fun hread => ih (fun k => ?_) fun i line' hline' hfront => ?_
      · have hk := hplace (k + 1)
        rw [position] at hk
        rw [hcount, show a.lineCount + 1 + (k + 1) = a.lineCount + (k + 1 + 1) by omega, hk]
        omega
      · have hfront' := hpasses (i + 1) line' hline'
        rw [List.take_succ_cons, keptLines_kept, List.map_cons, readAll_cons hread] at hfront'
        exact hfront' hfront

end Assembly

/-! ## Texts -/

open Assembly

/-- A text and the text with neutral lines added to it. Each kept line is at its position in the
second text. If the first text compiles, so does the second one, to the same messages with each line
number followed to its position. If the first text fails, the second one fails with the same fault:
at the position of the failing line, or at its own last line if only the end of the text fails. -/
theorem compileText_marked (policy : Policy) (text text' : String) (marked : List MarkedLine)
    (hkept : textLines text.toList = keptLines marked)
    (hall : textLines text'.toList = marked.map MarkedLine.line)
    (hneutral : ∀ i line, marked[i]? = some (.added line) →
      Neutral policy (keptLines (marked.take i)) line) :
    (∀ i line, marked[i]? = some (.kept line) →
      (textLines text.toList)[(keptLines (marked.take i)).length]? = some line ∧
      position marked ((keptLines (marked.take i)).length + 1) = i + 1) ∧
    match (compileText policy text).result with
    | .ok messages =>
      (compileText policy text').result =
        .ok (messages.map (Message.renumbered (position marked)))
    | .error failure =>
      (failure.fault.StopsReading policy.idCheck ∧
        (compileText policy text').result =
          .error ⟨position marked failure.line, failure.fault⟩) ∨
      (failure.fault.EndsReading policy.idCheck ∧
        (compileText policy text').result =
          .error ⟨max 1 (textLines text'.toList).length, failure.fault⟩) := by
  refine ⟨fun i line hline => hkept ▸ position_of_kept hline, ?_⟩
  have hmirrors : Mirrors (position marked) (0 + marked.length)
      (start.readAll grammar policy ((keptLines marked).map some))
      (start.readAll grammar policy ((marked.map MarkedLine.line).map some)) :=
    readAll_marked (a := start) (fun k => by simp [start]) fun i line hline hread =>
      passes_of_neutral (hneutral i line hline) hread
  rw [Nat.zero_add] at hmirrors
  simp only [compileText, sourceLines, hkept, hall]
  cases hresult : (start.complete grammar policy ((keptLines marked).map some)).result with
  | ok messages =>
    obtain ⟨hread, hend, rfl⟩ := complete_eq_ok.1 hresult
    simp only
    have hnext := hmirrors.next hread
    refine complete_eq_ok.2 ⟨by rw [hmirrors.failure, hread]; rfl, ?_, ?_⟩
    · rw [hnext, endFault?_relocated rfl (.inl rfl), hend]
    · rw [hnext, relocated, List.nil_append]
      exact List.map_congr_left fun m _ => relocated_eq_renumbered (position_zero marked) m
  | error failure =>
    simp only
    rcases complete_eq_error.1 hresult with hfailure | ⟨hread, hline, hend⟩
    · obtain ⟨_, _, _, hstops, _⟩ := exists_of_readAll_texts hfailure
      refine .inl ⟨hstops, complete_of_failure? ?_⟩
      rw [hmirrors.failure, hfailure]
      rfl
    · have hnext := hmirrors.next hread
      refine .inr ⟨(endsReading_of_complete hread hresult).2,
        complete_eq_error.2 (.inr ⟨?_, ?_, ?_⟩)⟩
      · rw [hmirrors.failure, hread]
        rfl
      · rw [hnext, List.length_map]
        exact Nat.max_comm _ _
      · rw [hnext, endFault?_relocated rfl (.inl rfl), hend]

/-- Lines added to a text that compiles, and to one that fails at its last line. -/
theorem compileText_marked_runs :
    (compileText {} "package p;\n\npackage q;\nmessage A \x7b\noption o = 1;\n\x7d").result =
      .ok [{ name := "A", package? := some "p", line := 4 }] ∧
    (compileText {} "// first\nmessage A \x7b\nx\n").result =
      .error ⟨3, .unrecognizedLine "\"x\"" .notAStatement⟩ := by
  refine ⟨?_, ?_⟩
  · have h := (compileText_marked {} "package p;\nmessage A \x7b\n\x7d"
      "package p;\n\npackage q;\nmessage A \x7b\noption o = 1;\n\x7d"
      [.kept "package p;".toList, .added [], .added "package q;".toList,
        .kept "message A \x7b".toList, .added "option o = 1;".toList, .kept ['\x7d']]
      (by rfl) (by rfl) ?_).2
    · exact h
    · rintro (_ | _ | _ | _ | _ | _ | i) line hline <;> cases hline
      · exact .inl rfl
      · exact .inr ⟨by rfl, nofun, .inr ⟨⟨"q", by rfl⟩, _, List.mem_cons_self, "p", by rfl⟩⟩
      · exact .inr ⟨by rfl, nofun, .inl ⟨"o", "1", by rfl⟩⟩
  · have h := (compileText_marked {} "message A \x7b\nx" "// first\nmessage A \x7b\nx\n"
      [.added "// first".toList, .kept "message A \x7b".toList, .kept ['x']]
      (by rfl) (by rfl) ?_).2
    · have hfails : (compileText {} "message A \x7b\nx").result =
          .error ⟨2, .unrecognizedLine "\"x\"" .notAStatement⟩ := by rfl
      rw [hfails] at h
      rcases h with ⟨_, h⟩ | ⟨hends, _⟩
      · exact h
      · exact absurd (.inl ⟨_, _, rfl⟩) hends.not_stopsReading
    · rintro (_ | _ | _ | i) line hline <;> cases hline
      exact .inl (by rfl)

end ProtoSchema
