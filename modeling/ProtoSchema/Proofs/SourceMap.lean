import ProtoSchema.Proofs.FirstLines
import ProtoSchema.Proofs.OpenBlocks
import ProtoSchema.Proofs.WellFormed

/-!
# Line numbers

The line numbers of compiled messages lead back to the text. A message is on the line that starts it
and a field on the line that declares it, so the numbers rise from each to the next.

**Where they come from.** A clause with a line number is said by the line of that number
(`Says.eq_of_line?`). The messages list these clauses in the order in which they stand in the file
(`lineNumbers_messagesAfter`), and lines are read in the order of their numbers
(`codeLines_pairwise`).

Results:
* `codeLines_pairwise`: lines of code stand in the order of their numbers;
* `Says.ofLine_messageStart`, `Says.ofLine_field`: what is read on the line of a message or field;
* `lineNumbers_messagesAfter`: the numbers of messages and fields are those of their clauses;
* `compileText_lines`: all of it, for each text that compiles.
-/
namespace ProtoSchema

open Text

/-! ## Lines of messages and clauses -/

/-- The line on which the message starts and those of its fields. -/
def Message.lineNumbers (m : Message) : List Nat :=
  m.line :: m.fields.map (·.line)

/-- The line that a clause knows to be its own. -/
def Clause.line? : Clause → Option Nat
  | .messageStart _ line => some line
  | .field f => some f.line
  | _ => none

theorem line_memberFields (members : List Member) :
    (memberFields members).map (·.line) =
      (members.flatMap Member.clauses).filterMap Clause.line? := by
  induction members with
  | nil => rfl
  | cons member members ih =>
    rw [List.flatMap_cons, List.filterMap_append, ← ih]
    cases member with
    | package name | option name value | field f => rfl
    | enum e =>
      have hvalues : (valueClauses e.values).filterMap Clause.line? = [] := by
        simp [valueClauses, Clause.line?]
      rw [Member.clauses, List.filterMap_cons_none rfl, hvalues]
      rfl

theorem Block.lineNumbers_message (b : Block) (declared : List String) :
    (b.message declared).lineNumbers = b.clauses.filterMap Clause.line? := by
  have hend : [Clause.blockEnd].filterMap Clause.line? = [] := rfl
  have hmembers : (memberClauses b.members).filterMap Clause.line? =
      (memberFields b.members).map (·.line) := by
    rw [memberClauses, List.filterMap_append, hend, List.append_nil, line_memberFields]
  rw [Block.clauses, List.filterMap_cons, hmembers]
  rfl

/-- Messages and fields are listed in the order of their clauses. -/
theorem lineNumbers_messagesAfter (declared : List String) (items : List Item) :
    (messagesAfter declared items).flatMap Message.lineNumbers =
      (items.flatMap Item.clauses).filterMap Clause.line? := by
  induction items generalizing declared with
  | nil => rfl
  | cons item items ih =>
    rw [List.flatMap_cons, List.filterMap_append]
    cases item with
    | package name | option name value => exact ih _
    | block b => rw [messagesAfter, List.flatMap_cons, b.lineNumbers_message, ih]; rfl

/-! ## Lines of code -/

theorem codeLines_pairwise (n : Nat) (lines : List (List Char)) :
    ((codeLines n lines).map (·.1)).Pairwise (· < ·) := by
  induction lines generalizing n with
  | nil => exact .nil
  | cons line lines ih =>
    rw [codeLines]
    split
    · exact ih (n + 1)
    · refine .cons (fun k hk => ?_) (ih (n + 1))
      obtain ⟨entry, hentry, rfl⟩ := List.mem_map.1 hk
      obtain ⟨i, _, _, rfl⟩ := exists_of_mem_codeLines hentry
      exact Nat.lt_succ_of_le (Nat.le_add_right (n + 1) i)

namespace Says

theorem eq_of_line? {entry : Nat × List Char} {clause : Clause} {n : Nat} (h : Says entry clause)
    (hline : clause.line? = some n) : n = entry.1 := by
  cases h with
  | messageStart => exact (Option.some.inj hline).symm
  | field _ _ _ hf => exact (Option.some.inj hline).symm.trans hf
  | blockEnd | package | enumStart | enumValue | option => cases hline

theorem ofLine_messageStart {entry : Nat × List Char} {name : String} {n : Nat}
    (h : Says entry (.messageStart name n)) :
    Statement.ofLine entry.2 = .ok (.messageStart name) := by
  cases h with
  | messageStart hw => exact Statement.ofLine_of_written hw (by simp [Statement.kind])

theorem ofLine_field {entry : Nat × List Char} {f : Field} (h : Says entry (.field f)) :
    ∃ digits, Statement.ofLine entry.2 = .ok (.field (f.decl digits)) ∧
      Grammar.fieldId digits = .ok f.id := by
  cases h with
  | @field n line digits f hw hdigits hid hline =>
    exact ⟨digits, Statement.ofLine_of_written hw (by simp [Statement.kind]),
      Grammar.fieldId_eq_ok.2 ⟨hdigits, hid⟩⟩

/-- The numbers that clauses know are among those of the lines that say them, in the same order. -/
theorem line?_sublist {numbered : List (Nat × List Char)} {clauses : List Clause}
    (h : List.Forall₂ Says numbered clauses) :
    (clauses.filterMap Clause.line?).Sublist (numbered.map (·.1)) := by
  induction h with
  | nil => exact .refl []
  | @cons entry clause numbered clauses hsays _ ih =>
    rw [List.map_cons]
    cases hline : clause.line? with
    | none =>
      rw [List.filterMap_cons_none hline]
      exact ih.cons entry.1
    | some n =>
      rw [List.filterMap_cons_some hline, hsays.eq_of_line? hline]
      exact ih.cons_cons entry.1

end Says

/-! ## The policy for schemas without messages -/

namespace Assembly

/-- What is done about a schema without messages does not matter before its end. -/
theorem readAll_emptyInput {σ : Type} {rules : LineRules σ} (a : Assembly σ) (idCheck : IdCheck)
    (emptyInput emptyInput' : EmptyInput) (lines : List (Option (List Char))) :
    a.readAll rules ⟨idCheck, emptyInput⟩ lines = a.readAll rules ⟨idCheck, emptyInput'⟩ lines := by
  induction lines generalizing a with
  | nil => rfl
  | cons line lines ih =>
    cases line with
    | none => rfl
    | some line =>
      have hread : a.read rules ⟨idCheck, emptyInput⟩ line =
          a.read rules ⟨idCheck, emptyInput'⟩ line := rfl
      simp only [readAll, hread, ih]

theorem endFault?_accept {σ : Type} {rules : LineRules σ} {policy : Policy} {a : Assembly σ}
    (h : a.endFault? rules policy = none) :
    a.endFault? rules ⟨policy.idCheck, .accept⟩ = none := by
  unfold endFault? at h ⊢
  split at h
  · cases h
  · next hclosed =>
    rw [if_neg hclosed, if_neg nofun]
    split at h
    · cases h
    · exact h

end Assembly

theorem compileText_accept {policy : Policy} {text : String} {messages : List Message}
    (h : (compileText policy text).result = .ok messages) :
    (compileText ⟨policy.idCheck, .accept⟩ text).result = .ok messages := by
  obtain ⟨hread, hend, hfinished⟩ := Assembly.complete_eq_ok.1 h
  obtain ⟨idCheck, emptyInput⟩ := policy
  rw [Assembly.readAll_emptyInput _ idCheck emptyInput .accept] at hread hend hfinished
  exact Assembly.complete_eq_ok.2 ⟨hread, Assembly.endFault?_accept hend, hfinished⟩

/-! ## The lines of a text that compiles -/

theorem exists_line_of_mem {lines : List (List Char)} {clauses : List Clause}
    (h : List.Forall₂ Says (codeLines 0 lines) clauses) {clause : Clause} {n : Nat}
    (hclause : clause ∈ clauses) (hn : clause.line? = some n) :
    ∃ line, lines[n - 1]? = some line ∧ 1 ≤ n ∧ Says (n, code line) clause := by
  obtain ⟨entry, hentry, hsays⟩ := exists_says_of_mem h hclause
  obtain rfl := hsays.eq_of_line? hn
  obtain ⟨i, line, hline, rfl⟩ := exists_of_mem_codeLines hentry
  rw [Nat.zero_add] at hsays ⊢
  exact ⟨line, hline, Nat.succ_pos i, hsays⟩

/-- The line numbers of compiled messages, each followed by those of its fields, rise and are
numbers of lines of the text. The line of a message starts a message of its name, and the line of a
field declares its scope, type, name, id and default. -/
theorem compileText_lines (policy : Policy) (text : String) (messages : List Message)
    (h : (compileText policy text).result = .ok messages) :
    (messages.flatMap Message.lineNumbers).Pairwise (· < ·) ∧
    (∀ n ∈ messages.flatMap Message.lineNumbers, 1 ≤ n ∧ n ≤ (textLines text.toList).length) ∧
    ∀ m ∈ messages,
      (∃ line, (textLines text.toList)[m.line - 1]? = some line ∧
        Statement.ofLine (code line) = .ok (.messageStart m.name)) ∧
      ∀ f ∈ m.fields, ∃ line digits, (textLines text.toList)[f.line - 1]? = some line ∧
        Statement.ofLine (code line) =
          .ok (.field { scope := f.scope, type := f.type, name := f.name, digits,
                        default? := f.default? }) ∧
        Grammar.fieldId digits = .ok f.id := by
  obtain ⟨items, hsays, rfl, _⟩ := exists_items_of_compileText (compileText_accept h)
  have hlines := lineNumbers_messagesAfter [] items
  refine ⟨?_, fun n hn => ?_, fun m hm => ?_⟩
  · rw [hlines]
    exact (codeLines_pairwise 0 _).sublist (Says.line?_sublist hsays)
  · rw [hlines] at hn
    obtain ⟨clause, hclause, hn⟩ := List.mem_filterMap.1 hn
    obtain ⟨line, hline, hpos, _⟩ := exists_line_of_mem hsays hclause hn
    have hlt := (List.getElem?_eq_some_iff.1 hline).1
    exact ⟨hpos, by omega⟩
  · obtain ⟨b, declared, hb, rfl⟩ := exists_block_of_mem hm
    have hmem : ∀ clause ∈ b.clauses, clause ∈ items.flatMap Item.clauses :=
      fun clause hclause => List.mem_flatMap.2 ⟨.block b, hb, hclause⟩
    refine ⟨?_, fun f hf => ?_⟩
    · obtain ⟨line, hline, _, hstart⟩ :=
        exists_line_of_mem hsays (hmem (.messageStart b.name b.line) List.mem_cons_self) rfl
      exact ⟨line, hline, hstart.ofLine_messageStart⟩
    · obtain ⟨member, hmember, hsome⟩ := List.mem_filterMap.1 hf
      cases member <;> cases hsome
      have hfield : Clause.field f ∈ b.clauses :=
        List.mem_cons_of_mem _ (clause_of_mem_memberClauses hmember List.mem_cons_self)
      obtain ⟨line, hline, _, hdeclares⟩ := exists_line_of_mem hsays (hmem _ hfield) rfl
      obtain ⟨digits, hread, hid⟩ := hdeclares.ofLine_field
      exact ⟨line, digits, hline, hread, hid⟩

/-- A message on line 2 of four, behind a comment, with its field on line 3. -/
theorem compileText_lines_runs :
    [2, 3].Pairwise (· < ·) ∧
    (∃ line, (textLines "// first\nmessage A \x7b\n optional bool b = 07; \n\x7d".toList)[1]? =
        some line ∧
      Statement.ofLine (code line) = .ok (.messageStart "A")) ∧
    ∃ line digits,
      (textLines "// first\nmessage A \x7b\n optional bool b = 07; \n\x7d".toList)[2]? =
        some line ∧
      Statement.ofLine (code line) =
        .ok (.field { scope := .optional, type := .scalar .bool, name := "b", digits,
                      default? := none }) ∧
      Grammar.fieldId digits = .ok 7 := by
  have h := compileText_lines {} "// first\nmessage A \x7b\n optional bool b = 07; \n\x7d"
    [{ name := "A", line := 2
       fields :=
        [{ id := 7, name := "b", type := .scalar .bool, scope := .optional, line := 3 }] }]
    (by rfl)
  have hmessage := h.2.2 _ (List.mem_singleton.2 rfl)
  exact ⟨h.1, hmessage.1, hmessage.2 _ (List.mem_singleton.2 rfl)⟩

end ProtoSchema
