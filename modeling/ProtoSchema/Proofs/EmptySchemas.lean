import ProtoSchema.Proofs.FirstFailure
import ProtoSchema.Proofs.SourceMap

/-!
# Schemas without messages

A caller may accept schemas without messages or not. Under all rules that choice decides about one
outcome alone: an empty list of messages is handed out, or it is a failure at the last line. An open
block is reported before it comes to that, and where there is no message there is no repeated id.

**Directives.** The lines that may stand outside of every message declare packages and options. A
schema has no message when it has no other lines of code.

Results:
* `endFault?_reject`, `complete_reject`: what the choice means at the end, and for a whole schema;
* `messagesAfter_eq_nil`: a file without messages is one without blocks;
* `compileText_eq_ok_nil`: the texts without messages;
* `emptyInput_of_complete`: both together, for each text.
-/
namespace ProtoSchema

open Text

/-! ## The end of a schema -/

namespace Assembly

variable {σ : Type} {rules : LineRules σ} {a : Assembly σ} {idCheck : IdCheck}

/-- Only an end at which nothing else is wrong asks whether there are messages. -/
theorem endFault?_reject :
    a.endFault? rules ⟨idCheck, .reject⟩ =
      (a.endFault? rules ⟨idCheck, .accept⟩).or
        (if a.finished = [] then some .noMessages else none) := by
  unfold endFault?
  by_cases hopen : (!rules.isClosed a.state) = true
  · simp [hopen]
  · by_cases hfinished : a.finished = []
    · simp [hopen, hfinished, Message.firstIdFault?]
    · simp [hopen, hfinished]

/-- The result of a schema that is given up for having no message. -/
def rejectEmpty (line : Nat) : Except Failure (List Message) → Except Failure (List Message)
  | .ok [] => .error ⟨line, .noMessages⟩
  | result => result

theorem rejectEmpty_eq_noMessages {line : Nat} {result : Except Failure (List Message)} :
    rejectEmpty line result = .error ⟨line, .noMessages⟩ ↔
      result = .ok [] ∨ result = .error ⟨line, .noMessages⟩ := by
  match result with
  | .ok [] => simp [rejectEmpty]
  | .ok (m :: messages) => simp [rejectEmpty]
  | .error failure => simp [rejectEmpty]

theorem rejectEmpty_eq_ok {line : Nat} {result : Except Failure (List Message)}
    {messages : List Message} :
    rejectEmpty line result = .ok messages ↔ result = .ok messages ∧ messages ≠ [] := by
  match result with
  | .ok [] => simp +contextual [rejectEmpty, eq_comm]
  | .ok (m :: messages) => simp +contextual [rejectEmpty, eq_comm]
  | .error failure => simp [rejectEmpty]

theorem finish_reject :
    (a.finish rules ⟨idCheck, .reject⟩).result =
      rejectEmpty a.lineNumber (a.finish rules ⟨idCheck, .accept⟩).result := by
  cases haccept : a.endFault? rules ⟨idCheck, .accept⟩ with
  | some fault =>
    have hreject : a.endFault? rules ⟨idCheck, .reject⟩ = some fault := by
      rw [endFault?_reject, haccept, Option.some_or]
    rw [finish_of_endFault? hreject, finish_of_endFault? haccept, rejectEmpty]
    nofun
  | none =>
    have hreject : a.endFault? rules ⟨idCheck, .reject⟩ = _ := endFault?_reject
    rw [haccept, Option.none_or] at hreject
    rw [finish_of_endFault?_eq_none haccept]
    cases hfinished : a.finished with
    | nil =>
      rw [hfinished, if_pos rfl] at hreject
      rw [finish_of_endFault? hreject, rejectEmpty]
    | cons m messages =>
      rw [hfinished, if_neg (List.cons_ne_nil m messages)] at hreject
      rw [finish_of_endFault?_eq_none hreject, hfinished, rejectEmpty]
      nofun

/-- The lines fail alike, and behind them only the end is different. -/
theorem complete_reject (rules : LineRules σ) (idCheck : IdCheck) (a : Assembly σ)
    (texts : List (List Char)) :
    (a.complete rules ⟨idCheck, .reject⟩ (texts.map some)).result =
      rejectEmpty (max 1 (a.lineCount + texts.length))
        (a.complete rules ⟨idCheck, .accept⟩ (texts.map some)).result := by
  rw [complete_result, complete_result, readAll_emptyInput a idCheck .reject .accept]
  cases hread : (a.readAll rules ⟨idCheck, .accept⟩ (texts.map some)).failure? with
  | some failure =>
    rw [rejectEmpty]
    nofun
  | none =>
    simp only
    rw [finish_reject, lineNumber, readAll_lineCount hread, Nat.max_comm]

end Assembly

theorem compileText_reject_eq_ok {idCheck : IdCheck} {text : String} {messages : List Message} :
    (compileText ⟨idCheck, .reject⟩ text).result = .ok messages ↔
      (compileText ⟨idCheck, .accept⟩ text).result = .ok messages ∧ messages ≠ [] := by
  rw [compileText, compileText, sourceLines, Assembly.complete_reject, Assembly.rejectEmpty_eq_ok]

/-! ## Files without blocks -/

/-- A line that declares a package or an option. -/
def IsDirective (line : List Char) : Prop :=
  (∃ name, Statement.Written (.package name) line) ∨
    ∃ name value, Statement.Written (.option name value) line

/-- A part of a file that is no block. -/
def Item.IsDirective : Item → Prop
  | .package _ | .option _ _ => True
  | .block _ => False

theorem messagesAfter_eq_nil {declared : List String} {items : List Item} :
    messagesAfter declared items = [] ↔ ∀ item ∈ items, item.IsDirective := by
  induction items generalizing declared with
  | nil => simp [messagesAfter]
  | cons item items ih => cases item <;> simp [messagesAfter, Item.IsDirective, ih]

theorem Says.isDirective {entry : Nat × List Char} {item : Item} {clause : Clause}
    (h : Says entry clause) (hclause : clause ∈ item.clauses) (hitem : item.IsDirective) :
    ProtoSchema.IsDirective entry.2 := by
  cases item with
  | block b => exact hitem.elim
  | package name =>
    obtain rfl := List.mem_singleton.1 hclause
    cases h with
    | package hw => exact .inl ⟨name, hw⟩
  | option name value =>
    obtain rfl := List.mem_singleton.1 hclause
    cases h with
    | option hw => exact .inr ⟨name, value, hw⟩

theorem IsDirective.exists_item {n : Nat} {line : List Char} (h : IsDirective line) :
    ∃ item : Item, item.IsDirective ∧ List.Forall₂ Says [(n, line)] item.clauses := by
  rcases h with ⟨name, hw⟩ | ⟨name, value, hw⟩
  · exact ⟨.package name, trivial, .cons (.package hw) .nil⟩
  · exact ⟨.option name value, trivial, .cons (.option hw) .nil⟩

/-- Lines of code that are all directives say a file without blocks. -/
theorem exists_items_of_isDirective {numbered : List (Nat × List Char)}
    (h : ∀ entry ∈ numbered, IsDirective entry.2) :
    ∃ items : List Item, (∀ item ∈ items, item.IsDirective) ∧
      List.Forall₂ Says numbered (items.flatMap Item.clauses) := by
  induction numbered with
  | nil => exact ⟨[], nofun, .nil⟩
  | cons entry numbered ih =>
    obtain ⟨hentry, hnumbered⟩ := List.forall_mem_cons.1 h
    obtain ⟨items, hitems, hsays⟩ := ih hnumbered
    obtain ⟨item, hitem, hsaid⟩ := hentry.exists_item (n := entry.1)
    exact ⟨item :: items, List.forall_mem_cons.2 ⟨hitem, hitems⟩, List.rel_append hsaid hsays⟩

/-- A text compiles to no message when all of its lines of code are directives. -/
theorem compileText_eq_ok_nil (idCheck : IdCheck) (text : String) :
    (compileText ⟨idCheck, .accept⟩ text).result = .ok [] ↔
      ∀ line ∈ textLines text.toList, code line ≠ [] → IsDirective (code line) := by
  rw [compileText_eq_ok]
  refine ⟨fun h line hline hcode => ?_, fun h => ?_⟩
  · obtain ⟨items, hsays, -, hnil⟩ := h
    obtain ⟨k, hentry⟩ := exists_mem_codeLines hline hcode 0
    obtain ⟨clause, hclause, hsaid⟩ := exists_clause_of_mem hsays hentry
    obtain ⟨item, hitem, hclause⟩ := List.mem_flatMap.1 hclause
    exact hsaid.isDirective hclause (messagesAfter_eq_nil.1 hnil.symm item hitem)
  · have hnumbered : ∀ entry ∈ codeLines 0 (textLines text.toList), IsDirective entry.2 := by
      intro entry hentry
      obtain ⟨i, line, hline, rfl⟩ := exists_of_mem_codeLines hentry
      exact h line (List.mem_of_getElem? hline) (ne_nil_of_mem_codeLines hentry)
    obtain ⟨items, hitems, hsays⟩ := exists_items_of_isDirective hnumbered
    refine ⟨items, hsays, fun b hb => (hitems _ hb).elim, ?_⟩
    exact (messagesAfter_eq_nil.2 hitems).symm

theorem compileText_accept_ne_noMessages (idCheck : IdCheck) (text : String) (n : Nat) :
    (compileText ⟨idCheck, .accept⟩ text).result ≠ .error ⟨n, .noMessages⟩ := by
  intro h
  -- No line is given up for this, and the end asks for messages only where they are required.
  rcases Assembly.complete_eq_error.1 h with hfailure | ⟨-, -, hend⟩
  · obtain ⟨-, -, -, hstops, -, -⟩ := Assembly.exists_of_readAll_texts hfailure
    have hends : Fault.noMessages.EndsReading idCheck := .inr (.inl rfl)
    exact hends.not_stopsReading hstops
  · unfold Assembly.endFault? at hend
    split at hend
    · cases hend
    · rw [if_neg nofun] at hend
      obtain ⟨m, -, hm⟩ := List.exists_of_findSome?_eq_some hend
      obtain ⟨_, _, _, hrepeated⟩ := Message.isRepeatedId_of_idFault? hm
      cases hrepeated

/-- Under all rules and with either search for repeated ids, a text comes to the same whether
schemas without messages are accepted or not, except that an empty list of messages becomes a
failure at the last line, or at line 1 of a text without lines. Under the grammar this happens to
the texts of which each line of code declares a package or an option. -/
theorem emptyInput_of_complete {σ : Type} (rules : LineRules σ) (state : σ) (idCheck : IdCheck)
    (text : String) :
    let result (emptyInput : EmptyInput) :=
      (({ state } : Assembly σ).complete rules ⟨idCheck, emptyInput⟩
        (sourceLines text.toList)).result
    let last := max 1 (textLines text.toList).length
    result .reject = Assembly.rejectEmpty last (result .accept) ∧
    ((compileText ⟨idCheck, .accept⟩ text).result = .ok [] ↔
      ∀ line ∈ textLines text.toList, code line ≠ [] → IsDirective (code line)) ∧
    ((compileText ⟨idCheck, .reject⟩ text).result = .error ⟨last, .noMessages⟩ ↔
      ∀ line ∈ textLines text.toList, code line ≠ [] → IsDirective (code line)) := by
  intro result last
  have hreject {σ : Type} {rules : LineRules σ} {state : σ} :
      (({ state } : Assembly σ).complete rules ⟨idCheck, .reject⟩
          (sourceLines text.toList)).result =
        Assembly.rejectEmpty last (({ state } : Assembly σ).complete rules ⟨idCheck, .accept⟩
          (sourceLines text.toList)).result := by
    rw [sourceLines, Assembly.complete_reject, Nat.zero_add]
  refine ⟨hreject, compileText_eq_ok_nil idCheck text, ?_⟩
  rw [← compileText_eq_ok_nil idCheck text, compileText, Assembly.start, hreject,
    Assembly.rejectEmpty_eq_noMessages]
  exact or_iff_left (compileText_accept_ne_noMessages idCheck text last)

/-- An open block is reported before it comes to the messages. -/
example :
    (compileText ⟨.whileReading, .reject⟩ "// none\noption a = b;\npackage p;\n").result =
        .error ⟨3, .noMessages⟩ ∧
      (compileText ⟨.whileReading, .reject⟩ "message A \x7b").result =
        .error ⟨1, .unclosedMessage⟩ :=
  ⟨rfl, rfl⟩

end ProtoSchema
