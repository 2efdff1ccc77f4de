import ProtoSchema.Proofs.LineEffects
import ProtoSchema.Proofs.Printing

/-!
# Declarations of enums

An enum that is printed line by line into an open message is declared there. Its labels may be
spelled like the keywords that start other statements. Only the keywords of scopes are no labels: a
line that starts with one of them starts like a field, and it is rejected as a field before it is
looked at as an enum value.

**The block.** Each line is accepted without a signal, and the values join the enum in order
(`applyAll_values`). Neither the rest of the message nor the numbers of the lines matter.

Results:
* `EnumDef.value?_eq_some`, `EnumDef.value?_eq_none`: the value of a label is that of its first pair;
* `applyAll_values`: what the lines of the values do, by induction on them;
* `applyAll_enumLines`: what all lines of an enum do;
* `apply_scopeLabel`: no line declares a label that is spelled like the keyword of a scope.
-/
namespace ProtoSchema

open Text

/-! ## Lookup -/

theorem EnumDef.value?_eq_some {e : EnumDef} {label : String} {value : Int32} :
    e.value? label = some value ↔
      ∃ before after, e.values = before ++ ⟨label, value⟩ :: after ∧
        ∀ v ∈ before, v.label ≠ label := by
  simp only [value?, Option.map_eq_some_iff, List.find?_eq_some_iff_append]
  refine ⟨?_, ?_⟩
  · rintro ⟨v, ⟨hlabel, before, after, hvalues, hbefore⟩, rfl⟩
    obtain rfl : v.label = label := by simpa using hlabel
    exact ⟨before, after, hvalues, by simpa using hbefore⟩
  · rintro ⟨before, after, hvalues, hbefore⟩
    exact ⟨_, ⟨by simp, before, after, hvalues, by simpa using hbefore⟩, rfl⟩

theorem EnumDef.value?_eq_none {e : EnumDef} {label : String} :
    e.value? label = none ↔ ∀ v ∈ e.values, v.label ≠ label := by
  simp [value?]

/-! ## The lines of an enum -/

theorem says_of_snd_eq {entry : Nat × List Char} {line : List Char} {clause : Clause}
    (hline : entry.2 = line) (h : Says (entry.1, line) clause) : Says entry clause := by
  subst hline
  exact h

theorem applyAll_values {values : List EnumValue} (hvalues : ∀ v ∈ values, v.WellFormed)
    {lines : List (Nat × List Char)}
    (hlines : lines.map (·.2) = values.map fun v => v.declaration.toList) {m : Message}
    {enums : List EnumDef} {e : EnumDef} (henums : m.enums = enums ++ [e]) :
    grammar.applyAll .inEnum m lines =
      { state := .inEnum
        current := { m with enums := enums ++ [{ e with values := e.values ++ values }] }
        results := List.replicate lines.length (.ok {}) } := by
  induction lines generalizing values m e with
  | nil =>
    obtain rfl : values = [] := by simpa using hlines.symm
    rw [List.append_nil, ← henums]
    rfl
  | cons entry lines ih =>
    obtain ⟨v, rest, rfl, hentry, hrest⟩ := List.map_eq_cons_iff.1 hlines.symm
    obtain ⟨hv, hvalues⟩ := List.forall_mem_cons.1 hvalues
    have hsaid : Says entry (.enumValue v) := says_of_snd_eq hentry.symm (says_valueLine _ hv)
    -- Behind the value its enum is still the last one.
    rw [applyAll_cons_of_takes hsaid (.enumValue henums), ih hvalues hrest.symm rfl,
      List.append_assoc]
    rfl

/-- The lines of an enum append it to an open message. -/
theorem applyAll_lines {e : EnumDef} (h : e.WellFormed) {lines : List (Nat × List Char)}
    (hlines : lines.map (·.2) = e.lines.map String.toList) (m : Message) :
    grammar.applyAll .inMessage m lines =
      { state := .inMessage
        current := { m with enums := m.enums ++ [e] }
        results := List.replicate lines.length (.ok {}) } := by
  rw [EnumDef.lines, List.map_cons, List.map_append, List.map_map] at hlines
  obtain ⟨first, rest, rfl, hfirst, hrest⟩ := List.map_eq_cons_iff.1 hlines
  obtain ⟨inner, ends, rfl, hinner, hends⟩ := List.map_eq_append_iff.1 hrest
  obtain ⟨last, rfl, hlast⟩ := List.map_eq_singleton_iff.1 hends
  have hopen : Says first (.enumStart e.name) := says_of_snd_eq hfirst (says_enumLine _ h.name)
  have hclose : Says last .blockEnd := says_of_snd_eq hlast (says_blockEnd _)
  have hvalues := applyAll_values (m := { m with enums := m.enums ++ [{ name := e.name }] })
    h.values hinner rfl
  rw [applyAll_cons_of_takes hopen .enumStart, LineRules.applyAll_append]
  simp only [hvalues, applyAll_cons_of_takes hclose .enumEnd]
  rw [List.length_cons, List.length_append, List.replicate_succ, List.length_singleton,
    List.replicate_succ']
  rfl

/-! ## Labels like scopes -/

theorem isIdentifier_keyword (scope : Scope) : isIdentifier scope.keyword.toList = true := by
  cases scope <;> decide

/-- A value with such a label is rejected like a malformed field, wherever its line stands. -/
theorem apply_scopeLabel {line digits : List Char} {scope : Scope} {negative : Bool}
    (hw : Statement.Written (.enumValue scope.keyword negative digits) line) (nesting : Nesting)
    (n : Nat) (m : Message) :
    grammar.apply nesting line n m =
      { state := nesting, current := m, result := .error (.rejected line .malformedField) } := by
  have hlabel : (Statement.enumValue scope.keyword negative digits).HasScopeLabel :=
    ⟨scope, negative, digits, rfl⟩
  have hread : Statement.ofLine line = .error .malformedField := by
    refine Statement.ofLine_eq_error.2 ⟨fun s hs => hs.unique hw ▸ hlabel, ?_⟩
    rw [if_pos (Statement.startsLikeField_of_hasScopeLabel hw hlabel)]
  exact apply_of_step_eq_error (by rw [Grammar.step, hread])

theorem apply_declaration_of_scopeLabel {v : EnumValue} {scope : Scope}
    (h : v.label = scope.keyword) (nesting : Nesting) (n : Nat) (m : Message) :
    grammar.apply nesting v.declaration.toList n m =
      { state := nesting
        current := m
        result := .error (.rejected v.declaration.toList .malformedField) } := by
  obtain ⟨negative, hw, _⟩ := written_valueLine (h ▸ isIdentifier_keyword scope)
  rw [h] at hw
  exact apply_scopeLabel hw nesting n m

/-- Every enum whose labels are not spelled like scopes can be declared in an open message: each of
its lines is accepted, it joins the enums with its values in order, and a label has the value of its
first pair. A line for any other label is rejected and changes nothing. -/
theorem applyAll_enumLines (e : EnumDef) (h : e.WellFormed) (m : Message)
    (lines : List (Nat × List Char)) (hlines : lines.map (·.2) = e.lines.map String.toList) :
    grammar.applyAll .inMessage m lines =
      { state := .inMessage
        current := { m with enums := m.enums ++ [e] }
        results := List.replicate lines.length (.ok {}) } ∧
    (∀ label value, e.value? label = some value ↔
      ∃ before after, e.values = before ++ ⟨label, value⟩ :: after ∧
        ∀ v ∈ before, v.label ≠ label) ∧
    (∀ label, e.value? label = none ↔ ∀ v ∈ e.values, v.label ≠ label) ∧
    ∀ (v : EnumValue) (scope : Scope), v.label = scope.keyword → ∀ nesting n m,
      grammar.apply nesting v.declaration.toList n m =
        { state := nesting
          current := m
          result := .error (.rejected v.declaration.toList .malformedField) } :=
  ⟨applyAll_lines h hlines m, fun _ _ => EnumDef.value?_eq_some, fun _ => EnumDef.value?_eq_none,
    fun _ _ hscope => apply_declaration_of_scopeLabel hscope⟩

/-- An enum with keywords for its name and its labels, one of them used twice. -/
theorem applyAll_enumLines_runs :
    (grammar.applyAll .inMessage { name := "M" }
      [(2, "enum enum \x7b".toList), (3, "message = -1;".toList), (5, "package = 2;".toList),
        (5, "message = 3;".toList), (6, "\x7d".toList)]).current =
      { name := "M", enums := [⟨"enum", [⟨"message", -1⟩, ⟨"package", 2⟩, ⟨"message", 3⟩]⟩] } ∧
    EnumDef.value? ⟨"enum", [⟨"message", -1⟩, ⟨"package", 2⟩, ⟨"message", 3⟩]⟩ "message" =
      some (-1) := by
  have hrun := applyAll_enumLines ⟨"enum", [⟨"message", -1⟩, ⟨"package", 2⟩, ⟨"message", 3⟩]⟩
    (by decide) { name := "M" }
    [(2, "enum enum \x7b".toList), (3, "message = -1;".toList), (5, "package = 2;".toList),
      (5, "message = 3;".toList), (6, "\x7d".toList)] (by decide)
  rw [hrun.1]
  exact ⟨rfl, (hrun.2.1 _ _).2 ⟨[], _, rfl, nofun⟩⟩

/-- An identifier that is no label: the lines of its enum declare the enum without the value. -/
theorem applyAll_scopeLabel_rejected :
    isIdentifier "required".toList = true ∧
    EnumDef.lines ⟨"E", [⟨"required", 1⟩]⟩ = ["enum E \x7b", "required = 1;", "\x7d"] ∧
    grammar.applyAll .inMessage { name := "M" }
      [(2, "enum E \x7b".toList), (3, "required = 1;".toList), (4, "\x7d".toList)] =
      { state := .inMessage
        current := { name := "M", enums := [{ name := "E" }] }
        results :=
          [.ok {}, .error (.rejected "required = 1;".toList .malformedField), .ok {}] } := by
  have hopen : "enum E \x7b".toList = (enumLine "E").toList := by decide
  have hvalue : "required = 1;".toList = (EnumValue.mk "required" 1).declaration.toList := by decide
  refine ⟨by decide, by decide, ?_⟩
  rw [hopen, applyAll_cons_of_takes (says_enumLine 2 (by decide)) .enumStart, hvalue,
    LineRules.applyAll, @apply_declaration_of_scopeLabel _ .required rfl]
  simp only [applyAll_cons_of_takes (says_blockEnd 4) .enumEnd]
  rfl

end ProtoSchema
