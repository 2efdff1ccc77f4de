import Mathlib.Logic.Basic
import ProtoSchema.Grammar
import ProtoSchema.Proofs.Written

/-!
# Clauses

A clause is what an accepted line says: the statement on it, with its numeral read as the number it
denotes. `Takes` lists what each clause does in each place where it may stand; no other clause is
accepted anywhere.

Results:
* `ofLine?_eq_some`: `Clause.ofLine?` computes what a line says;
* `endBlock_eq_ok`, `startMessage_eq_ok`, `startEnum_eq_ok`, `declarePackage_eq_ok`,
  `ignoreOption_eq_ok`, `addField_eq_ok`, `addEnumValue_eq_ok`: what each kind of line does;
* `step_eq_ok`: a line is accepted exactly when it says a clause that may stand there, and does
  what `Takes` lists;
* `step_eq_error`: a line that is not accepted is rejected with a shown text and a reason.
-/
namespace ProtoSchema

open Text

/-- What an accepted line says. -/
inductive Clause
  | blockEnd
  | package (name : String)
  /-- A message starts on this line. -/
  | messageStart (name : String) (line : Nat)
  | enumStart (name : String)
  | field (f : Field)
  | enumValue (v : EnumValue)
  | option (name value : String)
  deriving DecidableEq, Repr

/-- The declaration of a field with this numeral for its id. -/
def Field.decl (f : Field) (digits : List Char) : FieldDecl :=
  { scope := f.scope, type := f.type, name := f.name, digits, default? := f.default? }

/-- What a line says, given with its number. The numeral of a field denotes a positive 32-bit
number and that of an enum value a signed one, both in ASCII digits. -/
inductive Says : Nat × List Char → Clause → Prop
  | blockEnd {n : Nat} {line : List Char} : Statement.Written .blockEnd line →
      Says (n, line) .blockEnd
  | package {n : Nat} {line : List Char} {name : String} :
      Statement.Written (.package name) line → Says (n, line) (.package name)
  | messageStart {n : Nat} {line : List Char} {name : String} :
      Statement.Written (.messageStart name) line → Says (n, line) (.messageStart name n)
  | enumStart {n : Nat} {line : List Char} {name : String} :
      Statement.Written (.enumStart name) line → Says (n, line) (.enumStart name)
  | field {n : Nat} {line digits : List Char} {f : Field} :
      Statement.Written (.field (f.decl digits)) line → natOfDigits? digits = some f.id.toNat →
      f.id ≠ 0 → f.line = n → Says (n, line) (.field f)
  | enumValue {n k : Nat} {line digits : List Char} {negative : Bool} {v : EnumValue} :
      Statement.Written (.enumValue v.label negative digits) line →
      (∀ scope : Scope, v.label ≠ scope.keyword) → natOfDigits? digits = some k →
      v.value.toInt = (if negative then -(k : Int) else k) → Says (n, line) (.enumValue v)
  | option {n : Nat} {line : List Char} {name value : String} :
      Statement.Written (.option name value) line → Says (n, line) (.option name value)

theorem Says.start_line {numbered : Nat × List Char} {name : String} {line : Nat}
    (h : Says numbered (.messageStart name line)) : line = numbered.1 := by
  cases h
  rfl

theorem Says.line_eq {n : Nat} {line : List Char} {f : Field} (h : Says (n, line) (.field f)) :
    f.line = n := by
  cases h
  assumption

namespace Grammar

/-- What a clause on line `n` does to the message under construction, in the place where it
stands. -/
inductive Takes (n : Nat) : Nesting → Message → Clause → Accepted → Prop
  | messageStart {m : Message} {name : String} {line : Nat} :
      Takes n .topLevel m (.messageStart name line)
        { nesting := .inMessage, current := { m with name, line }
          events := [.messageStarted name line] }
  | messageEnd {m : Message} :
      Takes n .inMessage m .blockEnd
        { nesting := .topLevel, current := m, signal := { closed := true }
          events := [.messageEnded m.name m.fields.length] }
  | enumStart {m : Message} {name : String} :
      Takes n .inMessage m (.enumStart name)
        { nesting := .inEnum, current := { m with enums := m.enums ++ [{ name }] }
          events := [.enumStarted name m.name] }
  | enumEnd {m : Message} : Takes n .inEnum m .blockEnd { nesting := .inMessage, current := m }
  | field {m : Message} {f : Field} :
      Takes n .inMessage m (.field f)
        { nesting := .inMessage, current := { m with fields := m.fields ++ [f] } }
  | enumValue {m : Message} {enums : List EnumDef} {e : EnumDef} {v : EnumValue} :
      m.enums = enums ++ [e] →
      Takes n .inEnum m (.enumValue v)
        { nesting := .inEnum
          current := { m with enums := enums ++ [{ e with values := e.values ++ [v] }] } }
  | package {nesting : Nesting} {m : Message} {name : String} : nesting ≠ .inEnum →
      Takes n nesting m (.package name)
        { nesting, current := m, signal := { package? := some name }
          events := [.packageDeclared name n] }
  | option {nesting : Nesting} {m : Message} {name value : String} : nesting ≠ .inEnum →
      Takes n nesting m (.option name value)
        { nesting, current := m, events := [.optionIgnored name value n] }

/-! ## Numerals -/

theorem fieldId_eq_ok {digits : List Char} {id : UInt32} :
    fieldId digits = .ok id ↔ natOfDigits? digits = some id.toNat ∧ id ≠ 0 := by
  have hzero : id ≠ 0 ↔ id.toNat ≠ 0 := by
    rw [ne_eq, ne_eq, ← UInt32.toNat_inj, UInt32.toNat_zero]
  unfold fieldId
  rw [hzero]
  cases natOfDigits? digits with
  | none => simp
  | some k =>
    simp only [Option.some.injEq]
    refine ⟨fun h => ?_, fun ⟨hk, hne⟩ => ?_⟩
    · split at h
      · cases h
      · next hne =>
        split at h
        · next hlt =>
          obtain rfl := Except.ok.inj h
          have hid : (UInt32.ofNat k).toNat = k := UInt32.toNat_ofNat_of_lt hlt
          exact ⟨hid.symm, by rwa [hid]⟩
        · cases h
    · subst hk
      rw [if_neg hne, if_pos id.toNat_lt, UInt32.ofNat_toNat]

theorem enumNumber_eq_ok {negative : Bool} {digits : List Char} {v : Int32} :
    enumNumber negative digits = .ok v ↔
      ∃ k : Nat, natOfDigits? digits = some k ∧
        v.toInt = (if negative then -(k : Int) else k) := by
  unfold enumNumber
  cases natOfDigits? digits with
  | none => simp
  | some k =>
    simp only [Option.some.injEq, exists_eq_left']
    generalize (if negative = true then -(k : Int) else k) = i
    refine ⟨fun h => ?_, fun h => ?_⟩
    · split at h
      · next hrange =>
        obtain rfl := Except.ok.inj h
        exact Int32.toInt_ofInt_of_le hrange.1 (Int.lt_add_one_of_le hrange.2)
      · cases h
    · subst h
      rw [if_pos ⟨v.minValue_le_toInt, v.toInt_le⟩, Int32.ofInt_toInt]

theorem declared_eq_ok {decl : FieldDecl} {n : Nat} {f : Field} :
    declared decl n = .ok f ↔
      decl = f.decl decl.digits ∧ natOfDigits? decl.digits = some f.id.toNat ∧ f.id ≠ 0 ∧
        f.line = n := by
  unfold declared
  refine ⟨fun h => ?_, fun ⟨hdecl, hdigits, hid, hline⟩ => ?_⟩
  · cases hid : fieldId decl.digits with
    | error reason => rw [hid] at h; cases h
    | ok id =>
      rw [hid] at h
      obtain rfl := Except.ok.inj h
      obtain ⟨hdigits, hne⟩ := fieldId_eq_ok.1 hid
      exact ⟨rfl, hdigits, hne, rfl⟩
  · rw [fieldId_eq_ok.2 ⟨hdigits, hid⟩, hdecl]
    obtain ⟨id, name, type, scope, default?, line⟩ := f
    obtain rfl : line = n := hline
    rfl

theorem addValue?_eq_some {enums enums' : List EnumDef} {v : EnumValue} :
    addValue? enums v = some enums' ↔
      ∃ init e, enums = init ++ [e] ∧ enums' = init ++ [{ e with values := e.values ++ [v] }] := by
  simp only [addValue?, Option.map_eq_some_iff, List.getLast?_eq_some_iff]
  refine ⟨fun ⟨e, ⟨init, henums⟩, h⟩ => ⟨init, e, henums, ?_⟩,
    fun ⟨init, e, henums, h⟩ => ⟨e, ⟨init, henums⟩, ?_⟩⟩
  · rw [← h, henums, List.dropLast_concat]
  · rw [h, henums, List.dropLast_concat]

end Grammar

/-! ## What a line says -/

/-- What a line says, given with its number; none if it says nothing in any place. -/
def Clause.ofLine? (numbered : Nat × List Char) : Option Clause :=
  match Statement.ofLine numbered.2 with
  | .ok .blockEnd => some .blockEnd
  | .ok (.package name) => some (.package name)
  | .ok (.messageStart name) => some (.messageStart name numbered.1)
  | .ok (.enumStart name) => some (.enumStart name)
  | .ok (.field decl) => (Grammar.declared decl numbered.1).toOption.map .field
  | .ok (.enumValue label negative digits) =>
    (Grammar.enumNumber negative digits).toOption.map fun value => .enumValue { label, value }
  | .ok (.option name value) => some (.option name value)
  | .error _ => none

theorem toOption_eq_some {ε α : Type} {x : Except ε α} {a : α} :
    x.toOption = some a ↔ x = .ok a := by
  cases x <;> simp [Except.toOption]

theorem Clause.ofLine?_eq_some {numbered : Nat × List Char} {clause : Clause} :
    Clause.ofLine? numbered = some clause ↔ Says numbered clause := by
  obtain ⟨n, line⟩ := numbered
  unfold Clause.ofLine?
  refine ⟨fun h => ?_, fun h => ?_⟩
  · split at h
    · next hread => cases h; exact .blockEnd (Statement.ofLine_eq_ok.1 hread).1
    · next hread => cases h; exact .package (Statement.ofLine_eq_ok.1 hread).1
    · next hread => cases h; exact .messageStart (Statement.ofLine_eq_ok.1 hread).1
    · next hread => cases h; exact .enumStart (Statement.ofLine_eq_ok.1 hread).1
    · next hread =>
      obtain ⟨f, hf, rfl⟩ := Option.map_eq_some_iff.1 h
      obtain ⟨hdecl, hdigits, hid, hline⟩ := Grammar.declared_eq_ok.1 (toOption_eq_some.1 hf)
      exact .field (hdecl ▸ (Statement.ofLine_eq_ok.1 hread).1) hdigits hid hline
    · next label negative digits hread =>
      obtain ⟨value, hvalue, rfl⟩ := Option.map_eq_some_iff.1 h
      obtain ⟨hw, hlabel⟩ := Statement.ofLine_eq_ok.1 hread
      obtain ⟨k, hk, hint⟩ := Grammar.enumNumber_eq_ok.1 (toOption_eq_some.1 hvalue)
      refine .enumValue hw (fun scope hscope => ?_) hk hint
      exact hlabel ⟨scope, negative, digits, by rw [← hscope]⟩
    · next hread => cases h; exact .option (Statement.ofLine_eq_ok.1 hread).1
    · cases h
  · cases h with
    | blockEnd hw => rw [Statement.ofLine_of_written hw (by simp [Statement.kind])]
    | package hw => rw [Statement.ofLine_of_written hw (by simp [Statement.kind])]
    | messageStart hw => rw [Statement.ofLine_of_written hw (by simp [Statement.kind])]
    | enumStart hw => rw [Statement.ofLine_of_written hw (by simp [Statement.kind])]
    | option hw => rw [Statement.ofLine_of_written hw (by simp [Statement.kind])]
    | @field n line digits f hw hdigits hid hline =>
      rw [Statement.ofLine_of_written hw (by simp [Statement.kind])]
      have hf : Grammar.declared (f.decl digits) n = .ok f :=
        Grammar.declared_eq_ok.2 ⟨rfl, hdigits, hid, hline⟩
      exact Option.map_eq_some_iff.2 ⟨f, toOption_eq_some.2 hf, rfl⟩
    | @enumValue n k line digits negative v hw hlabel hk hint =>
      have hscope : ¬ (Statement.enumValue v.label negative digits).HasScopeLabel := by
        intro h
        obtain ⟨scope, _, _, heq⟩ := h
        exact hlabel scope (Statement.enumValue.inj heq).1
      rw [Statement.ofLine_eq_ok.2 ⟨hw, hscope⟩]
      have hvalue := Grammar.enumNumber_eq_ok.2 ⟨k, hk, hint⟩
      exact Option.map_eq_some_iff.2 ⟨v.value, toOption_eq_some.2 hvalue, rfl⟩

theorem Says.ne_nil {entry : Nat × List Char} {clause : Clause} (h : Says entry clause) :
    entry.2 ≠ [] := by
  obtain ⟨n, line⟩ := entry
  rintro rfl
  rw [← Clause.ofLine?_eq_some] at h
  cases h

/-! ## Steps -/

namespace Grammar

theorem orReject_eq_ok {α : Type} {line : List Char} {x : Except Reason α} {a : α} :
    orReject line x = .ok a ↔ x = .ok a := by
  cases x <;> simp [orReject]

theorem orReject_eq_error {α : Type} {line : List Char} {x : Except Reason α} {fault : Fault} :
    orReject line x = .error fault ↔
      ∃ reason, x = .error reason ∧ fault = .rejected line reason := by
  cases x <;> simp [orReject, eq_comm]

theorem endBlock_eq_ok {nesting : Nesting} {m : Message} {a : Accepted} (n : Nat) :
    endBlock nesting m = .ok a ↔ Takes n nesting m .blockEnd a := by
  refine ⟨fun h => ?_, fun h => by cases h <;> rfl⟩
  cases nesting <;> cases h
  · exact .messageEnd
  · exact .enumEnd

theorem startMessage_eq_ok {nesting : Nesting} {name : String} {n : Nat} {m : Message}
    {a : Accepted} :
    startMessage nesting name n m = .ok a ↔ Takes n nesting m (.messageStart name n) a := by
  refine ⟨fun h => ?_, fun h => by cases h; rfl⟩
  cases nesting <;> cases h
  exact .messageStart

theorem startEnum_eq_ok {nesting : Nesting} {name : String} {m : Message} {a : Accepted} (n : Nat) :
    startEnum nesting name m = .ok a ↔ Takes n nesting m (.enumStart name) a := by
  refine ⟨fun h => ?_, fun h => by cases h; rfl⟩
  cases nesting <;> cases h
  exact .enumStart

theorem declarePackage_eq_ok {nesting : Nesting} {name : String} {n : Nat} {m : Message}
    {a : Accepted} :
    declarePackage nesting name n m = .ok a ↔ Takes n nesting m (.package name) a := by
  unfold declarePackage
  refine ⟨fun h => ?_, fun h => ?_⟩
  · split at h
    · cases h
    · next hnesting =>
      cases h
      exact .package hnesting
  · cases h with
    | package hnesting => rw [if_neg hnesting]

theorem ignoreOption_eq_ok {nesting : Nesting} {name value : String} {n : Nat} {m : Message}
    {a : Accepted} :
    ignoreOption nesting name value n m = .ok a ↔ Takes n nesting m (.option name value) a := by
  unfold ignoreOption
  refine ⟨fun h => ?_, fun h => ?_⟩
  · split at h
    · cases h
    · next hnesting =>
      cases h
      exact .option hnesting
  · cases h with
    | option hnesting => rw [if_neg hnesting]

theorem addField_eq_ok {nesting : Nesting} {decl : FieldDecl} {n : Nat} {m : Message}
    {a : Accepted} :
    addField nesting decl n m = .ok a ↔ ∃ f, declared decl n = .ok f ∧
      Takes n nesting m (.field f) a := by
  unfold addField
  refine ⟨fun h => ?_, fun ⟨f, hf, h⟩ => ?_⟩
  · split at h
    · cases h
    · next hnesting =>
      cases hf : declared decl n with
      | error reason => rw [hf] at h; cases h
      | ok f =>
        rw [hf] at h
        obtain rfl := Except.ok.inj h
        obtain rfl := Classical.not_not.1 hnesting
        exact ⟨f, rfl, .field⟩
  · cases h
    rw [hf]; rfl

theorem addEnumValue_eq_ok {nesting : Nesting} {label : String} {negative : Bool}
    {digits : List Char} {m : Message} {a : Accepted} (n : Nat) :
    addEnumValue nesting label negative digits m = .ok a ↔
      ∃ value, enumNumber negative digits = .ok value ∧
        Takes n nesting m (.enumValue { label, value }) a := by
  unfold addEnumValue
  refine ⟨fun h => ?_, fun ⟨value, hvalue, h⟩ => ?_⟩
  · split at h
    · cases h
    · next hnesting =>
      obtain rfl := Classical.not_not.1 hnesting
      cases hvalue : enumNumber negative digits with
      | error reason => rw [hvalue] at h; cases h
      | ok value =>
        rw [hvalue] at h
        cases henums : addValue? m.enums { label, value } with
        | none => simp [henums, bind, Except.bind] at h
        | some enums =>
          simp only [henums, bind, Except.bind, pure, Except.pure, Except.ok.injEq] at h
          obtain ⟨init, e, hm, rfl⟩ := addValue?_eq_some.1 henums
          exact ⟨value, rfl, h ▸ .enumValue hm⟩
  · cases h with
    | enumValue hm =>
      rw [if_neg (by simp), hvalue]
      simp [bind, Except.bind, addValue?_eq_some.2 ⟨_, _, hm, rfl⟩, pure, Except.pure]

/-- A line is accepted exactly when it says a clause that may stand there. -/
theorem step_eq_ok {nesting : Nesting} {line : List Char} {n : Nat} {m : Message} {a : Accepted} :
    step nesting line n m = .ok a ↔
      ∃ clause, Says (n, line) clause ∧ Takes n nesting m clause a := by
  simp only [← Clause.ofLine?_eq_some]
  unfold step Clause.ofLine?
  cases Statement.ofLine line with
  | error reason => exact ⟨nofun, nofun⟩
  | ok statement =>
    cases statement with
    | blockEnd => simp only [Option.some.injEq, exists_eq_left', endBlock_eq_ok n]
    | messageStart name => simp only [Option.some.injEq, exists_eq_left', startMessage_eq_ok]
    | enumStart name => simp only [Option.some.injEq, exists_eq_left', startEnum_eq_ok n]
    | package name =>
      simp only [Option.some.injEq, exists_eq_left', orReject_eq_ok, declarePackage_eq_ok]
    | option name value =>
      simp only [Option.some.injEq, exists_eq_left', orReject_eq_ok, ignoreOption_eq_ok]
    | field decl =>
      simp only [orReject_eq_ok, addField_eq_ok, Option.map_eq_some_iff, toOption_eq_some,
        exists_exists_and_eq_and]
    | enumValue label negative digits =>
      simp only [orReject_eq_ok, addEnumValue_eq_ok n, Option.map_eq_some_iff, toOption_eq_some,
        exists_exists_and_eq_and]

theorem step_eq_error {nesting : Nesting} {line : List Char} {n : Nat} {m : Message} {fault : Fault}
    (h : step nesting line n m = .error fault) :
    ∃ shown reason, fault = .unrecognizedLine shown reason := by
  have horReject : ∀ {x : Except Reason Accepted}, orReject line x = .error fault →
      ∃ shown reason, fault = .unrecognizedLine shown reason := by
    intro x hx
    obtain ⟨reason, _, rfl⟩ := orReject_eq_error.1 hx
    exact ⟨_, _, rfl⟩
  unfold step at h
  split at h
  · cases h; exact ⟨_, _, rfl⟩
  · cases nesting <;> cases h; exact ⟨_, _, rfl⟩
  · cases nesting <;> cases h <;> exact ⟨_, _, rfl⟩
  · cases nesting <;> cases h <;> exact ⟨_, _, rfl⟩
  · exact horReject h
  · exact horReject h
  · exact horReject h
  · exact horReject h

end Grammar

end ProtoSchema
