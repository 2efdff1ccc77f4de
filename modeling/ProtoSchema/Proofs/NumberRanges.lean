import Mathlib.Data.List.Induction
import Mathlib.Data.Nat.Digits.Defs
import ProtoSchema.Proofs.LineEffects

/-!
# Numbers in range

The ids of fields and the values of enums are written with any number of decimal digits of any
script. A number is taken as it stands on the line, or its line is rejected: it is never cut to the
bits of its type, and digits of other scripts are never read as something else.

**The number of a numeral.** `numeralValue` is the sum of its digits by their places. Reading goes
from left to right instead and keeps the number so far (`natOfDigits?_eq`).

Results:
* `fieldId_eq`, `enumNumber_eq`: which numerals denote an id or a value, and what the others are
  rejected for;
* `apply_field_of_written`, `apply_enumValue_of_written`: the line of a field, and that of a value;
* `apply_numeral`: both together, for each such line.
-/
namespace ProtoSchema

open Text

/-! ## Numerals -/

/-- The number that digits denote: each counts as often as its place says, the last one once. -/
def numeralValue (digits : List Char) : Nat :=
  Nat.ofDigits 10 (digits.reverse.map fun d => d.toNat - '0'.toNat)

/-- The number of a numeral behind its sign. -/
def signedValue (negative : Bool) (digits : List Char) : Int :=
  if negative then -numeralValue digits else numeralValue digits

theorem numeralValue_concat (digits : List Char) (d : Char) :
    numeralValue (digits ++ [d]) = (d.toNat - '0'.toNat) + 10 * numeralValue digits := by
  rw [numeralValue, List.reverse_append, List.reverse_singleton, List.singleton_append,
    List.map_cons, Nat.ofDigits_cons, numeralValue]

/-- Both ways to add up digits come to the same number. -/
theorem ofDigitChars_eq_numeralValue (digits : List Char) :
    Nat.ofDigitChars 10 digits 0 = numeralValue digits := by
  -- On the last digit: the number in front of it counts ten times either way.
  induction digits using List.reverseRecOn with
  | nil => rfl
  | append_singleton digits d ih =>
    rw [numeralValue_concat, Nat.ofDigitChars_append, ih, Nat.ofDigitChars_cons,
      Nat.ofDigitChars_nil, Nat.add_comm]

/-- The digits are all among those of ASCII. -/
def AsciiDigits (digits : List Char) : Prop :=
  ∀ d ∈ digits, d.isDigit = true

instance (digits : List Char) : Decidable (AsciiDigits digits) :=
  List.decidableBAll (fun d : Char => d.isDigit = true) digits

theorem natOfDigits?_eq (digits : List Char) :
    natOfDigits? digits = if AsciiDigits digits then some (numeralValue digits) else none :=
  if_congr List.all_eq_true (congrArg some (ofDigitChars_eq_numeralValue digits)) rfl

namespace Grammar

theorem fieldId_eq (digits : List Char) :
    fieldId digits =
      if AsciiDigits digits ∧ numeralValue digits ≤ 4294967295 then
        if numeralValue digits = 0 then .error .fieldIdNotPositive
        else .ok (UInt32.ofNat (numeralValue digits))
      else .error .fieldIdOutOfRange := by
  unfold fieldId
  rw [natOfDigits?_eq]
  by_cases hdigits : AsciiDigits digits
  · simp only [hdigits, if_true, true_and, UInt32.size]
    by_cases hzero : numeralValue digits = 0
    · simp [hzero]
    · simp only [hzero, if_false]
      exact if_congr Nat.lt_succ_iff rfl rfl
  · simp [hdigits]

theorem enumNumber_eq (negative : Bool) (digits : List Char) :
    enumNumber negative digits =
      if AsciiDigits digits ∧ -2147483648 ≤ signedValue negative digits ∧
          signedValue negative digits ≤ 2147483647 then
        .ok (Int32.ofInt (signedValue negative digits))
      else .error .enumValueOutOfRange := by
  unfold enumNumber
  rw [natOfDigits?_eq]
  by_cases hdigits : AsciiDigits digits
  · simp only [hdigits, if_true, true_and]
    rfl
  · simp [hdigits]

end Grammar

/-! ## Lines with numbers -/

section Lines

variable {line : List Char}

/-- The field that is declared on this line, with this id for its numeral. -/
def FieldDecl.withId (decl : FieldDecl) (id : UInt32) (line : Nat) : Field :=
  { id, name := decl.name, type := decl.type, scope := decl.scope, default? := decl.default?, line }

/-- What the line of a field does in an open message is up to its numeral. -/
theorem apply_field_of_written {decl : FieldDecl} (hw : Statement.Written (.field decl) line)
    (n : Nat) (m : Message) :
    grammar.apply .inMessage line n m =
      match Grammar.fieldId decl.digits with
      | .ok id =>
        { state := .inMessage
          current := { m with fields := m.fields ++ [decl.withId id n] }
          result := .ok {} }
      | .error reason =>
        { state := .inMessage, current := m, result := .error (.rejected line reason) } := by
  have hread := Statement.ofLine_of_written hw (by simp [Statement.kind])
  cases hid : Grammar.fieldId decl.digits with
  | error reason =>
    refine apply_of_step_eq_error ?_
    simp only [Grammar.step, hread, Grammar.addField, Grammar.declared, hid]
    rfl
  | ok id =>
    obtain ⟨hdigits, hne⟩ := Grammar.fieldId_eq_ok.1 hid
    have hsaid : Says (n, line) (.field (decl.withId id n)) := .field hw hdigits hne rfl
    exact apply_of_takes hsaid .field

/-- What the line of a value does in an open enum is up to its numeral. -/
theorem apply_enumValue_of_written {label : String} {negative : Bool} {digits : List Char}
    (hw : Statement.Written (.enumValue label negative digits) line)
    (hlabel : ∀ scope : Scope, label ≠ scope.keyword) {m : Message} {enums : List EnumDef}
    {e : EnumDef} (henums : m.enums = enums ++ [e]) (n : Nat) :
    grammar.apply .inEnum line n m =
      match Grammar.enumNumber negative digits with
      | .ok value =>
        { state := .inEnum
          current := { m with
            enums := enums ++ [{ e with values := e.values ++ [{ label, value }] }] }
          result := .ok {} }
      | .error reason =>
        { state := .inEnum, current := m, result := .error (.rejected line reason) } := by
  have hread : Statement.ofLine line = .ok (.enumValue label negative digits) := by
    refine Statement.ofLine_eq_ok.2 ⟨hw, fun ⟨scope, _, _, heq⟩ => hlabel scope ?_⟩
    exact (Statement.enumValue.inj heq).1
  cases hvalue : Grammar.enumNumber negative digits with
  | error reason =>
    refine apply_of_step_eq_error ?_
    simp only [Grammar.step, hread, Grammar.addEnumValue, hvalue]
    rfl
  | ok value =>
    obtain ⟨k, hdigits, hint⟩ := Grammar.enumNumber_eq_ok.1 hvalue
    exact apply_of_takes (.enumValue hw hlabel hdigits hint) (.enumValue henums)

end Lines

/-- What a number comes to on the line of a field in an open message, and on the line of a value in
an open enum whose label is not spelled like a scope, for all decimal digits of any script. In ASCII
digits an id from 1 to 4294967295 joins with its field as it is, and 0 is rejected as not positive.
In ASCII digits a value from -2147483648 to 2147483647 joins its enum as it is. All other numbers
are rejected as out of range, and nothing changes. -/
theorem apply_numeral (line : List Char) (n : Nat) (m : Message) :
    (∀ decl, Statement.Written (.field decl) line →
      let reply := grammar.apply .inMessage line n m
      let value := numeralValue decl.digits
      (AsciiDigits decl.digits → 1 ≤ value → value ≤ 4294967295 →
        ∃ id : UInt32, id.toNat = value ∧ reply =
          { state := .inMessage
            current := { m with fields := m.fields ++ [decl.withId id n] }
            result := .ok {} }) ∧
      (AsciiDigits decl.digits → value = 0 → reply =
        { state := .inMessage
          current := m
          result := .error (.rejected line .fieldIdNotPositive) }) ∧
      (¬ (AsciiDigits decl.digits ∧ value ≤ 4294967295) → reply =
        { state := .inMessage
          current := m
          result := .error (.rejected line .fieldIdOutOfRange) })) ∧
    ∀ label negative digits enums e, Statement.Written (.enumValue label negative digits) line →
      (∀ scope : Scope, label ≠ scope.keyword) → m.enums = enums ++ [e] →
      let reply := grammar.apply .inEnum line n m
      let number := signedValue negative digits
      (AsciiDigits digits ∧ -2147483648 ≤ number ∧ number ≤ 2147483647 →
        ∃ value : Int32, value.toInt = number ∧ reply =
          { state := .inEnum
            current := { m with
              enums := enums ++ [{ e with values := e.values ++ [{ label, value }] }] }
            result := .ok {} }) ∧
      (¬ (AsciiDigits digits ∧ -2147483648 ≤ number ∧ number ≤ 2147483647) → reply =
        { state := .inEnum
          current := m
          result := .error (.rejected line .enumValueOutOfRange) }) := by
  refine ⟨fun decl hw => ?_, fun label negative digits enums e hw hlabel henums => ?_⟩
  · intro reply value
    have hreply : reply = _ := apply_field_of_written hw n m
    have hid := Grammar.fieldId_eq decl.digits
    refine ⟨fun hdigits hpos hle => ⟨UInt32.ofNat value, ?_, ?_⟩, fun hdigits hzero => ?_,
      fun hnone => ?_⟩
    · exact UInt32.toNat_ofNat_of_lt (Nat.lt_succ_of_le hle)
    · rw [if_pos ⟨hdigits, hle⟩, if_neg (Nat.ne_of_gt hpos)] at hid
      rw [hreply, hid]
    · have hle : value ≤ 4294967295 := hzero.le.trans (Nat.zero_le _)
      rw [if_pos ⟨hdigits, hle⟩, if_pos hzero] at hid
      rw [hreply, hid]
    · rw [if_neg hnone] at hid
      rw [hreply, hid]
  · intro reply number
    have hreply : reply = _ := apply_enumValue_of_written hw hlabel henums n
    have hvalue := Grammar.enumNumber_eq negative digits
    refine ⟨fun hrange => ⟨Int32.ofInt number, ?_, ?_⟩, fun hnone => ?_⟩
    · exact Int32.toInt_ofInt_of_le hrange.2.1 (Int.lt_add_one_of_le hrange.2.2)
    · rw [if_pos hrange] at hvalue
      rw [hreply, hvalue]
    · rw [if_neg hnone] at hvalue
      rw [hreply, hvalue]

/-- The largest id behind zeros, one more than it, and the digit one of another script; the least
value of an enum, and one less. -/
theorem apply_numeral_runs :
    (∃ id : UInt32, id.toNat = 4294967295 ∧
      (grammar.apply .inMessage "optional bool b = 004294967295;".toList 2 {}).current.fields =
        [{ id, name := "b", type := .scalar .bool, scope := .optional, line := 2 }]) ∧
    (grammar.apply .inMessage "optional bool b = 4294967296;".toList 2 {}).result =
      .error (.rejected "optional bool b = 4294967296;".toList .fieldIdOutOfRange) ∧
    (grammar.apply .inMessage "optional bool b = \u0661;".toList 2 {}).result =
      .error (.rejected "optional bool b = \u0661;".toList .fieldIdOutOfRange) ∧
    (∃ value : Int32, value.toInt = -2147483648 ∧
      (grammar.apply .inEnum "A = -2147483648;".toList 3 { enums := [{ name := "E" }] }).current =
        { enums := [{ name := "E", values := [{ label := "A", value }] }] }) ∧
    (grammar.apply .inEnum "A = -2147483649;".toList 3 { enums := [{ name := "E" }] }).result =
      .error (.rejected "A = -2147483649;".toList .enumValueOutOfRange) := by
  have hfield (digits line : List Char) (hread : Statement.ofLine line =
      .ok (.field ⟨.optional, .scalar .bool, "b", digits, none⟩)) :=
    (apply_numeral line 2 {}).1 _ (Statement.ofLine_eq_ok.1 hread).1
  have hvalue (digits line : List Char)
      (hread : Statement.ofLine line = .ok (.enumValue "A" true digits)) :=
    (apply_numeral line 3 { enums := [{ name := "E" }] }).2 "A" true digits [] _
      (Statement.ofLine_eq_ok.1 hread).1 (fun scope => by cases scope <;> decide) rfl
  refine ⟨?_, ?_, ?_, ?_, ?_⟩
  · obtain ⟨id, hid, hreply⟩ := (hfield "004294967295".toList
      "optional bool b = 004294967295;".toList (by rfl)).1 (by decide) (by decide) (by decide)
    exact ⟨id, hid, by rw [hreply]; rfl⟩
  · rw [(hfield "4294967296".toList _ (by rfl)).2.2 (by decide)]
  · rw [(hfield ['\u0661'] _ (by rfl)).2.2 (by decide)]
  · obtain ⟨value, hint, hreply⟩ :=
      (hvalue "2147483648".toList "A = -2147483648;".toList (by rfl)).1 (by decide)
    exact ⟨value, hint, by rw [hreply]; rfl⟩
  · rw [(hvalue "2147483649".toList _ (by rfl)).2 (by decide)]

end ProtoSchema
