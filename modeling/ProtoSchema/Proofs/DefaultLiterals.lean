import ProtoSchema.Proofs.LineEffects

/-!
# Literals of defaults

The default of a field is the text between the sign of equality and the last closing bracket of the
line, without the blanks around it, whatever else stands in that text. Only a text of nothing but
blanks is not trimmed to nothing: its last blank stays and is the default. So a field may have a
blank default, and whether there is any blank between the sign and the bracket decides whether the
line is accepted.

**Slots.** A `DefaultSlot` is a line with a gap: a declaration of a field in any layout, up to the
text between the sign of equality and the bracket.

Results:
* `isLiteral_of_not_allBlank`, `isLiteral_of_allBlank`: the literal of a text;
* `DefaultSlot.declares`: what the line says if its text holds a literal;
* `DefaultSlot.ofLine_nil`: without a text the line says nothing;
* `DefaultSlot.exists_line`: every field with a default is declared on such a line;
* `apply_defaultLine`: what the line does in an open message, for every text.
-/
namespace ProtoSchema

open Text

/-! ## Texts and their literals -/

theorem isLiteral_of_not_allBlank {text : List Char} (h : ¬ AllBlank text) (hline : '\n' ∉ text) :
    IsLiteral text (trim text) := by
  obtain ⟨v, w, hv, hw, htext, hstart, hend⟩ := exists_trim text
  have hne : trim text ≠ [] := fun hnil => h (allBlank_of_trim_eq_nil hnil)
  have hinner : '\n' ∉ trim text := fun hmem =>
    hline (htext ▸ List.mem_append_left _ (List.mem_append_right _ hmem))
  have hliteral := IsLiteral.trimmed hv hw hne hinner hstart hend
  rwa [← htext] at hliteral

/-- Of nothing but blanks the last one is the literal. -/
theorem isLiteral_of_allBlank {before : List Char} {c : Char} (h : AllBlank (before ++ [c]))
    (hline : '\n' ∉ before ++ [c]) : IsLiteral (before ++ [c]) [c] := by
  obtain ⟨hbefore, hc⟩ := h.of_append
  have hne : c ≠ '\n' := fun heq => hline (heq ▸ List.mem_append_right _ List.mem_cons_self)
  exact .blank hbefore (allBlank_cons.1 hc).1 hne (by simp)

/-! ## Lines with a default -/

/-- What may stand between two tokens. -/
abbrev Blanks := { cs : List Char // AllBlank cs }

/-- The declaration of a field, without the text of its default. The letters are the blanks in front
of its tokens. -/
structure DefaultSlot where
  scope : Scope
  (type name digits : List Char)
  id : UInt32
  (u v w x y z a b c : Blanks)
  v_ne_nil : v.1 ≠ []
  isTypePath : IsTypePath type
  w_ne_nil : w.1 ≠ []
  isIdentifier : isIdentifier name = true
  digits_ne_nil : digits ≠ []
  isDecimalDigit : ∀ d ∈ digits, isDecimalDigit d = true
  id_eq : natOfDigits? digits = some id.toNat
  id_ne_zero : id ≠ 0

namespace DefaultSlot

variable {slot : DefaultSlot} {text literal : List Char} {n : Nat}

/-- What stands behind the id. -/
def tail (slot : DefaultSlot) (text : List Char) : List Char :=
  "[".toList ++ slot.a.1 ++ "default".toList ++ slot.b.1 ++ "=".toList ++ text ++ "]".toList ++
    slot.c.1 ++ ";".toList

/-- The line with this text for the default. -/
def line (slot : DefaultSlot) (text : List Char) : List Char :=
  slot.u.1 ++ slot.scope.keyword.toList ++ slot.v.1 ++ slot.type ++ slot.w.1 ++ slot.name ++
    slot.x.1 ++ "=".toList ++ slot.y.1 ++ slot.digits ++ slot.z.1 ++ slot.tail text

/-- The field that is declared on line `n` with this literal. -/
def field (slot : DefaultSlot) (n : Nat) (literal : List Char) : Field :=
  { id := slot.id
    name := String.ofList slot.name
    type := FieldType.ofToken (String.ofList slot.type)
    scope := slot.scope
    default? := some (String.ofList literal)
    line := n }

theorem declares (h : IsLiteral text literal) :
    Says (n, slot.line text) (.field (slot.field n literal)) :=
  .field
    (.field slot.u.2 slot.v.2 slot.v_ne_nil slot.isTypePath slot.w.2 slot.w_ne_nil
      slot.isIdentifier slot.x.2 slot.y.2 slot.digits_ne_nil slot.isDecimalDigit slot.z.2
      (.default slot.a.2 slot.b.2 h slot.c.2))
    slot.id_eq slot.id_ne_zero rfl

theorem kindOf_line (slot : DefaultSlot) (text : List Char) :
    Statement.kindOf (slot.line text) = .field := by
  simp only [line, List.append_assoc]
  rw [Statement.kindOf_keyword slot.u.2 (by cases slot.scope <;> decide)
    (Statement.all_isNameChar_keyword slot.scope) slot.v.2 slot.v_ne_nil
    (typePath_ne_nil slot.isTypePath) (isDottedChar_of_mem_typePath slot.isTypePath)
    not_isDottedChar_of_isBlank (by decide)]
  cases slot.scope <;> decide

theorem startsLikeField_line (slot : DefaultSlot) (text : List Char) :
    Statement.startsLikeField (slot.line text) = true := by
  refine Statement.startsLikeField_iff.2 ⟨slot.u.1, slot.scope, _, slot.u.2,
    by simp only [line, List.append_assoc]; rfl, ?_⟩
  exact notAhead_append_of_ne_nil (slot.v.2.notAhead not_isWord_of_isBlank) slot.v_ne_nil

theorem notAhead_tail {cls : Char → Bool} (h : cls '[' = false) :
    NotAhead cls (slot.tail text) := by
  simp only [tail, List.append_assoc]
  exact notAhead_cons.2 h

theorem fieldEnd?_tail_nil (slot : DefaultSlot) : Statement.fieldEnd? (slot.tail []) = none := by
  have hne : slot.tail [] ≠ [';'] := by simp [tail]
  have hdefault : Statement.default? (slot.tail []) = none :=
    Statement.default?_eq slot.a.2 slot.b.2 slot.c.2
  rw [Statement.fieldEnd?, if_neg hne]
  simp only [Functor.map, StateT.map, hdefault]
  rfl

theorem not_written_nil (slot : DefaultSlot) (s : Statement) : ¬ s.Written (slot.line []) := by
  intro hs
  -- By its opening the line can only be a field, and the reader of fields stops at the gap.
  have hread := Statement.whole?_of_written hs
  rw [← hs.kind_eq, kindOf_line, Statement.Kind.reader, Reader.whole?_eq_some, line,
    Statement.field?_eq slot.u.2 slot.v.2 slot.v_ne_nil slot.isTypePath slot.w.2 slot.w_ne_nil
      slot.isIdentifier slot.x.2 slot.y.2 slot.digits_ne_nil slot.isDecimalDigit slot.z.2
      (notAhead_tail (by decide)) (notAhead_tail (by decide)), fieldEnd?_tail_nil] at hread
  cases hread

theorem ofLine_nil (slot : DefaultSlot) :
    Statement.ofLine (slot.line []) = .error .malformedField := by
  refine Statement.ofLine_eq_error.2 ⟨fun s hs => absurd hs (slot.not_written_nil s), ?_⟩
  rw [if_pos (slot.startsLikeField_line [])]

/-- Each line that declares a field with a default comes from a slot. -/
theorem exists_line {line : List Char} {f : Field} {literal : String}
    (h : Says (n, line) (.field f)) (hdefault : f.default? = some literal) :
    ∃ (slot : DefaultSlot) (text : List Char),
      line = slot.line text ∧ IsLiteral text literal.toList := by
  cases h with
  | @field n line numeral f hw hid hne hline =>
    generalize hdecl : f.decl numeral = decl at hw
    cases hw with
    | @field u v type w name x y digits z tail scope literal? hu hv hvne htype hw hwne hname hx hy
        hdigits hall hz htail =>
      obtain rfl : numeral = digits := congrArg FieldDecl.digits hdecl
      have hliteral : f.default? = literal?.map String.ofList := congrArg FieldDecl.default? hdecl
      cases htail with
      | plain => cases hliteral.symm.trans hdefault
      | @default a b text c inner ha hb hinner hc =>
        let slot : DefaultSlot :=
          { scope, type, name, digits := numeral, id := f.id
            u := ⟨u, hu⟩, v := ⟨v, hv⟩, w := ⟨w, hw⟩, x := ⟨x, hx⟩, y := ⟨y, hy⟩, z := ⟨z, hz⟩
            a := ⟨a, ha⟩, b := ⟨b, hb⟩, c := ⟨c, hc⟩
            v_ne_nil := hvne, isTypePath := htype, w_ne_nil := hwne, isIdentifier := hname
            digits_ne_nil := hdigits, isDecimalDigit := hall, id_eq := hid, id_ne_zero := hne }
        obtain rfl := Option.some.inj (hliteral.symm.trans hdefault)
        refine ⟨slot, text, rfl, ?_⟩
        rwa [String.toList_ofList]

/-- The slot of `optional string s = 1 [default =];`. -/
def plain : DefaultSlot :=
  let space : Blanks := ⟨" ".toList, List.all_eq_true.1 (by decide)⟩
  let nothing : Blanks := ⟨[], allBlank_nil⟩
  { scope := .optional
    type := "string".toList
    name := "s".toList
    digits := "1".toList
    id := 1
    u := nothing
    v := space
    w := space
    x := space
    y := space
    z := space
    a := nothing
    b := space
    c := nothing
    v_ne_nil := by decide
    isTypePath := isTypeName_iff.1 (by decide)
    w_ne_nil := by decide
    isIdentifier := by decide
    digits_ne_nil := by decide
    isDecimalDigit := List.all_eq_true.1 (by decide)
    id_eq := by decide
    id_ne_zero := by decide }

end DefaultSlot

/-! ## Answers -/

section Answers

variable {text literal : List Char}

theorem apply_line_of_isLiteral (slot : DefaultSlot) (h : IsLiteral text literal) (n : Nat)
    (m : Message) :
    grammar.apply .inMessage (slot.line text) n m =
      { state := .inMessage
        current := { m with fields := m.fields ++ [slot.field n literal] }
        result := .ok {} } :=
  apply_of_takes (slot.declares h) .field

theorem apply_line_nil (slot : DefaultSlot) (n : Nat) (m : Message) :
    grammar.apply .inMessage (slot.line []) n m =
      { state := .inMessage
        current := m
        result := .error (.rejected (slot.line []) .malformedField) } :=
  apply_of_step_eq_error (by rw [Grammar.step, slot.ofLine_nil])

/-- What a line with a default does in an open message, for every text in the gap. Without a text
the line is rejected and changes nothing. A text that is not blank gives a field whose default is
that text without the blanks around it. Of a blank text the last blank is the default. -/
theorem apply_defaultLine (slot : DefaultSlot) (text : List Char) (hline : '\n' ∉ text) (n : Nat)
    (m : Message) :
    (text = [] → grammar.apply .inMessage (slot.line text) n m =
      { state := .inMessage
        current := m
        result := .error (.rejected (slot.line text) .malformedField) }) ∧
    (¬ AllBlank text → grammar.apply .inMessage (slot.line text) n m =
      { state := .inMessage
        current := { m with fields := m.fields ++ [slot.field n (trim text)] }
        result := .ok {} }) ∧
    ∀ before blank, AllBlank text → text = before ++ [blank] →
      grammar.apply .inMessage (slot.line text) n m =
        { state := .inMessage
          current := { m with fields := m.fields ++ [slot.field n [blank]] }
          result := .ok {} } := by
  refine ⟨?_, fun h => ?_, ?_⟩
  · rintro rfl
    exact apply_line_nil slot n m
  · exact apply_line_of_isLiteral slot (isLiteral_of_not_allBlank h hline) n m
  · rintro before blank h rfl
    exact apply_line_of_isLiteral slot (isLiteral_of_allBlank h hline) n m

/-- A literal that looks like the end of the line, with blanks around it. -/
theorem apply_defaultLine_runs :
    '\n' ∉ " ]; \"=\" ".toList ∧
    (grammar.apply .inMessage (DefaultSlot.plain.line " ]; \"=\" ".toList) 2 {}).current.fields =
      [DefaultSlot.plain.field 2 "]; \"=\"".toList] := by
  have htext : ¬ AllBlank " ]; \"=\" ".toList := fun h =>
    absurd (h ']' (by decide)) (by decide)
  refine ⟨by decide, ?_⟩
  rw [(apply_defaultLine .plain _ (by decide) 2 {}).2.1 htext]
  rfl

/-- Without a text the line is rejected, but with a blank for its text it is accepted, and the blank
is the default. -/
theorem apply_blank_default :
    AllBlank " ".toList ∧
    DefaultSlot.plain.line " ".toList = "optional string s = 1 [default = ];".toList ∧
    (grammar.apply .inMessage (DefaultSlot.plain.line " ".toList) 2 {}).result = .ok {} ∧
    (grammar.apply .inMessage (DefaultSlot.plain.line " ".toList) 2 {}).current.fields.map
      (·.default?) = [some " "] ∧
    DefaultSlot.plain.line [] = "optional string s = 1 [default =];".toList ∧
    (grammar.apply .inMessage (DefaultSlot.plain.line []) 2 {}).result =
      .error (.rejected (DefaultSlot.plain.line []) .malformedField) := by
  have hblank : AllBlank ([] ++ " ".toList) := List.all_eq_true.1 (by decide)
  have haccepted := apply_line_of_isLiteral .plain (isLiteral_of_allBlank hblank (by decide)) 2 {}
  refine ⟨hblank, by decide, ?_, ?_, by decide, ?_⟩
  · exact congrArg Reply.result haccepted
  · exact congrArg (·.current.fields.map (·.default?)) haccepted
  · rw [apply_line_nil]

end Answers

end ProtoSchema
