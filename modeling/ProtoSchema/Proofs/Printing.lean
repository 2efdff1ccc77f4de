import ProtoSchema.Proofs.WellFormed

/-!
# Messages as text

A list of messages is printed as a schema, one declaration on each line: the fields of a message in
front of its enums, and the package in front of the first message that has one. Each line of the
text is its own code (`IsCode`) and says the clause that it was printed for.

Results:
* `isCode_packageLine`, `isCode_messageLine`, `isCode_enumLine`, `isCode_valueLine`,
  `isCode_fieldLine`: no printed line has a comment or a line end in it;
* `says_packageLine`, `says_messageLine`, `says_enumLine`, `says_valueLine`, `says_fieldLine`: what
  the printed lines say.
-/
namespace ProtoSchema

open Text

/-! ## Printing -/

def packageLine (name : String) : String :=
  "package " ++ name ++ ";"

def messageLine (name : String) : String :=
  "message " ++ name ++ " \x7b"

def enumLine (name : String) : String :=
  "enum " ++ name ++ " \x7b"

def EnumValue.declaration (v : EnumValue) : String :=
  v.label ++ " = " ++ String.ofList (signedDecimal v.value.toInt) ++ ";"

def EnumDef.lines (e : EnumDef) : List String :=
  enumLine e.name :: (e.values.map EnumValue.declaration ++ ["\x7d"])

def Message.lines (m : Message) : List String :=
  messageLine m.name ::
    (m.fields.map Field.declaration ++ (m.enums.flatMap EnumDef.lines ++ ["\x7d"]))

/-- What is printed in front of a message where this package, if any, is declared already. -/
def packageLines (package? : Option String) (m : Message) : List String :=
  if m.package? = package? then [] else (m.package?.map packageLine).toList

def schemaLines (package? : Option String) : List Message → List String
  | [] => []
  | m :: messages => packageLines package? m ++ (m.lines ++ schemaLines m.package? messages)

def schemaText (messages : List Message) : String :=
  String.ofList ((schemaLines none messages).flatMap fun line => line.toList ++ ['\n'])

/-! ## Lines of code -/

/-- A line that a text keeps as it is. -/
structure IsCode (line : List Char) : Prop where
  noComment : beforeComment .outside line = line
  oneLine : '\n' ∉ line
  last : ∃ init c, line = init ++ [c] ∧ isBlank c = false

theorem IsCode.code_eq {line : List Char} (h : IsCode line) : code line = line := by
  obtain ⟨init, c, rfl, hc⟩ := h.last
  refine Text.code_eq h.noComment ?_
  rw [List.reverse_append]
  exact notAhead_cons.2 hc

theorem IsCode.ne_nil {line : List Char} (h : IsCode line) : line ≠ [] := by
  obtain ⟨init, c, rfl, _⟩ := h.last
  simp

theorem IsCode.getLast?_ne {line : List Char} (h : IsCode line) {c : Char}
    (hc : isBlank c = true) : line.getLast? ≠ some c := by
  obtain ⟨init, d, rfl, hd⟩ := h.last
  intro hlast
  rw [List.getLast?_concat, Option.some.injEq] at hlast
  rw [hlast, hc] at hd
  cases hd

theorem isCode_concat {line : List Char} {c : Char} (hcomment : beforeComment .outside line = line)
    (hline : '\n' ∉ line) (hslash : c ≠ '/') (hc : isBlank c = false) : IsCode (line ++ [c]) := by
  refine ⟨beforeComment_append hcomment ?_, ?_, line, c, rfl, hc⟩
  · simpa using hslash.symm
  · have hne : c ≠ '\n' := by
      intro heq
      subst heq
      exact absurd hc (by decide)
    simpa using ⟨hline, hne.symm⟩

/-- A plain text on one line. -/
def Tame (cs : List Char) : Prop :=
  Plain cs ∧ '\n' ∉ cs

theorem tame_append {cs ds : List Char} : Tame (cs ++ ds) ↔ Tame cs ∧ Tame ds := by
  simp only [Tame, plain_append, List.mem_append, not_or]
  exact and_and_and_comm

theorem tame_of_forall {cls : Char → Bool} {cs : List Char} (h : ∀ c ∈ cs, cls c = true)
    (hcls : (cls '"' || cls '\'' || cls '/' || cls '\n') = false) : Tame cs := by
  rw [Bool.or_eq_false_iff] at hcls
  refine ⟨plain_of_forall h hcls.1, fun hmem => ?_⟩
  rw [h _ hmem] at hcls
  cases hcls.2

theorem tame_of_all {cs : List Char}
    (h : cs.all (fun c => c != '"' && c != '\'' && c != '/' && c != '\n') = true) : Tame cs := by
  simp only [List.all_eq_true, Bool.and_eq_true, bne_iff_ne, ne_eq] at h
  refine ⟨fun c hc => ?_, fun hmem => (h _ hmem).2 rfl⟩
  obtain ⟨⟨⟨hdouble, hsingle⟩, hslash⟩, _⟩ := h c hc
  exact ⟨hdouble, hsingle, hslash⟩

theorem Tame.beforeComment_eq {line : List Char} (h : Tame line) :
    beforeComment .outside line = line := by
  simpa [beforeComment] using beforeComment_plain_append h.1 []

theorem Tame.isCode_concat {line : List Char} {c : Char} (h : Tame line) (hslash : c ≠ '/')
    (hc : isBlank c = false) : IsCode (line ++ [c]) :=
  ProtoSchema.isCode_concat h.beforeComment_eq h.2 hslash hc

theorem tame_nil : Tame [] :=
  ⟨nofun, nofun⟩

theorem tame_space : Tame " ".toList :=
  tame_of_all (by decide)

theorem tame_identifier {cs : List Char} (h : isIdentifier cs = true) : Tame cs :=
  tame_of_forall (isNameChar_of_mem_identifier h) (by decide)

theorem tame_typePath {cs : List Char} (h : IsTypePath cs) : Tame cs :=
  tame_of_forall (isDottedChar_of_mem_typePath h) (by decide)

/-! ## Openings and closings -/

theorem allBlank_space : AllBlank " ".toList := by
  intro c hc
  rw [List.mem_singleton.1 hc]
  decide

theorem isCode_blockEnd : IsCode "\x7d".toList :=
  tame_nil.isCode_concat (c := '\x7d') (by decide) (by decide)

theorem says_blockEnd (n : Nat) : Says (n, "\x7d".toList) .blockEnd :=
  .blockEnd (.blockEnd allBlank_nil)

section Lines

variable {name : String}

theorem toList_packageLine (name : String) :
    (packageLine name).toList =
      [] ++ "package".toList ++ " ".toList ++ name.toList ++ [] ++ ";".toList := by
  rw [packageLine, String.toList_append, String.toList_append, List.append_nil]
  rfl

theorem toList_messageLine (name : String) :
    (messageLine name).toList =
      [] ++ "message".toList ++ " ".toList ++ name.toList ++ " ".toList ++ "\x7b".toList := by
  rw [messageLine, String.toList_append, String.toList_append, List.append_assoc _ " ".toList]
  rfl

theorem toList_enumLine (name : String) :
    (enumLine name).toList =
      [] ++ "enum".toList ++ " ".toList ++ name.toList ++ " ".toList ++ "\x7b".toList := by
  rw [enumLine, String.toList_append, String.toList_append, List.append_assoc _ " ".toList]
  rfl

theorem isCode_packageLine (h : isDottedName name.toList = true) :
    IsCode (packageLine name).toList := by
  have hname : Tame name.toList := tame_typePath (isDottedName_iff.1 h).isTypePath
  rw [toList_packageLine]
  refine Tame.isCode_concat ?_ (by decide) (by decide)
  simp only [tame_append]
  exact ⟨⟨⟨⟨tame_nil, tame_of_all (by decide)⟩, tame_space⟩, hname⟩, tame_nil⟩

theorem says_packageLine (n : Nat) (h : isDottedName name.toList = true) :
    Says (n, (packageLine name).toList) (.package name) := by
  have hw := Statement.Written.package allBlank_nil allBlank_space (by decide)
    (isDottedName_iff.1 h) allBlank_nil
  rw [String.ofList_toList, ← toList_packageLine] at hw
  exact .package hw

theorem isCode_opening {keyword : List Char} (hkeyword : Tame keyword)
    (h : isIdentifier name.toList = true) :
    IsCode ([] ++ keyword ++ " ".toList ++ name.toList ++ " ".toList ++ "\x7b".toList) := by
  refine Tame.isCode_concat ?_ (by decide) (by decide)
  simp only [tame_append]
  exact ⟨⟨⟨⟨tame_nil, hkeyword⟩, tame_space⟩, tame_identifier h⟩, tame_space⟩

theorem isCode_messageLine (h : isIdentifier name.toList = true) :
    IsCode (messageLine name).toList := by
  rw [toList_messageLine]
  exact isCode_opening (tame_of_all (by decide)) h

theorem says_messageLine (n : Nat) (h : isIdentifier name.toList = true) :
    Says (n, (messageLine name).toList) (.messageStart name n) := by
  have hw := Statement.Written.messageStart allBlank_nil allBlank_space (by decide) h allBlank_space
  rw [String.ofList_toList, ← toList_messageLine] at hw
  exact .messageStart hw

theorem isCode_enumLine (h : isIdentifier name.toList = true) : IsCode (enumLine name).toList := by
  rw [toList_enumLine]
  exact isCode_opening (tame_of_all (by decide)) h

theorem says_enumLine (n : Nat) (h : isIdentifier name.toList = true) :
    Says (n, (enumLine name).toList) (.enumStart name) := by
  have hw := Statement.Written.enumStart allBlank_nil allBlank_space (by decide) h allBlank_space
  rw [String.ofList_toList, ← toList_enumLine] at hw
  exact .enumStart hw

end Lines

/-! ## Numbers -/

theorem decimal_ne_nil (n : Nat) : decimal n ≠ [] :=
  Nat.toDigits_ne_nil

theorem isDecimalDigit_of_mem_decimal {n : Nat} : ∀ c ∈ decimal n, isDecimalDigit c = true := by
  intro c hc
  have hdigit : c.isDigit = true := Nat.isDigit_of_mem_toDigits (by decide) (by decide) hc
  have hrange : 0x30 ≤ c.toNat ∧ c.toNat ≤ 0x39 := by
    simpa [Char.isDigit, UInt32.le_iff_toNat_le] using hdigit
  exact CodeRanges.contains_iff.2 ⟨(0x30, 0x39), List.mem_cons_self, hrange⟩

theorem tame_decimal (n : Nat) : Tame (decimal n) :=
  tame_of_forall isDecimalDigit_of_mem_decimal (by decide)

theorem signedDecimal_eq (i : Int) :
    ∃ negative : Bool, signedDecimal i = (if negative then "-".toList else []) ++ decimal i.natAbs ∧
      i = if negative then -(i.natAbs : Int) else i.natAbs := by
  cases i with
  | ofNat n => exact ⟨false, rfl, rfl⟩
  | negSucc n => exact ⟨true, rfl, rfl⟩

/-! ## Enum values -/

theorem toList_valueLine {v : EnumValue} {sign digits : List Char}
    (h : signedDecimal v.value.toInt = sign ++ digits) :
    v.declaration.toList =
      [] ++ v.label.toList ++ " ".toList ++ "=".toList ++ " ".toList ++ sign ++ digits ++ [] ++
        ";".toList := by
  rw [EnumValue.declaration, String.toList_append, String.toList_append, String.toList_append,
    String.toList_ofList, h]
  simp

theorem isCode_valueLine {v : EnumValue} (h : v.WellFormed) : IsCode v.declaration.toList := by
  obtain ⟨negative, hdigits, _⟩ := signedDecimal_eq v.value.toInt
  have hsign : Tame (if negative = true then "-".toList else []) := by
    cases negative
    · exact tame_nil
    · exact tame_of_all (by decide)
  rw [toList_valueLine hdigits]
  refine Tame.isCode_concat ?_ (by decide) (by decide)
  simp only [tame_append, and_assoc]
  exact ⟨tame_nil, tame_identifier h.label, tame_space, tame_of_all (by decide), tame_space, hsign,
    tame_decimal _, tame_nil⟩

theorem written_valueLine {v : EnumValue} (h : isIdentifier v.label.toList = true) :
    ∃ negative : Bool,
      Statement.Written (.enumValue v.label negative (decimal v.value.toInt.natAbs))
        v.declaration.toList ∧
      v.value.toInt = if negative then -(v.value.toInt.natAbs : Int) else v.value.toInt.natAbs := by
  obtain ⟨negative, hdigits, hvalue⟩ := signedDecimal_eq v.value.toInt
  have hw := @Statement.Written.enumValue [] v.label.toList " ".toList " ".toList
    (decimal v.value.toInt.natAbs) [] negative allBlank_nil h allBlank_space allBlank_space
    (decimal_ne_nil _) isDecimalDigit_of_mem_decimal allBlank_nil
  rw [String.ofList_toList, ← toList_valueLine hdigits] at hw
  exact ⟨negative, hw, hvalue⟩

theorem says_valueLine (n : Nat) {v : EnumValue} (h : v.WellFormed) :
    Says (n, v.declaration.toList) (.enumValue v) := by
  obtain ⟨negative, hw, hvalue⟩ := written_valueLine h.label
  exact .enumValue hw h.noScope (natOfDigits?_decimal _) hvalue

/-! ## Fields -/

theorem typePath_token {type : FieldType} (h : type.WellFormed) : IsTypePath type.token.toList := by
  cases type with
  | scalar type => exact isTypeName_iff.1 (by cases type <;> decide)
  | reference name => exact isTypeName_iff.1 h.1

theorem ofToken_token {type : FieldType} (h : type.WellFormed) :
    FieldType.ofToken type.token = type := by
  unfold FieldType.ofToken
  cases type with
  | scalar type => rw [FieldType.token, ScalarType.ofKeyword?_keyword]
  | reference name => rw [FieldType.token, h.2]

/-- What stands behind the id of a field, and blanks in front of it. -/
def defaultText : Option String → List Char
  | none => []
  | some literal =>
    " ".toList ++ "[default =".toList ++ (" ".toList ++ literal.toList) ++ "]".toList

theorem toList_fieldLine (f : Field) :
    f.declaration.toList =
      [] ++ f.scope.keyword.toList ++ " ".toList ++ f.type.token.toList ++ " ".toList ++
        f.name.toList ++ " ".toList ++ "=".toList ++ " ".toList ++ decimal f.id.toNat ++
        (defaultText f.default? ++ ";".toList) := by
  rw [Field.declaration]
  cases f.default? <;> simp [String.toList_append, defaultText, decimalText]

theorem noComment_defaultText {default? : Option String}
    (h : ∀ literal, default? = some literal → IsDefault literal.toList) :
    beforeComment .outside (defaultText default?) = defaultText default? ∧
      '\n' ∉ defaultText default? := by
  cases default? with
  | none => exact ⟨rfl, nofun⟩
  | some literal =>
    have hliteral := h literal rfl
    have hfront : Tame (" ".toList ++ "[default =".toList ++ " ".toList) := by
      simp only [tame_append]
      exact ⟨⟨tame_space, tame_of_all (by decide)⟩, tame_space⟩
    have hcomment : beforeComment .outside
        (" ".toList ++ "[default =".toList ++ " ".toList ++ literal.toList) =
          " ".toList ++ "[default =".toList ++ " ".toList ++ literal.toList := by
      rw [beforeComment_plain_append hfront.1, hliteral.noComment]
    rw [defaultText, ← List.append_assoc _ " ".toList]
    refine ⟨beforeComment_append hcomment (by decide), ?_⟩
    rw [List.mem_append, List.mem_append, not_or, not_or]
    exact ⟨⟨hfront.2, hliteral.oneLine⟩, by decide⟩

theorem fieldEnd_defaultText {default? : Option String}
    (h : ∀ literal, default? = some literal → IsLiteral (' ' :: literal.toList) literal.toList) :
    ∃ z tail, AllBlank z ∧ Statement.FieldEnd tail (default?.map String.toList) ∧
      defaultText default? ++ ";".toList = z ++ tail := by
  cases default? with
  | none => exact ⟨[], ";".toList, allBlank_nil, .plain, rfl⟩
  | some literal =>
    have hend := Statement.FieldEnd.default allBlank_nil allBlank_space (h literal rfl) allBlank_nil
    refine ⟨" ".toList, _, allBlank_space, hend, ?_⟩
    simp [defaultText]

theorem isCode_fieldLine {f : Field} (h : f.WellFormed) : IsCode f.declaration.toList := by
  obtain ⟨hcomment, hline⟩ := noComment_defaultText h.default
  have hscope : Tame f.scope.keyword.toList :=
    tame_of_forall (List.all_eq_true.1 (Statement.all_isNameChar_keyword f.scope)) (by decide)
  have hfront : Tame ([] ++ f.scope.keyword.toList ++ " ".toList ++ f.type.token.toList ++
      " ".toList ++ f.name.toList ++ " ".toList ++ "=".toList ++ " ".toList ++
      decimal f.id.toNat) := by
    simp only [tame_append, and_assoc]
    exact ⟨tame_nil, hscope, tame_space, tame_typePath (typePath_token h.type), tame_space,
      tame_identifier h.name, tame_space, tame_of_all (by decide), tame_space, tame_decimal _⟩
  rw [toList_fieldLine, ← List.append_assoc]
  refine isCode_concat ?_ ?_ (by decide) (by decide)
  · rw [beforeComment_plain_append hfront.1, hcomment]
  · rw [List.mem_append, not_or]
    exact ⟨hfront.2, hline⟩

theorem says_fieldLine (n : Nat) {f : Field} (h : f.Declarable) :
    Says (n, f.declaration.toList) (.field { f with line := n }) := by
  obtain ⟨z, tail, hz, htail, heq⟩ := fieldEnd_defaultText h.default
  have hw := @Statement.Written.field [] " ".toList f.type.token.toList " ".toList f.name.toList
    " ".toList " ".toList (decimal f.id.toNat) z tail f.scope _ allBlank_nil allBlank_space
    (by decide) (typePath_token h.type) allBlank_space (by decide) h.name allBlank_space
    allBlank_space (decimal_ne_nil _) isDecimalDigit_of_mem_decimal hz htail
  have hdefault : (f.default?.map String.toList).map String.ofList = f.default? := by
    cases f.default? <;> simp
  rw [hdefault, String.ofList_toList, String.ofList_toList, ofToken_token h.type,
    List.append_assoc _ z, ← heq, ← toList_fieldLine] at hw
  exact .field (f := { f with line := n }) hw (natOfDigits?_decimal _) h.id rfl

end ProtoSchema
