import ProtoSchema.Proofs.CommentPlaces
import ProtoSchema.Proofs.DefaultLiterals
import ProtoSchema.Proofs.EmptySchemas

/-!
# Quoted defaults

A default between quotes reaches the model as it is written, whatever stands between the quotes and
in the comment behind the line. The scan for comments knows literals and the reader of fields does
not, which takes everything up to the last bracket. Together they take the same text off the line.

**One line in two texts.** With its default and its comment the line says the same field as without
them, up to the default. A text that holds the line with them is compared with the text that holds
it without them: its lines say the same tree, in which the field of that line has another default
(`Item.mapFields`), so that both compile or neither does.

Results:
* `code_quotedLine`: what the scan for comments leaves of the line;
* `messagesAfter_mapFields`: the messages of a tree with other fields;
* `compileText_withDefault`: what compiles, compiles with another default as well;
* `compileText_quotedDefault`: quoted defaults in texts.
-/
namespace ProtoSchema

open Text

/-! ## The line -/

namespace Text

theorem beforeComment_cons_of_ne {scan : Scan} (h : scan ≠ .outside) (c : Char) (cs : List Char) :
    beforeComment scan (c :: cs) = c :: beforeComment (scan.next c) cs :=
  if_neg fun hmarker => h hmarker.1

/-- No comment starts in front of the closing quote of a literal. -/
theorem beforeComment_literal_append {quote : Char} {body : List Char} (hquote : IsQuote quote)
    (hbody : LiteralBody quote body) (rest : List Char) :
    beforeComment (.literal quote) (body ++ quote :: rest) =
      body ++ quote :: beforeComment .outside rest := by
  have hliteral : Scan.literal quote ≠ .outside := by simp
  have hescape : Scan.escape quote ≠ .outside := by simp
  induction hbody with
  | nil =>
    rw [List.nil_append, beforeComment_cons_of_ne hliteral, next_literal_quote hquote]
    rfl
  | char hbackslash hne _ ih =>
    rw [List.cons_append, beforeComment_cons_of_ne hliteral, next_literal_of_ne hbackslash hne, ih]
    rfl
  | escape _ ih =>
    rw [List.cons_append, beforeComment_cons_of_ne hliteral, next_literal_backslash,
      List.cons_append, beforeComment_cons_of_ne hescape, next_escape, ih]
    rfl

/-- Behind a whole literal the scan is where it was in front of it. -/
theorem beforeComment_quoted_append {quote : Char} {body : List Char} (hquote : IsQuote quote)
    (hbody : LiteralBody quote body) (rest : List Char) :
    beforeComment .outside (quote :: (body ++ quote :: rest)) =
      quote :: (body ++ quote :: beforeComment .outside rest) := by
  have hslash : quote ≠ '/' := hquote.ne_of not_isQuote_slash
  rw [beforeComment, if_neg fun h => hslash (isPrefixOf_commentMarker.1 h.2).1,
    next_outside_of_isQuote hquote, beforeComment_literal_append hquote hbody]

/-- A text and the quotes around it. -/
def enclosed (quote : Char) (body : List Char) : List Char :=
  quote :: (body ++ [quote])

/-- Quotes are no blanks, so nothing of a quoted text is trimmed. -/
theorem isLiteral_enclosed {quote : Char} {body v w : List Char} (hquote : IsQuote quote)
    (hline : '\n' ∉ body) (hv : AllBlank v) (hw : AllBlank w) :
    IsLiteral (v ++ enclosed quote body ++ w) (enclosed quote body) := by
  have hblank : isBlank quote = false := by rcases hquote with rfl | rfl <;> decide
  have hnewline : '\n' ≠ quote := by rcases hquote with rfl | rfl <;> decide
  refine .trimmed hv hw (List.cons_ne_nil _ _) ?_ (notAhead_cons.2 hblank) ?_
  · simp [enclosed, hline, hnewline]
  · rw [enclosed, List.reverse_cons, List.reverse_append]
    exact notAhead_cons.2 hblank

theorem code_of_beforeComment {line kept w : List Char}
    (h : beforeComment .outside line = kept ++ w) (hw : AllBlank w)
    (hkept : NotAhead isBlank kept.reverse) : code line = kept := by
  rw [code, h, trimEnd_append hw hkept]

end Text

namespace DefaultSlot

variable {slot : DefaultSlot} {text : List Char} {n : Nat}

/-- What stands in front of the bracket of the default. -/
def opening (slot : DefaultSlot) : List Char :=
  slot.u.1 ++ slot.scope.keyword.toList ++ slot.v.1 ++ slot.type ++ slot.w.1 ++ slot.name ++
    slot.x.1 ++ "=".toList ++ slot.y.1 ++ slot.digits ++ slot.z.1

/-- The line without a default. -/
def bareLine (slot : DefaultSlot) : List Char :=
  slot.opening ++ ";".toList

/-- The line with a comment behind it. -/
def commentedLine (slot : DefaultSlot) (text w comment : List Char) : List Char :=
  slot.line text ++ w ++ commentMarker ++ comment

theorem plain_opening (slot : DefaultSlot) : Plain slot.opening := by
  have hscope : Plain slot.scope.keyword.toList :=
    plain_of_forall (List.all_eq_true.1 (Statement.all_isNameChar_keyword slot.scope)) (by decide)
  have htype : Plain slot.type :=
    plain_of_forall (isDottedChar_of_mem_typePath slot.isTypePath) (by decide)
  have hname : Plain slot.name :=
    plain_of_forall (isNameChar_of_mem_identifier slot.isIdentifier) (by decide)
  have hdigits : Plain slot.digits := plain_of_forall slot.isDecimalDigit (by decide)
  have hequal : Plain "=".toList := plain_of_all (by decide)
  simp only [opening, plain_append, and_assoc]
  exact ⟨slot.u.2.plain, hscope, slot.v.2.plain, htype, slot.w.2.plain, hname, slot.x.2.plain,
    hequal, slot.y.2.plain, hdigits, slot.z.2.plain⟩

theorem says_bareLine (slot : DefaultSlot) (n : Nat) (literal : List Char) :
    Says (n, slot.bareLine) (.field { slot.field n literal with default? := none }) :=
  .field
    (.field slot.u.2 slot.v.2 slot.v_ne_nil slot.isTypePath slot.w.2 slot.w_ne_nil
      slot.isIdentifier slot.x.2 slot.y.2 slot.digits_ne_nil slot.isDecimalDigit slot.z.2 .plain)
    slot.id_eq slot.id_ne_zero rfl

theorem code_bareLine (slot : DefaultSlot) : code slot.bareLine = slot.bareLine := by
  refine code_of_beforeComment (w := []) ?_ allBlank_nil ?_
  · rw [bareLine, beforeComment_plain_append slot.plain_opening, List.append_nil]
    rfl
  · rw [bareLine, List.reverse_append]
    exact notAhead_cons.2 (by decide)

theorem code_commentedLine (slot : DefaultSlot) {quote : Char} {body v w z : List Char}
    (hquote : IsQuote quote) (hbody : LiteralBody quote body) (hv : AllBlank v) (hw : AllBlank w)
    (hz : AllBlank z) (comment : List Char) :
    code (slot.commentedLine (v ++ enclosed quote body ++ w) z comment) =
      slot.line (v ++ enclosed quote body ++ w) := by
  refine code_of_beforeComment (w := z) ?_ hz ?_
  · -- Up to the literal, and behind it, the characters are plain.
    have hfront : Plain (slot.opening ++ ("[".toList ++ slot.a.1 ++ "default".toList ++ slot.b.1 ++
        "=".toList ++ v)) := by
      simp only [plain_append, and_assoc]
      exact ⟨slot.plain_opening, plain_of_all (by decide), slot.a.2.plain, plain_of_all (by decide),
        slot.b.2.plain, plain_of_all (by decide), hv.plain⟩
    have hbehind : Plain (w ++ "]".toList ++ slot.c.1 ++ ";".toList ++ z) := by
      simp only [plain_append, and_assoc]
      exact ⟨hw.plain, plain_of_all (by decide), slot.c.2.plain, plain_of_all (by decide), hz.plain⟩
    have hcomment : beforeComment .outside (commentMarker ++ comment) = [] := rfl
    have hscan := beforeComment_plain_append hfront (quote :: (body ++ quote ::
      (w ++ "]".toList ++ slot.c.1 ++ ";".toList ++ z ++ (commentMarker ++ comment))))
    rw [beforeComment_quoted_append hquote hbody, beforeComment_plain_append hbehind, hcomment]
      at hscan
    simpa [commentedLine, line, tail, opening, enclosed] using hscan
  · simp only [line, tail, List.reverse_append, List.append_assoc]
    exact notAhead_cons.2 (by decide)

end DefaultSlot

/-! ## Trees with other fields -/

/-- The clause with another field, if it says one. -/
def Clause.mapField (g : Field → Field) : Clause → Clause
  | .field f => .field (g f)
  | clause => clause

def Member.mapField (g : Field → Field) : Member → Member
  | .field f => .field (g f)
  | member => member

def Block.mapFields (g : Field → Field) (b : Block) : Block :=
  { b with members := b.members.map (Member.mapField g) }

def Item.mapFields (g : Field → Field) : Item → Item
  | .block b => .block (b.mapFields g)
  | item => item

def Message.mapFields (g : Field → Field) (m : Message) : Message :=
  { m with fields := m.fields.map g }

section Trees

variable {g : Field → Field}

theorem map_mapField_valueClauses (values : List EnumValue) :
    (valueClauses values).map (Clause.mapField g) = valueClauses values := by
  simp [valueClauses, Clause.mapField]

theorem Member.mapField_enum (e : EnumDef) : (Member.enum e).mapField g = .enum e := rfl

theorem Member.clauses_mapField (member : Member) :
    (member.mapField g).clauses = member.clauses.map (Clause.mapField g) := by
  cases member with
  | package name | option name value | field f => rfl
  | enum e =>
    rw [mapField_enum, clauses, List.map_cons, map_mapField_valueClauses]
    rfl

theorem Item.clauses_mapFields (item : Item) :
    (item.mapFields g).clauses = item.clauses.map (Clause.mapField g) := by
  cases item with
  | package name | option name value => rfl
  | block b =>
    have hmembers : (b.members.map (Member.mapField g)).flatMap Member.clauses =
        (b.members.flatMap Member.clauses).map (Clause.mapField g) := by
      rw [List.flatMap_map, List.map_flatMap]
      exact congrArg (b.members.flatMap ·) (funext Member.clauses_mapField)
    simp only [mapFields, clauses, Block.clauses, Block.mapFields, memberClauses, hmembers,
      List.map_cons, List.map_append]
    rfl

theorem memberPackages_mapField (members : List Member) :
    memberPackages (members.map (Member.mapField g)) = memberPackages members := by
  rw [memberPackages, memberPackages, List.filterMap_map]
  congr 1
  funext member
  cases member <;> rfl

theorem memberEnums_mapField (members : List Member) :
    memberEnums (members.map (Member.mapField g)) = memberEnums members := by
  rw [memberEnums, memberEnums, List.filterMap_map]
  congr 1
  funext member
  cases member <;> rfl

theorem memberFields_mapField (members : List Member) :
    memberFields (members.map (Member.mapField g)) = (memberFields members).map g := by
  rw [memberFields, memberFields, List.filterMap_map, List.map_filterMap]
  congr 1
  funext member
  cases member <;> rfl

theorem messagesAfter_mapFields (declared : List String) (items : List Item) :
    messagesAfter declared (items.map (Item.mapFields g)) =
      (messagesAfter declared items).map (Message.mapFields g) := by
  induction items generalizing declared with
  | nil => rfl
  | cons item items ih =>
    cases item with
    | package name | option name value => exact ih _
    | block b =>
      simp only [List.map_cons, Item.mapFields, messagesAfter, Block.mapFields, Block.message,
        memberPackages_mapField, memberFields_mapField, memberEnums_mapField, ih]
      rfl

theorem Block.mem_memberFields {b : Block} {f : Field} (h : .field f ∈ b.clauses) :
    f ∈ memberFields b.members := by
  have hmembers : .field f ∈ b.members.flatMap Member.clauses := by
    simpa [clauses, memberClauses] using h
  obtain ⟨member, hmember, hclause⟩ := List.mem_flatMap.1 hmembers
  refine List.mem_filterMap.2 ⟨member, hmember, ?_⟩
  cases member with
  | package | option => simp [Member.clauses] at hclause
  | field f' => simpa [Member.clauses, eq_comm] using hclause
  | enum e => simp [Member.clauses, valueClauses] at hclause

theorem exists_message_of_field {items : List Item} {f : Field} (declared : List String)
    (h : .field f ∈ items.flatMap Item.clauses) :
    ∃ m ∈ messagesAfter declared items, f ∈ m.fields := by
  induction items generalizing declared with
  | nil => cases h
  | cons item items ih =>
    rcases List.mem_append.1 h with hitem | hrest
    · cases item with
      | package name | option name value => simp [Item.clauses] at hitem
      | block b =>
        exact ⟨_, List.mem_cons_self, Block.mem_memberFields hitem⟩
    · cases item with
      | package name | option name value => exact ih _ hrest
      | block b =>
        obtain ⟨m, hm, hf⟩ := ih (declared ++ memberPackages b.members) hrest
        exact ⟨m, List.mem_cons_of_mem _ hm, hf⟩

end Trees

/-! ## Texts -/

/-- With this default for the field of this line, or without one. -/
def Field.withDefault (line : Nat) (default? : Option String) (f : Field) : Field :=
  if f.line = line then { f with default? } else f

def Message.withDefault (line : Nat) (default? : Option String) (m : Message) : Message :=
  m.mapFields (Field.withDefault line default?)

@[simp]
theorem Field.withDefault_id (n : Nat) (default? : Option String) (f : Field) :
    (f.withDefault n default?).id = f.id := by
  unfold withDefault
  split <;> rfl

section Texts

variable {front behind : List (List Char)} {line line' : List Char} {f : Field}
  {default? : Option String} {n : Nat}

theorem Says.mapField_withDefault {entry : Nat × List Char} {clause : Clause}
    (h : Says entry clause) (hne : entry.1 ≠ n) :
    clause.mapField (Field.withDefault n default?) = clause := by
  cases clause with
  | field f =>
    have hline : f.line ≠ n := by rwa [h.line_eq]
    rw [Clause.mapField, Field.withDefault, if_neg hline]
  | blockEnd | package | messageStart | enumStart | enumValue | option => rfl

theorem codeLines_of_ne_nil (h : code line ≠ []) :
    codeLines 0 (front ++ line :: behind) =
      codeLines 0 front ++
        (front.length + 1, code line) :: codeLines (front.length + 1) behind := by
  rw [codeLines_append, codeLines, if_neg h, Nat.zero_add]

/-- Lines that say other fields, one by one, say the tree with these fields. -/
theorem forall₂_says_mapField {g : Field → Field} {numbered numbered' : List (Nat × List Char)}
    {clauses : List Clause}
    (hlines : List.Forall₂
      (fun entry entry' => ∀ clause, Says entry clause → Says entry' (clause.mapField g))
      numbered numbered')
    (h : List.Forall₂ Says numbered clauses) :
    List.Forall₂ Says numbered' (clauses.map (Clause.mapField g)) := by
  induction hlines generalizing clauses with
  | nil =>
    cases h
    exact .nil
  | cons hentry _ ih =>
    cases h with
    | cons hsaid hrest => exact .cons (hentry _ hsaid) (ih hrest)

/-- Where one line says its field with another default, the lines say the tree with that default. -/
theorem says_withDefault (hline : Says (front.length + 1, code line) (.field f))
    (hline' : Says (front.length + 1, code line') (.field { f with default? }))
    {clauses : List Clause}
    (h : List.Forall₂ Says (codeLines 0 (front ++ line :: behind)) clauses) :
    List.Forall₂ Says (codeLines 0 (front ++ line' :: behind))
      (clauses.map (Clause.mapField (Field.withDefault (front.length + 1) default?))) := by
  -- The other lines have other numbers, so they say what they said.
  have hother (entry : Nat × List Char) (hne : entry.1 ≠ front.length + 1) (clause : Clause)
      (hsaid : Says entry clause) : Says entry
        (clause.mapField (Field.withDefault (front.length + 1) default?)) := by
    rwa [hsaid.mapField_withDefault hne]
  rw [codeLines_of_ne_nil hline.ne_nil] at h
  rw [codeLines_of_ne_nil hline'.ne_nil]
  refine forall₂_says_mapField (List.rel_append ?_ (.cons ?_ ?_)) h
  · refine List.forall₂_same.2 fun entry hentry => hother entry ?_
    obtain ⟨i, _, hi, rfl⟩ := exists_of_mem_codeLines hentry
    have hlt := (List.getElem?_eq_some_iff.1 hi).1
    simp only
    omega
  · intro clause hclause
    obtain rfl := hclause.unique hline
    rw [Clause.mapField, Field.withDefault, if_pos hline.line_eq]
    exact hline'
  · refine List.forall₂_same.2 fun entry hentry => hother entry ?_
    obtain ⟨i, _, _, rfl⟩ := exists_of_mem_codeLines hentry
    simp only
    omega

/-- What compiles, compiles with another default on one of its lines as well. -/
theorem compileText_withDefault {policy : Policy} {text text' : String}
    (hline : Says (front.length + 1, code line) (.field f))
    (hline' : Says (front.length + 1, code line') (.field { f with default? }))
    (htext : textLines text.toList = front ++ line :: behind)
    (htext' : textLines text'.toList = front ++ line' :: behind) {messages : List Message}
    (h : (compileText policy text).result = .ok messages) :
    (compileText policy text').result =
      .ok (messages.map (Message.withDefault (front.length + 1) default?)) := by
  have haccept : (compileText ⟨policy.idCheck, .accept⟩ text').result =
      .ok (messages.map (Message.withDefault (front.length + 1) default?)) := by
    obtain ⟨items, hsays, hids, rfl⟩ := (compileText_eq_ok _ _ _).1 (compileText_accept h)
    rw [htext] at hsays
    refine (compileText_eq_ok _ _ _).2
      ⟨items.map (Item.mapFields (Field.withDefault (front.length + 1) default?)), ?_,
        fun b hb => ?_, ?_⟩
    · rw [htext', List.flatMap_map]
      simp only [Item.clauses_mapFields]
      rw [← List.map_flatMap]
      exact says_withDefault hline hline' hsays
    · obtain ⟨item, hitem, hmap⟩ := List.mem_map.1 hb
      cases item with
      | package name | option name value => cases hmap
      | block b' =>
        cases hmap
        rw [Block.mapFields, memberFields_mapField, List.map_map]
        have hid : (·.id) ∘ Field.withDefault (front.length + 1) default? = (·.id) :=
          funext (Field.withDefault_id _ _)
        rw [hid]
        exact hids b' hitem
    · rw [messagesAfter_mapFields]
      rfl
  obtain ⟨idCheck, emptyInput⟩ := policy
  cases emptyInput with
  | accept => exact haccept
  | reject =>
    refine compileText_reject_eq_ok.2 ⟨haccept, fun hnil => ?_⟩
    exact (compileText_reject_eq_ok.1 h).2 (List.map_eq_nil_iff.1 hnil)

theorem exists_message_of_line {policy : Policy} {text : String}
    (hline : Says (front.length + 1, code line) (.field f))
    (htext : textLines text.toList = front ++ line :: behind) {messages : List Message}
    (h : (compileText policy text).result = .ok messages) : ∃ m ∈ messages, f ∈ m.fields := by
  obtain ⟨items, hsays, -, rfl⟩ := (compileText_eq_ok _ _ _).1 (compileText_accept h)
  rw [htext, codeLines_of_ne_nil hline.ne_nil] at hsays
  obtain ⟨clause, hclause, hsaid⟩ :=
    exists_clause_of_mem hsays (List.mem_append_right _ List.mem_cons_self)
  obtain rfl := hsaid.unique hline
  exact exists_message_of_field [] hclause

end Texts

/-- Two texts that differ in one line: a field without default, and the same field with a quoted
default and a comment, in any layout. If the first one compiles then so does the other. It has the
same messages, save that the default of this field is the quoted text, character for character, and
nothing of the comment is left; and the other way round. -/
theorem compileText_quotedDefault (policy : Policy) (slot : DefaultSlot) {quote : Char}
    {body v w z comment : List Char} (hquote : IsQuote quote) (hbody : LiteralBody quote body)
    (hline : '\n' ∉ body) (hv : AllBlank v) (hw : AllBlank w) (hz : AllBlank z)
    {front behind : List (List Char)} {bare text : String}
    (hbare : textLines bare.toList = front ++ slot.bareLine :: behind)
    (htext : textLines text.toList =
      front ++ slot.commentedLine (v ++ enclosed quote body ++ w) z comment :: behind) :
    let n := front.length + 1
    let literal := quote :: (body ++ [quote])
    (∀ messages, (compileText policy bare).result = .ok messages →
      let messages' := messages.map (Message.withDefault n (some (String.ofList literal)))
      (compileText policy text).result = .ok messages' ∧
      ∃ m ∈ messages', slot.field n literal ∈ m.fields) ∧
    ∀ messages, (compileText policy text).result = .ok messages →
      (compileText policy bare).result = .ok (messages.map (Message.withDefault n none)) := by
  intro n literal
  have hliteral : IsLiteral (v ++ enclosed quote body ++ w) literal :=
    isLiteral_enclosed hquote hline hv hw
  have hsaidBare : Says (n, code slot.bareLine)
      (.field { slot.field n literal with default? := none }) := by
    rw [slot.code_bareLine]
    exact slot.says_bareLine n literal
  have hsaidText : Says (n, code (slot.commentedLine (v ++ enclosed quote body ++ w) z comment))
      (.field (slot.field n literal)) := by
    rw [slot.code_commentedLine hquote hbody hv hw hz]
    exact DefaultSlot.declares hliteral
  refine ⟨fun messages hmessages => ?_, fun messages hmessages => ?_⟩
  · intro messages'
    have hresult : (compileText policy text).result = .ok messages' :=
      compileText_withDefault hsaidBare hsaidText hbare htext hmessages
    exact ⟨hresult, exists_message_of_line hsaidText htext hresult⟩
  · exact compileText_withDefault hsaidText hsaidBare htext hbare hmessages

/-- A default that looks like a comment and like the end of its line, with a quote in it, and a
comment that looks like a default. -/
theorem compileText_quotedDefault_runs :
    LiteralBody '"' "//];'\\\"\u00e9".toList ∧
    (compileText {} "message A \x7b\noptional string s = 1 ;\n\x7d").result =
      .ok [{ name := "A", line := 1, fields :=
        [{ id := 1, name := "s", type := .scalar .string, scope := .optional, line := 2 }] }] ∧
    (compileText {} ("message A \x7b\n" ++
      "optional string s = 1 [default = \"//];'\\\"\u00e9\"]; // [default = \"c\"];\n\x7d")).result =
      .ok [{ name := "A", line := 1, fields :=
        [{ id := 1, name := "s", type := .scalar .string, scope := .optional, line := 2
           default? := some "\"//];'\\\"\u00e9\"" }] }] := by
  have hquote : IsQuote '"' := .inl rfl
  have hbody : LiteralBody '"' "//];'\\\"\u00e9".toList :=
    .char (by decide) (by decide) <| .char (by decide) (by decide) <|
    .char (by decide) (by decide) <| .char (by decide) (by decide) <|
    .char (by decide) (by decide) <| .escape <| .char (by decide) (by decide) .nil
  have hspace : AllBlank [' '] := List.all_eq_true.1 (by decide)
  have hresult : (compileText {} "message A \x7b\noptional string s = 1 ;\n\x7d").result =
      .ok [{ name := "A", line := 1, fields :=
        [{ id := 1, name := "s", type := .scalar .string, scope := .optional, line := 2 }] }] := by
    rfl
  have hbare : textLines "message A \x7b\noptional string s = 1 ;\n\x7d".toList =
      ["message A \x7b".toList] ++ DefaultSlot.plain.bareLine :: ["\x7d".toList] := by decide
  have htext : textLines ("message A \x7b\n" ++
      "optional string s = 1 [default = \"//];'\\\"\u00e9\"]; // [default = \"c\"];\n\x7d").toList =
      ["message A \x7b".toList] ++ DefaultSlot.plain.commentedLine
        (" ".toList ++ enclosed '"' "//];'\\\"\u00e9".toList ++ []) " ".toList
        " [default = \"c\"];".toList :: ["\x7d".toList] := by decide
  have h := compileText_quotedDefault {} .plain hquote hbody (by decide) hspace allBlank_nil hspace
    hbare htext
  exact ⟨hbody, hresult, (h.1 _ hresult).1⟩

end ProtoSchema
