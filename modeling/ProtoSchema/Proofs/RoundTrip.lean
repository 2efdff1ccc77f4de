import ProtoSchema.Proofs.Printing

/-!
# Compiling printed messages

A printed schema compiles to the messages that it was printed from, on the lines where they were
printed, and whatever compiles can be printed.

**Lines.** A message knows the lines of its text, which printing cannot keep. `reline` sets them to
the lines of the printed text and changes nothing else (`map_withoutLines_reline`).

**The file.** `printedItems` is the tree of the printed schema. Its clauses are what the printed
lines say (`prints_schema`), and its messages are the printed ones (`messagesAfter_printedItems`).

Results:
* `prints_schema`: the printed lines say the printed file;
* `messagesAfter_printedItems`: the messages of the printed file;
* `compileText_schemaText`: a printed schema compiles to its messages, and what compiles is well
  formed.
-/
namespace ProtoSchema

open Text

/-! ## Line numbers -/

/-- The fields as declared on lines in a row, the first of them on line `n`. -/
def relineFields (n : Nat) : List Field → List Field
  | [] => []
  | f :: fields => { f with line := n } :: relineFields (n + 1) fields

/-- The message as it starts on line `n`. -/
def Message.reline (n : Nat) (m : Message) : Message :=
  { m with line := n, fields := relineFields (n + 1) m.fields }

/-- The messages as printed behind `n` lines. -/
def reline (n : Nat) (package? : Option String) : List Message → List Message
  | [] => []
  | m :: messages =>
    let k := n + (packageLines package? m).length
    m.reline (k + 1) :: reline (k + m.lines.length) m.package? messages

def Field.withoutLine (f : Field) : Field :=
  { f with line := 0 }

def Message.withoutLines (m : Message) : Message :=
  { m with line := 0, fields := m.fields.map Field.withoutLine }

theorem map_withoutLine_relineFields (n : Nat) (fields : List Field) :
    (relineFields n fields).map Field.withoutLine = fields.map Field.withoutLine := by
  induction fields generalizing n with
  | nil => rfl
  | cons f fields ih => rw [relineFields, List.map_cons, List.map_cons, ih]; rfl

/-- Printing moves messages and fields to other lines and changes nothing else. -/
theorem map_withoutLines_reline (n : Nat) (package? : Option String) (messages : List Message) :
    (reline n package? messages).map Message.withoutLines =
      messages.map Message.withoutLines := by
  induction messages generalizing n package? with
  | nil => rfl
  | cons m messages ih =>
    have hm : (m.reline (n + (packageLines package? m).length + 1)).withoutLines =
        m.withoutLines := by
      rw [Message.withoutLines, Message.reline, map_withoutLine_relineFields]
      rfl
    rw [reline, List.map_cons, List.map_cons, ih, hm]

theorem map_id_relineFields (n : Nat) (fields : List Field) :
    (relineFields n fields).map (·.id) = fields.map (·.id) := by
  induction fields generalizing n with
  | nil => rfl
  | cons f fields ih => rw [relineFields, List.map_cons, List.map_cons, ih]

/-! ## Printed trees -/

/-- Behind `n` other lines, these lines of code say these clauses. -/
structure Prints (n : Nat) (lines : List String) (clauses : List Clause) : Prop where
  isCode : ∀ line ∈ lines, IsCode line.toList
  said : List.Forall₂ Says (codeLines n (lines.map String.toList)) clauses

theorem prints_nil (n : Nat) : Prints n [] [] :=
  ⟨nofun, .nil⟩

theorem Prints.append {n : Nat} {front behind : List String} {clauses clauses' : List Clause}
    (hfront : Prints n front clauses) (hbehind : Prints (n + front.length) behind clauses') :
    Prints n (front ++ behind) (clauses ++ clauses') := by
  refine ⟨List.forall_mem_append.2 ⟨hfront.isCode, hbehind.isCode⟩, ?_⟩
  rw [List.map_append, codeLines_append, List.length_map]
  exact List.rel_append hfront.said hbehind.said

theorem Prints.cons {n : Nat} {line : String} {lines : List String} {clause : Clause}
    {clauses : List Clause} (hcode : IsCode line.toList) (hsaid : Says (n + 1, line.toList) clause)
    (hrest : Prints (n + 1) lines clauses) : Prints n (line :: lines) (clause :: clauses) := by
  refine ⟨List.forall_mem_cons.2 ⟨hcode, hrest.isCode⟩, ?_⟩
  rw [List.map_cons, codeLines, hcode.code_eq, if_neg hcode.ne_nil]
  exact .cons hsaid hrest.said

theorem prints_blockEnd (n : Nat) : Prints n ["\x7d"] [.blockEnd] :=
  .cons isCode_blockEnd (says_blockEnd _) (prints_nil _)

theorem prints_values (n : Nat) {values : List EnumValue} (h : ∀ v ∈ values, v.WellFormed) :
    Prints n (values.map EnumValue.declaration) (values.map .enumValue) := by
  induction values generalizing n with
  | nil => exact prints_nil n
  | cons v values ih =>
    obtain ⟨hv, hvalues⟩ := List.forall_mem_cons.1 h
    exact .cons (isCode_valueLine hv) (says_valueLine _ hv) (ih (n + 1) hvalues)

theorem prints_enum (n : Nat) {e : EnumDef} (h : e.WellFormed) :
    Prints n e.lines (Member.enum e).clauses :=
  .cons (isCode_enumLine h.name) (says_enumLine _ h.name)
    ((prints_values _ h.values).append (prints_blockEnd _))

theorem prints_enums (n : Nat) {enums : List EnumDef} (h : ∀ e ∈ enums, e.WellFormed) :
    Prints n (enums.flatMap EnumDef.lines) ((enums.map Member.enum).flatMap Member.clauses) := by
  induction enums generalizing n with
  | nil => exact prints_nil n
  | cons e enums ih =>
    obtain ⟨he, henums⟩ := List.forall_mem_cons.1 h
    exact (prints_enum n he).append (ih _ henums)

theorem prints_fields (n : Nat) {fields : List Field} (h : ∀ f ∈ fields, f.WellFormed) :
    Prints n (fields.map Field.declaration)
      (((relineFields (n + 1) fields).map Member.field).flatMap Member.clauses) := by
  induction fields generalizing n with
  | nil => exact prints_nil n
  | cons f fields ih =>
    obtain ⟨hf, hfields⟩ := List.forall_mem_cons.1 h
    exact .cons (isCode_fieldLine hf) (says_fieldLine _ hf.declarable) (ih (n + 1) hfields)

/-- The block that is printed for a message, from line `n` on. -/
def Message.block (n : Nat) (m : Message) : Block :=
  { name := m.name
    line := n
    members := (relineFields (n + 1) m.fields).map .field ++ m.enums.map .enum }

theorem prints_message (n : Nat) {m : Message} (h : m.WellFormed) :
    Prints n m.lines (m.block (n + 1)).clauses := by
  refine .cons (isCode_messageLine h.name) (says_messageLine _ h.name) ?_
  rw [Message.block, memberClauses, List.flatMap_append, List.append_assoc]
  exact (prints_fields _ h.fields).append ((prints_enums _ h.enums).append (prints_blockEnd _))

/-- What is printed in front of a message, as a part of the file. -/
def packageItems (package? : Option String) (m : Message) : List Item :=
  if m.package? = package? then [] else (m.package?.map .package).toList

/-- The file that is printed for these messages behind `n` lines. -/
def printedItems (n : Nat) (package? : Option String) : List Message → List Item
  | [] => []
  | m :: messages =>
    let k := n + (packageLines package? m).length
    packageItems package? m ++
      (.block (m.block (k + 1)) :: printedItems (k + m.lines.length) m.package? messages)

theorem prints_package (n : Nat) {package? : Option String} {m : Message}
    (h : ∀ name, m.package? = some name → isDottedName name.toList = true) :
    Prints n (packageLines package? m) ((packageItems package? m).flatMap Item.clauses) := by
  unfold packageLines packageItems
  split
  · exact prints_nil n
  · cases hpackage : m.package? with
    | none => exact prints_nil n
    | some name =>
      have hname := h name hpackage
      exact .cons (isCode_packageLine hname) (says_packageLine _ hname) (prints_nil _)

theorem prints_schema (n : Nat) (package? : Option String) {messages : List Message}
    (h : ∀ m ∈ messages, m.WellFormed)
    (hpackage : ∀ m ∈ messages, ∀ name, m.package? = some name → isDottedName name.toList = true) :
    Prints n (schemaLines package? messages)
      ((printedItems n package? messages).flatMap Item.clauses) := by
  induction messages generalizing n package? with
  | nil => exact prints_nil n
  | cons m messages ih =>
    obtain ⟨hm, hmessages⟩ := List.forall_mem_cons.1 h
    obtain ⟨hmpackage, hpackages⟩ := List.forall_mem_cons.1 hpackage
    rw [printedItems, List.flatMap_append]
    exact (prints_package n hmpackage).append
      ((prints_message _ hm).append (ih _ _ hmessages hpackages))

/-! ## Messages of the printed file -/

theorem memberPackages_block (n : Nat) (m : Message) :
    memberPackages (m.block n).members = [] := by
  simp [Message.block, memberPackages]

theorem memberFields_block (n : Nat) (m : Message) :
    memberFields (m.block n).members = relineFields (n + 1) m.fields := by
  simp [Message.block, memberFields, List.filterMap_map]

theorem memberEnums_block (n : Nat) (m : Message) : memberEnums (m.block n).members = m.enums := by
  simp [Message.block, memberEnums, List.filterMap_map]

/-- Where this package, if any, is declared already, the messages keep it or declare the first. -/
def KeepsPackage : Option String → List Message → Prop
  | _, [] => True
  | package?, m :: messages =>
    (m.package? = package? ∨ package? = none) ∧ KeepsPackage m.package? messages

theorem keepsPackage_of_eq {name : String} {messages : List Message}
    (h : ∀ m ∈ messages, m.package? = some name) : KeepsPackage (some name) messages := by
  induction messages with
  | nil => trivial
  | cons m messages ih =>
    obtain ⟨hm, hmessages⟩ := List.forall_mem_cons.1 h
    rw [KeepsPackage, hm]
    exact ⟨.inl rfl, ih hmessages⟩

theorem WellFormed.keepsPackage {messages : List Message} (h : WellFormed messages) :
    KeepsPackage none messages := by
  obtain ⟨front, behind, name, rfl, hfront, hbehind⟩ := h.package
  have hname : ∀ m ∈ behind, m.package? = some name := fun m hm => (hbehind m hm).1
  clear h
  induction front with
  | nil =>
    cases behind with
    | nil => trivial
    | cons m behind =>
      obtain ⟨hm, hrest⟩ := List.forall_mem_cons.1 hname
      refine ⟨.inr rfl, ?_⟩
      rw [hm]
      exact keepsPackage_of_eq hrest
  | cons m front ih =>
    obtain ⟨hm, hrest⟩ := List.forall_mem_cons.1 hfront
    refine ⟨.inr rfl, ?_⟩
    rw [hm]
    exact ih hrest

/-- Behind what is printed in front of a message, its package is the first that is declared. -/
theorem messagesAfter_packageItems {declared : List String} {package? : Option String} {m : Message}
    (hdeclared : declared.head? = package?) (h : m.package? = package? ∨ package? = none) :
    ∃ declared', declared'.head? = m.package? ∧ ∀ items,
      messagesAfter declared (packageItems package? m ++ items) =
        messagesAfter declared' items := by
  unfold packageItems
  split
  · next heq => exact ⟨declared, hdeclared.trans heq.symm, fun items => rfl⟩
  · next hne =>
    obtain rfl := h.resolve_left hne
    obtain rfl := List.head?_eq_none_iff.1 hdeclared
    obtain ⟨name, hname⟩ := Option.ne_none_iff_exists'.1 hne
    rw [hname]
    exact ⟨[name], rfl, fun items => rfl⟩

theorem messagesAfter_printedItems {n : Nat} {declared : List String} {package? : Option String}
    {messages : List Message} (hdeclared : declared.head? = package?)
    (h : KeepsPackage package? messages) :
    messagesAfter declared (printedItems n package? messages) = reline n package? messages := by
  induction messages generalizing n declared package? with
  | nil => rfl
  | cons m messages ih =>
    obtain ⟨declared', hhead, hitems⟩ := messagesAfter_packageItems hdeclared h.1
    rw [printedItems, reline, hitems, messagesAfter, memberPackages_block, List.append_nil,
      Block.message, memberFields_block, memberEnums_block, hhead, ih hhead h.2]
    rfl

theorem nodup_of_mem_printedItems {n : Nat} {package? : Option String} {messages : List Message}
    (h : ∀ m ∈ messages, m.WellFormed) :
    ∀ b, Item.block b ∈ printedItems n package? messages →
      ((memberFields b.members).map (·.id)).Nodup := by
  induction messages generalizing n package? with
  | nil => nofun
  | cons m messages ih =>
    obtain ⟨hm, hmessages⟩ := List.forall_mem_cons.1 h
    intro b hb
    rcases List.mem_append.1 hb with hb | hb
    · unfold packageItems at hb
      split at hb
      · cases hb
      · simp at hb
    · rcases List.mem_cons.1 hb with hb | hb
      · obtain rfl := Item.block.inj hb
        rw [memberFields_block, map_id_relineFields]
        exact hm.ids
      · exact ih hmessages b hb

/-! ## Printed texts -/

theorem textLines_flatMap {lines : List String} (h : ∀ line ∈ lines, IsCode line.toList) :
    textLines (lines.flatMap fun line => line.toList ++ ['\n']) = lines.map String.toList := by
  induction lines with
  | nil => rfl
  | cons line lines ih =>
    obtain ⟨hline, hlines⟩ := List.forall_mem_cons.1 h
    rw [List.flatMap_cons, List.append_assoc, List.map_cons, ← ih hlines]
    exact splitLines_append_newline hline.oneLine (hline.getLast?_ne (by decide)) _

/-- Well-formed messages are compiled from their own text, with either search for repeated ids, up
to the lines, which are those of the text. And no other messages are compiled from any text. -/
theorem compileText_schemaText (idCheck : IdCheck) :
    (∀ messages, WellFormed messages →
      (compileText ⟨idCheck, .accept⟩ (schemaText messages)).result =
          .ok (reline 0 none messages) ∧
        (reline 0 none messages).map Message.withoutLines =
          messages.map Message.withoutLines) ∧
    ∀ text messages, (compileText ⟨idCheck, .accept⟩ text).result = .ok messages →
      WellFormed messages := by
  refine ⟨fun messages h => ⟨?_, map_withoutLines_reline 0 none messages⟩,
    fun text messages => wellFormed_of_compileText⟩
  have hpackage : ∀ m ∈ messages, ∀ name, m.package? = some name →
      isDottedName name.toList = true := by
    obtain ⟨front, behind, name, rfl, hfront, hbehind⟩ := h.package
    intro m hm other hother
    rcases List.mem_append.1 hm with hm | hm
    · rw [hfront m hm] at hother
      cases hother
    · obtain ⟨hname, hdotted⟩ := hbehind m hm
      rw [hname] at hother
      cases hother
      exact hdotted
  have hprints := prints_schema 0 none h.each hpackage
  have hmessages : messagesAfter [] (printedItems 0 none messages) = reline 0 none messages :=
    messagesAfter_printedItems rfl h.keepsPackage
  rw [compileText_eq_ok_iff, schemaText, String.toList_ofList, textLines_flatMap hprints.isCode]
  refine ⟨⟨.topLevel (printedItems 0 none messages), rfl, hprints.said, hmessages.symm⟩, ?_⟩
  rw [← hmessages, firstIdFault?_messagesAfter]
  exact nodup_of_mem_printedItems h.each

/-- A message with a default and an enum, and a text with a comment. -/
theorem compileText_schemaText_runs :
    (compileText ⟨.atEnd, .accept⟩ (schemaText [{
        name := "A"
        package? := some "p.q"
        fields := [{
          id := 7, name := "x", type := .reference ".B", scope := .optional
          default? := some "\"//\"" }]
        enums := [{ name := "E", values := [{ label := "N", value := -1 }] }] }])).result =
      .ok [{
        name := "A"
        package? := some "p.q"
        line := 2
        fields := [{
          id := 7, name := "x", type := .reference ".B", scope := .optional
          default? := some "\"//\"", line := 3 }]
        enums := [{ name := "E", values := [{ label := "N", value := -1 }] }] }] ∧
    WellFormed [{ name := "A", line := 1 }] := by
  refine ⟨((compileText_schemaText .atEnd).1 _ ⟨?_, ?_⟩).1, ?_⟩
  · intro m hm
    obtain rfl := List.mem_singleton.1 hm
    refine ⟨by decide, fun f hf => ?_, by decide, fun e he => ?_⟩
    · obtain rfl := List.mem_singleton.1 hf
      refine ⟨by decide, by decide, ⟨by decide, by decide⟩, fun literal hliteral => ?_⟩
      obtain rfl := Option.some.inj hliteral
      exact ⟨by decide, by decide, .inl (by decide), by decide⟩
    · obtain rfl := List.mem_singleton.1 he
      refine ⟨by decide, fun v hv => ?_⟩
      obtain rfl := List.mem_singleton.1 hv
      exact ⟨by decide, fun scope => by cases scope <;> decide⟩
  · refine ⟨[], _, "p.q", rfl, nofun, fun m hm => ?_⟩
    obtain rfl := List.mem_singleton.1 hm
    exact ⟨rfl, by decide⟩
  · exact (compileText_schemaText .whileReading).2 "message A \x7b // open\n\x7d" _ (by rfl)

end ProtoSchema
