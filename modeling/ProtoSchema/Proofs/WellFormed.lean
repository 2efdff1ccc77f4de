import ProtoSchema.Proofs.Comments
import ProtoSchema.Proofs.Sentences

/-!
# Well-formed messages

What every compiled list of messages has in common. Names are identifiers, no label of an enum is
the keyword of a scope, the ids of each message are positive and distinct, and a default is a
literal that its line can hold. The messages up to some point have no package, and those behind it
share one.

Results:
* `IsDefault.isLiteral`, `isDefault_of_isLiteral`: which literals a default may be;
* `Says.declarable`, `Says.wellFormed`: what a line says, and what a line of code says;
* `wellFormed_of_compileText`: what compiles is well formed.
-/
namespace ProtoSchema

open Text

/-! ## Conditions -/

/-- A default as a message keeps it: not empty, on one line, without blanks around it unless it is
a single blank, and without a comment. -/
structure IsDefault (literal : List Char) : Prop where
  ne_nil : literal ≠ []
  oneLine : '\n' ∉ literal
  trimmed : trim literal = literal ∨ ∃ c, isBlank c = true ∧ literal = [c]
  noComment : beforeComment .outside literal = literal

/-- The name of a type, as its field was declared with it. -/
def FieldType.WellFormed : FieldType → Prop
  | .scalar _ => True
  | .reference name => isTypeName name.toList = true ∧ ScalarType.ofKeyword? name = none

structure Field.WellFormed (f : Field) : Prop where
  name : isIdentifier f.name.toList = true
  id : f.id ≠ 0
  type : f.type.WellFormed
  default : ∀ literal, f.default? = some literal → IsDefault literal.toList

/-- A field that a line can declare. Its default is what stands between a sign of equality and a
bracket if it is written there behind a space. -/
structure Field.Declarable (f : Field) : Prop where
  name : isIdentifier f.name.toList = true
  id : f.id ≠ 0
  type : f.type.WellFormed
  default : ∀ literal, f.default? = some literal → IsLiteral (' ' :: literal.toList) literal.toList

structure EnumValue.WellFormed (v : EnumValue) : Prop where
  label : isIdentifier v.label.toList = true
  noScope : ∀ scope : Scope, v.label ≠ scope.keyword

structure EnumDef.WellFormed (e : EnumDef) : Prop where
  name : isIdentifier e.name.toList = true
  values : ∀ v ∈ e.values, v.WellFormed

instance (v : EnumValue) : Decidable v.WellFormed :=
  decidable_of_iff (isIdentifier v.label.toList = true ∧
      ∀ scope ∈ Scope.all, v.label ≠ scope.keyword)
    ⟨fun h => ⟨h.1, fun scope => h.2 scope scope.mem_all⟩,
      fun h => ⟨h.label, fun scope _ => h.noScope scope⟩⟩

instance (e : EnumDef) : Decidable e.WellFormed :=
  decidable_of_iff (isIdentifier e.name.toList = true ∧ ∀ v ∈ e.values, v.WellFormed)
    ⟨fun h => ⟨h.1, h.2⟩, fun h => ⟨h.name, h.values⟩⟩

structure Message.WellFormed (m : Message) : Prop where
  name : isIdentifier m.name.toList = true
  fields : ∀ f ∈ m.fields, f.WellFormed
  ids : (m.fields.map (·.id)).Nodup
  enums : ∀ e ∈ m.enums, e.WellFormed

structure WellFormed (messages : List Message) : Prop where
  each : ∀ m ∈ messages, m.WellFormed
  /-- The first messages have no package and the others share one. -/
  package : ∃ (front behind : List Message) (name : String), messages = front ++ behind ∧
    (∀ m ∈ front, m.package? = none) ∧
    ∀ m ∈ behind, m.package? = some name ∧ isDottedName name.toList = true

/-! ## Literals -/

theorem IsLiteral.padded {inner literal : List Char} (h : IsLiteral inner literal) :
    IsLiteral (' ' :: literal) literal := by
  have hspace : AllBlank [' '] := by
    intro c hc
    rw [List.mem_singleton.1 hc]
    decide
  cases h with
  | trimmed _ _ hne hline hstart hend =>
    have hliteral := IsLiteral.trimmed hspace allBlank_nil hne hline hstart hend
    rwa [List.append_nil] at hliteral
  | blank _ hc hne _ => exact .blank hspace hc hne nofun

theorem IsDefault.isLiteral {literal : List Char} (h : IsDefault literal) :
    IsLiteral (' ' :: literal) literal := by
  rcases h.trimmed with htrim | ⟨c, hc, rfl⟩
  · obtain ⟨v, w, _, _, _, hstart, hend⟩ := exists_trim literal
    rw [htrim] at hstart hend
    exact (IsLiteral.trimmed allBlank_nil allBlank_nil h.ne_nil h.oneLine hstart hend).padded
  · have hne : c ≠ '\n' := fun heq => h.oneLine (heq ▸ List.mem_cons_self)
    have hliteral : IsLiteral [c] [c] := .blank allBlank_nil hc hne nofun
    exact hliteral.padded

theorem Field.WellFormed.declarable {f : Field} (h : f.WellFormed) : f.Declarable :=
  ⟨h.name, h.id, h.type, fun literal hliteral => (h.default literal hliteral).isLiteral⟩

/-- A literal of a line without comment, behind a text that is plain, may be a default. -/
theorem isDefault_of_isLiteral {before inner literal : List Char} (after : List Char)
    (h : IsLiteral inner literal) (hbefore : Plain before)
    (hcomment : beforeComment .outside (before ++ (inner ++ after)) = before ++ (inner ++ after)) :
    IsDefault literal := by
  have hinner : beforeComment .outside inner = inner := by
    rw [beforeComment_plain_append hbefore] at hcomment
    exact beforeComment_of_append (List.append_cancel_left hcomment)
  cases h with
  | @trimmed u literal w hu hw hne hline hstart hend =>
    have htrim : trim literal = literal := by
      simpa using trim_eq allBlank_nil allBlank_nil hstart hend
    rw [List.append_assoc, beforeComment_plain_append hu.plain] at hinner
    exact ⟨hne, hline, .inl htrim, beforeComment_of_append (List.append_cancel_left hinner)⟩
  | @blank u w c hu hc hne hw =>
    have hblank : AllBlank [c] := allBlank_cons.2 ⟨hc, allBlank_nil⟩
    refine ⟨List.cons_ne_nil _ _, by simpa using hne.symm, .inr ⟨c, hc, rfl⟩, ?_⟩
    exact beforeComment_plain_append hblank.plain []

/-! ## Clauses -/

def Clause.WellFormed : Clause → Prop
  | .blockEnd => True
  | .package name => isDottedName name.toList = true
  | .messageStart name _ => isIdentifier name.toList = true
  | .enumStart name => isIdentifier name.toList = true
  | .field f => f.WellFormed
  | .enumValue v => v.WellFormed
  | .option _ _ => True

theorem wellFormed_ofToken {token : List Char} (h : IsTypePath token) :
    (FieldType.ofToken (String.ofList token)).WellFormed := by
  unfold FieldType.ofToken
  split
  · trivial
  · next hnone => exact ⟨by rw [String.toList_ofList, isTypeName_iff]; exact h, hnone⟩

/-- What stands on the line of a field in front of its default is plain. -/
theorem isDefault_of_written {line digits : List Char} {f : Field} {literal : String}
    (h : Statement.Written (.field (f.decl digits)) line)
    (hcomment : beforeComment .outside line = line) (hdefault : f.default? = some literal) :
    IsDefault literal.toList := by
  generalize hdecl : f.decl digits = decl at h
  cases h with
  | @field u v type w name x y digits' z tail scope literal? hu hv _ htype hw _ hname hx hy _
      hdigits hz htail =>
    have hliteral : literal?.map String.ofList = some literal := by
      rw [← hdefault]
      exact (congrArg FieldDecl.default? hdecl).symm
    cases htail with
    | plain => cases hliteral
    | @default v' w' inner x' chars hv' hw' hinner hx' =>
      obtain rfl := Option.some.inj hliteral
      rw [String.toList_ofList]
      have hfront : Plain (u ++ scope.keyword.toList ++ v ++ type ++ w ++ name ++ x ++ "=".toList ++
          y ++ digits' ++ z ++ ("[".toList ++ v' ++ "default".toList ++ w' ++ "=".toList)) := by
        have hscope : Plain scope.keyword.toList :=
          plain_of_forall (List.all_eq_true.1 (Statement.all_isNameChar_keyword scope)) (by decide)
        have htype : Plain type := plain_of_forall (isDottedChar_of_mem_typePath htype) (by decide)
        have hname : Plain name := plain_of_forall (isNameChar_of_mem_identifier hname) (by decide)
        have hdigits : Plain digits' := plain_of_forall hdigits (by decide)
        simp only [plain_append, and_assoc]
        exact ⟨hu.plain, hscope, hv.plain, htype, hw.plain, hname, hx.plain,
          plain_of_all (by decide), hy.plain, hdigits, hz.plain, plain_of_all (by decide),
          hv'.plain, plain_of_all (by decide), hw'.plain, plain_of_all (by decide)⟩
      refine isDefault_of_isLiteral ("]".toList ++ x' ++ ";".toList) hinner hfront ?_
      simpa only [List.append_assoc] using hcomment

theorem Says.declarable {n : Nat} {line : List Char} {f : Field} (h : Says (n, line) (.field f)) :
    f.Declarable := by
  cases h with
  | @field n line digits f hw hdigits hid hline =>
    generalize hdecl : f.decl digits = decl at hw
    cases hw with
    | @field _ _ type _ name _ _ _ _ tail _ literal? _ _ _ htype _ _ hname _ _ _ _ _ htail =>
      refine ⟨?_, hid, ?_, fun literal hdefault => ?_⟩
      · rw [show f.name = _ from congrArg FieldDecl.name hdecl, String.toList_ofList]
        exact hname
      · rw [show f.type = _ from congrArg FieldDecl.type hdecl]
        exact wellFormed_ofToken htype
      · have hliteral : literal?.map String.ofList = some literal := by
          rw [← hdefault]
          exact (congrArg FieldDecl.default? hdecl).symm
        cases htail with
        | plain => cases hliteral
        | default _ _ hinner _ =>
          obtain rfl := Option.some.inj hliteral
          rw [String.toList_ofList]
          exact hinner.padded

theorem Says.wellFormed {n : Nat} {line : List Char} {clause : Clause} (h : Says (n, line) clause)
    (hcomment : beforeComment .outside line = line) : clause.WellFormed := by
  cases h with
  | blockEnd => trivial
  | option => trivial
  | package hw =>
    cases hw with
    | package _ _ _ hname =>
      rw [Clause.WellFormed, String.toList_ofList, isDottedName_iff]
      exact hname
  | messageStart hw =>
    cases hw with
    | messageStart _ _ _ hname =>
      rw [Clause.WellFormed, String.toList_ofList]
      exact hname
  | enumStart hw =>
    cases hw with
    | enumStart _ _ _ hname =>
      rw [Clause.WellFormed, String.toList_ofList]
      exact hname
  | enumValue hw hlabel => exact ⟨hw.isIdentifier_label, hlabel⟩
  | field hw hdigits hid hline =>
    have hdecl := (Says.field hw hdigits hid hline).declarable
    exact ⟨hdecl.name, hid, hdecl.type, fun _ hdefault => isDefault_of_written hw hcomment hdefault⟩

theorem exists_left_of_forall₂ {α β : Type} {R : α → β → Prop} {as : List α} {bs : List β}
    (h : List.Forall₂ R as bs) {b : β} (hb : b ∈ bs) : ∃ a ∈ as, R a b := by
  induction h with
  | nil => cases hb
  | @cons a first as bs hab _ ih =>
    rcases List.mem_cons.1 hb with rfl | hrest
    · exact ⟨a, List.mem_cons_self, hab⟩
    · obtain ⟨a', ha', hab'⟩ := ih hrest
      exact ⟨a', List.mem_cons_of_mem _ ha', hab'⟩

theorem exists_says_of_mem {numbered : List (Nat × List Char)} {clauses : List Clause}
    (h : List.Forall₂ Says numbered clauses) {clause : Clause} (hclause : clause ∈ clauses) :
    ∃ entry ∈ numbered, Says entry clause :=
  exists_left_of_forall₂ h hclause

theorem exists_clause_of_mem {numbered : List (Nat × List Char)} {clauses : List Clause}
    (h : List.Forall₂ Says numbered clauses) {entry : Nat × List Char} (hentry : entry ∈ numbered) :
    ∃ clause ∈ clauses, Says entry clause := by
  have hflip : List.Forall₂ (flip Says) clauses numbered := .flip h
  exact exists_left_of_forall₂ hflip hentry

theorem beforeComment_of_mem_codeLines {n : Nat} {lines : List (List Char)}
    {entry : Nat × List Char} (h : entry ∈ codeLines n lines) :
    beforeComment .outside entry.2 = entry.2 := by
  obtain ⟨_, line, _, rfl⟩ := exists_of_mem_codeLines h
  exact beforeComment_code line

/-! ## Messages -/

theorem clause_of_mem_memberClauses {members : List Member} {clause : Clause} {member : Member}
    (hmember : member ∈ members) (hclause : clause ∈ member.clauses) :
    clause ∈ memberClauses members :=
  List.mem_append_left _ (List.mem_flatMap.2 ⟨member, hmember, hclause⟩)

theorem wellFormed_message {b : Block} {declared : List String}
    (h : ∀ clause ∈ b.clauses, clause.WellFormed)
    (hids : ((memberFields b.members).map (·.id)).Nodup) : (b.message declared).WellFormed := by
  have hmembers : ∀ {member : Member} {clause : Clause}, member ∈ b.members →
      clause ∈ member.clauses → clause.WellFormed := fun hmember hclause =>
    h _ (List.mem_cons_of_mem _ (clause_of_mem_memberClauses hmember hclause))
  refine ⟨h _ List.mem_cons_self, fun f hf => ?_, hids, fun e he => ?_⟩
  · obtain ⟨member, hmember, hsome⟩ := List.mem_filterMap.1 hf
    cases member <;> cases hsome
    exact hmembers hmember List.mem_cons_self
  · obtain ⟨member, hmember, hsome⟩ := List.mem_filterMap.1 he
    cases member <;> cases hsome
    refine ⟨hmembers hmember List.mem_cons_self, fun v hv => ?_⟩
    have hvalue : Clause.enumValue v ∈ valueClauses e.values :=
      List.mem_append_left _ (List.mem_map_of_mem hv)
    exact hmembers hmember (List.mem_cons_of_mem _ hvalue)

theorem wellFormed_of_mem_messagesAfter {items : List Item} {declared : List String}
    (h : ∀ clause ∈ items.flatMap Item.clauses, clause.WellFormed)
    (hids : ∀ b, Item.block b ∈ items → ((memberFields b.members).map (·.id)).Nodup) :
    ∀ m ∈ messagesAfter declared items, m.WellFormed := by
  induction items generalizing declared with
  | nil => nofun
  | cons item items ih =>
    have hrest : ∀ clause ∈ items.flatMap Item.clauses, clause.WellFormed := fun clause hclause =>
      h clause (List.mem_append_right _ hclause)
    have hidsRest : ∀ b, Item.block b ∈ items →
        ((memberFields b.members).map (·.id)).Nodup := fun b hb =>
      hids b (List.mem_cons_of_mem _ hb)
    cases item with
    | package name => exact ih hrest hidsRest
    | option name value => exact ih hrest hidsRest
    | block b =>
      intro m hm
      rcases List.mem_cons.1 hm with rfl | hm
      · refine wellFormed_message (fun clause hclause => ?_) (hids b List.mem_cons_self)
        exact h clause (List.mem_append_left _ hclause)
      · exact ih hrest hidsRest m hm

/-! ## Packages -/

/-- Behind a package all messages have it. -/
theorem package?_of_mem_messagesAfter {items : List Item} {declared : List String} {name : String}
    (hdeclared : declared.head? = some name) :
    ∀ m ∈ messagesAfter declared items, m.package? = some name := by
  induction items generalizing declared with
  | nil => nofun
  | cons item items ih =>
    have hmore : ∀ more, (declared ++ more).head? = some name := by
      intro more
      rw [List.head?_append, hdeclared]
      rfl
    cases item with
    | package other => exact ih (hmore [other])
    | option other value => exact ih hdeclared
    | block b =>
      intro m hm
      rcases List.mem_cons.1 hm with rfl | hm
      · exact hmore (memberPackages b.members)
      · exact ih (hmore (memberPackages b.members)) m hm

theorem package_messagesAfter {items : List Item}
    (h : ∀ clause ∈ items.flatMap Item.clauses, clause.WellFormed) :
    ∃ (front behind : List Message) (name : String), messagesAfter [] items = front ++ behind ∧
      (∀ m ∈ front, m.package? = none) ∧
      ∀ m ∈ behind, m.package? = some name ∧ isDottedName name.toList = true := by
  induction items with
  | nil => exact ⟨[], [], "", rfl, nofun, nofun⟩
  | cons item items ih =>
    have hrest : ∀ clause ∈ items.flatMap Item.clauses, clause.WellFormed := fun clause hclause =>
      h clause (List.mem_append_right _ hclause)
    cases item with
    | package name =>
      refine ⟨[], messagesAfter [name] items, name, rfl, nofun, fun m hm => ?_⟩
      exact ⟨package?_of_mem_messagesAfter rfl m hm, h (.package name) List.mem_cons_self⟩
    | option name value => exact ih hrest
    | block b =>
      cases hpackages : memberPackages b.members with
      | nil =>
        obtain ⟨front, behind, name, hmessages, hfront, hbehind⟩ := ih hrest
        refine ⟨b.message [] :: front, behind, name, ?_, ?_, hbehind⟩
        · rw [messagesAfter, hpackages, List.append_nil, hmessages]
          rfl
        · exact List.forall_mem_cons.2 ⟨rfl, hfront⟩
      | cons name names =>
        have hname : isDottedName name.toList = true := by
          have hmem : name ∈ memberPackages b.members := hpackages ▸ List.mem_cons_self
          obtain ⟨member, hmember, hsome⟩ := List.mem_filterMap.1 hmem
          cases member <;> cases hsome
          refine h (.package name) (List.mem_append_left _ (List.mem_cons_of_mem _ ?_))
          exact clause_of_mem_memberClauses hmember List.mem_cons_self
        refine ⟨[], messagesAfter [] (.block b :: items), name, rfl, nofun, fun m hm => ?_⟩
        refine ⟨?_, hname⟩
        rw [messagesAfter, hpackages, List.nil_append] at hm
        rcases List.mem_cons.1 hm with rfl | hm
        · rfl
        · exact package?_of_mem_messagesAfter rfl m hm

/-- What compiles is the list of messages of a file that the lines of code say. -/
theorem exists_items_of_compileText {idCheck : IdCheck} {text : String} {messages : List Message}
    (h : (compileText ⟨idCheck, .accept⟩ text).result = .ok messages) :
    ∃ items : List Item,
      List.Forall₂ Says (codeLines 0 (textLines text.toList)) (items.flatMap Item.clauses) ∧
      messages = messagesAfter [] items ∧ Message.firstIdFault? messages = none := by
  obtain ⟨⟨rest, hrest, hsays, hmessages⟩, hnone⟩ := compileText_eq_ok_iff.1 h
  cases rest with
  | topLevel items => exact ⟨items, hsays, hmessages, hnone⟩
  | inMessage members items => cases hrest
  | inEnum values members items => cases hrest

theorem wellFormed_of_compileText {idCheck : IdCheck} {text : String} {messages : List Message}
    (h : (compileText ⟨idCheck, .accept⟩ text).result = .ok messages) : WellFormed messages := by
  obtain ⟨items, hsays, rfl, hnone⟩ := exists_items_of_compileText h
  have hclauses : ∀ clause ∈ items.flatMap Item.clauses, clause.WellFormed := by
    intro clause hclause
    obtain ⟨entry, hentry, hsaid⟩ := exists_says_of_mem hsays hclause
    exact hsaid.wellFormed (beforeComment_of_mem_codeLines hentry)
  have hids := (firstIdFault?_messagesAfter [] items).1 hnone
  exact ⟨wellFormed_of_mem_messagesAfter hclauses hids, package_messagesAfter hclauses⟩

end ProtoSchema
