import Mathlib.Data.List.Forall2
import Mathlib.Data.List.ModifyLast
import ProtoSchema.Proofs.IdCheckTiming

/-!
# Schemas as sentences

The texts that compile are the sentences of a grammar over clauses, and the messages are read off
the tree of the sentence.

**The grammar.** A file is a sequence of packages, options and message blocks (`Item`). A block has
packages, options, fields and enums (`Member`) between its opening line and its closing brace, and
an enum has values between its own. `Item.clauses` lists the clauses of a tree in source order.

**The meaning.** `messagesAfter` has one message for each block, in source order. Its package is the
first one that is declared before the block ends, anywhere in the file.

**The proof.** `Rest` is what an assembly has still to read: the rest of the innermost open block
and of the blocks around it. One accepted line takes one clause off it (`Rest.Next`) and leaves the
messages that it stands for unchanged (`messages_next`).

Results:
* `exists_next`, `Rest.Next.takes`, `Rest.Next.of_takes`: a line is accepted exactly when its clause
  goes on with some rest;
* `complete_atEnd_eq_ok`: what an assembly accepts, from any state on;
* `compileText_eq_ok`: what compiles, and to which messages.
-/
namespace ProtoSchema

open Text

/-- A part of a message block. -/
inductive Member
  | package (name : String)
  | option (name value : String)
  | field (f : Field)
  | enum (e : EnumDef)

/-- A message block, which starts on this line. -/
structure Block where
  name : String
  line : Nat
  members : List Member

/-- A part of a file. -/
inductive Item
  | package (name : String)
  | option (name value : String)
  | block (b : Block)

/-! ## Clauses of a tree -/

/-- The clauses of an enum behind its opening line. -/
def valueClauses (values : List EnumValue) : List Clause :=
  values.map .enumValue ++ [.blockEnd]

def Member.clauses : Member → List Clause
  | .package name => [.package name]
  | .option name value => [.option name value]
  | .field f => [.field f]
  | .enum e => .enumStart e.name :: valueClauses e.values

/-- The clauses of a message block behind its opening line. -/
def memberClauses (members : List Member) : List Clause :=
  members.flatMap Member.clauses ++ [.blockEnd]

def Block.clauses (b : Block) : List Clause :=
  .messageStart b.name b.line :: memberClauses b.members

def Item.clauses : Item → List Clause
  | .package name => [.package name]
  | .option name value => [.option name value]
  | .block b => b.clauses

/-! ## Messages of a tree -/

/-- The packages that these members declare. -/
def memberPackages (members : List Member) : List String :=
  members.filterMap fun
    | .package name => some name
    | _ => none

def memberFields (members : List Member) : List Field :=
  members.filterMap fun
    | .field f => some f
    | _ => none

def memberEnums (members : List Member) : List EnumDef :=
  members.filterMap fun
    | .enum e => some e
    | _ => none

/-- The message of a block, where these packages are declared before the block ends. -/
def Block.message (b : Block) (declared : List String) : Message :=
  { name := b.name
    package? := declared.head?
    line := b.line
    fields := memberFields b.members
    enums := memberEnums b.members }

/-- The messages of a file in source order, where these packages are declared in front of it. -/
def messagesAfter (declared : List String) : List Item → List Message
  | [] => []
  | .package name :: items => messagesAfter (declared ++ [name]) items
  | .option _ _ :: items => messagesAfter declared items
  | .block b :: items =>
    b.message (declared ++ memberPackages b.members) ::
      messagesAfter (declared ++ memberPackages b.members) items

theorem firstIdFault?_messagesAfter (declared : List String) (items : List Item) :
    Message.firstIdFault? (messagesAfter declared items) = none ↔
      ∀ b, Item.block b ∈ items → ((memberFields b.members).map (·.id)).Nodup := by
  rw [Message.firstIdFault?_eq_none]
  induction items generalizing declared with
  | nil => simp [messagesAfter]
  | cons item items ih =>
    cases item with
    | package name => simp [messagesAfter, ih]
    | option name value => simp [messagesAfter, ih]
    | block b => simp [messagesAfter, ih, Block.message]

/-! ## What is still to be read -/

/-- The rest of a file, from some line on. -/
inductive Rest
  /-- Between two items. -/
  | topLevel (items : List Item)
  /-- The members up to the end of the open block, and the items behind it. -/
  | inMessage (members : List Member) (items : List Item)
  /-- The values up to the end of the open enum, and what is behind it. -/
  | inEnum (values : List EnumValue) (members : List Member) (items : List Item)

namespace Rest

def nesting : Rest → Nesting
  | .topLevel _ => .topLevel
  | .inMessage _ _ => .inMessage
  | .inEnum _ _ _ => .inEnum

def clauses : Rest → List Clause
  | .topLevel items => items.flatMap Item.clauses
  | .inMessage members items => memberClauses members ++ items.flatMap Item.clauses
  | .inEnum values members items =>
    valueClauses values ++ (memberClauses members ++ items.flatMap Item.clauses)

/-- The message under construction with these members, where these packages are declared before
its block ends. -/
def extend (m : Message) (declared : List String) (members : List Member) : Message :=
  { m with
    package? := declared.head?
    fields := m.fields ++ memberFields members
    enums := m.enums ++ memberEnums members }

/-- The messages that are not finished yet, where `m` is under construction and these packages are
declared. -/
def messages (m : Message) (declared : List String) : Rest → List Message
  | .topLevel items => messagesAfter declared items
  | .inMessage members items =>
    extend m (declared ++ memberPackages members) members ::
      messagesAfter (declared ++ memberPackages members) items
  | .inEnum values members items =>
    let enums := m.enums.modifyLast fun e => { e with values := e.values ++ values }
    extend { m with enums } (declared ++ memberPackages members) members ::
      messagesAfter (declared ++ memberPackages members) items

/-- The rest in front of a clause and the one behind it. -/
inductive Next : Rest → Clause → Rest → Prop
  | package {name : String} {items : List Item} :
      Next (.topLevel (.package name :: items)) (.package name) (.topLevel items)
  | option {name value : String} {items : List Item} :
      Next (.topLevel (.option name value :: items)) (.option name value) (.topLevel items)
  | messageStart {b : Block} {items : List Item} :
      Next (.topLevel (.block b :: items)) (.messageStart b.name b.line)
        (.inMessage b.members items)
  | memberPackage {name : String} {members : List Member} {items : List Item} :
      Next (.inMessage (.package name :: members) items) (.package name) (.inMessage members items)
  | memberOption {name value : String} {members : List Member} {items : List Item} :
      Next (.inMessage (.option name value :: members) items) (.option name value)
        (.inMessage members items)
  | field {f : Field} {members : List Member} {items : List Item} :
      Next (.inMessage (.field f :: members) items) (.field f) (.inMessage members items)
  | enumStart {e : EnumDef} {members : List Member} {items : List Item} :
      Next (.inMessage (.enum e :: members) items) (.enumStart e.name)
        (.inEnum e.values members items)
  | messageEnd {items : List Item} : Next (.inMessage [] items) .blockEnd (.topLevel items)
  | enumValue {v : EnumValue} {values : List EnumValue} {members : List Member}
      {items : List Item} :
      Next (.inEnum (v :: values) members items) (.enumValue v) (.inEnum values members items)
  | enumEnd {members : List Member} {items : List Item} :
      Next (.inEnum [] members items) .blockEnd (.inMessage members items)

theorem clauses_eq_nil {rest : Rest} : rest.clauses = [] ↔ rest = .topLevel [] := by
  cases rest with
  | topLevel items =>
    cases items with
    | nil => simp [clauses]
    | cons item items => cases item <;> simp [clauses, Item.clauses, Block.clauses]
  | inMessage members items => simp [clauses, memberClauses]
  | inEnum values members items => simp [clauses, valueClauses]

theorem Next.clauses_eq {rest rest' : Rest} {clause : Clause} (h : Next rest clause rest') :
    rest.clauses = clause :: rest'.clauses := by
  cases h <;>
    simp [clauses, Item.clauses, Block.clauses, Member.clauses, memberClauses, valueClauses]

theorem exists_next {rest : Rest} {clause : Clause} {behind : List Clause}
    (h : rest.clauses = clause :: behind) :
    ∃ rest', Next rest clause rest' ∧ rest'.clauses = behind := by
  have hnext : ∃ clause' rest', Next rest clause' rest' := by
    cases rest with
    | topLevel items =>
      cases items with
      | nil => cases h
      | cons item items =>
        cases item with
        | package name => exact ⟨_, _, .package⟩
        | option name value => exact ⟨_, _, .option⟩
        | block b => exact ⟨_, _, .messageStart⟩
    | inMessage members items =>
      cases members with
      | nil => exact ⟨_, _, .messageEnd⟩
      | cons member members =>
        cases member with
        | package name => exact ⟨_, _, .memberPackage⟩
        | option name value => exact ⟨_, _, .memberOption⟩
        | field f => exact ⟨_, _, .field⟩
        | enum e => exact ⟨_, _, .enumStart⟩
    | inEnum values members items =>
      cases values with
      | nil => exact ⟨_, _, .enumEnd⟩
      | cons v values => exact ⟨_, _, .enumValue⟩
  obtain ⟨clause', rest', hnext⟩ := hnext
  rw [hnext.clauses_eq] at h
  obtain ⟨rfl, hbehind⟩ := List.cons.inj h
  exact ⟨rest', hnext, hbehind⟩

theorem Next.takes {rest rest' : Rest} {clause : Clause} (h : Next rest clause rest') {m : Message}
    (hm : rest.nesting = .inEnum → m.enums ≠ []) (n : Nat) :
    ∃ accepted, Grammar.Takes n rest.nesting m clause accepted ∧
      accepted.nesting = rest'.nesting := by
  cases h with
  | package | memberPackage => exact ⟨_, .package nofun, rfl⟩
  | option | memberOption => exact ⟨_, .option nofun, rfl⟩
  | messageStart => exact ⟨_, .messageStart, rfl⟩
  | field => exact ⟨_, .field, rfl⟩
  | enumStart => exact ⟨_, .enumStart, rfl⟩
  | messageEnd => exact ⟨_, .messageEnd, rfl⟩
  | enumEnd => exact ⟨_, .enumEnd, rfl⟩
  | enumValue =>
    obtain ⟨enums, e, henums⟩ := (List.eq_nil_or_concat m.enums).resolve_left (hm rfl)
    exact ⟨_, .enumValue (henums.trans List.concat_eq_append), rfl⟩

/-- An accepted clause goes on with every rest behind it. -/
theorem Next.of_takes {n : Nat} {nesting : Nesting} {m : Message} {clause : Clause}
    {accepted : Grammar.Accepted} {rest' : Rest}
    (h : Grammar.Takes n nesting m clause accepted) (hrest : rest'.nesting = accepted.nesting) :
    ∃ rest, rest.nesting = nesting ∧ Next rest clause rest' := by
  cases h with
  | @messageStart m name line =>
    cases rest' <;> cases hrest
    next members items =>
    exact ⟨.topLevel (.block ⟨name, line, members⟩ :: items), rfl, .messageStart⟩
  | messageEnd =>
    cases rest' <;> cases hrest
    exact ⟨_, rfl, .messageEnd⟩
  | @enumStart m name =>
    cases rest' <;> cases hrest
    next values members items =>
    exact ⟨.inMessage (.enum ⟨name, values⟩ :: members) items, rfl, .enumStart⟩
  | enumEnd =>
    cases rest' <;> cases hrest
    exact ⟨_, rfl, .enumEnd⟩
  | field =>
    cases rest' <;> cases hrest
    exact ⟨_, rfl, .field⟩
  | enumValue =>
    cases rest' <;> cases hrest
    exact ⟨_, rfl, .enumValue⟩
  | package hnesting =>
    cases rest' with
    | topLevel items => exact ⟨.topLevel (.package _ :: items), hrest, .package⟩
    | inMessage members items =>
      exact ⟨.inMessage (.package _ :: members) items, hrest, .memberPackage⟩
    | inEnum values members items => exact absurd hrest.symm hnesting
  | option hnesting =>
    cases rest' with
    | topLevel items => exact ⟨.topLevel (.option _ _ :: items), hrest, .option⟩
    | inMessage members items =>
      exact ⟨.inMessage (.option _ _ :: members) items, hrest, .memberOption⟩
    | inEnum values members items => exact absurd hrest.symm hnesting

/-- A clause that ends no message leaves the messages of the rest unchanged. -/
theorem Next.messages_eq {rest rest' : Rest} {n : Nat} {m : Message} {clause : Clause}
    {accepted : Grammar.Accepted} (h : Next rest clause rest')
    (htakes : Grammar.Takes n rest.nesting m clause accepted)
    (hopen : accepted.signal.closed = false)
    (hblank : rest.nesting = .topLevel → ∃ package?, m = .blank package?)
    (henums : rest.nesting = .inEnum → m.enums ≠ []) (package? : Option String)
    (declared : List String) :
    messages { accepted.current with package? } (declared ++ accepted.signal.package?.toList)
      rest' = messages m declared rest := by
  cases h with
  | package | option =>
    cases htakes
    simp [messages, messagesAfter]
  | messageStart =>
    obtain ⟨package?, rfl⟩ := hblank rfl
    cases htakes
    simp [messages, messagesAfter, extend, Block.message, Message.blank]
  | memberPackage | memberOption | field =>
    cases htakes
    simp [messages, extend, memberPackages, memberFields, memberEnums]
  | enumStart =>
    cases htakes
    simp [messages, extend, memberPackages, memberFields, memberEnums, List.modifyLast_concat]
  | messageEnd =>
    cases htakes
    cases hopen
  | enumValue =>
    cases htakes with
    | enumValue henums =>
      simp [messages, extend, henums, List.modifyLast_concat]
  | enumEnd =>
    cases htakes
    obtain ⟨enums, e, hm⟩ := (List.eq_nil_or_concat m.enums).resolve_left (henums rfl)
    rw [List.concat_eq_append] at hm
    simp [messages, extend, hm, List.modifyLast_concat]

theorem Next.messages_of_closed {rest rest' : Rest} {n : Nat} {m : Message} {clause : Clause}
    {accepted : Grammar.Accepted} (h : Next rest clause rest')
    (htakes : Grammar.Takes n rest.nesting m clause accepted)
    (hclosed : accepted.signal.closed = true) {declared : List String}
    (hdeclared : declared.head? = m.package?) (m' : Message) :
    messages m declared rest = m :: messages m' declared rest' := by
  cases h with
  | messageEnd =>
    cases htakes
    simp [messages, extend, memberPackages, memberFields, memberEnums, hdeclared]
  | package | option | messageStart | memberPackage | memberOption | field | enumStart | enumValue
  | enumEnd =>
    cases htakes
    cases hclosed

end Rest

/-! ## What an assembly accepts -/

namespace Assembly

variable {a : Assembly Nesting} {declared : List String} {clause : Clause}
  {accepted : Grammar.Accepted} {rest rest' : Rest}

theorem messages_next (h : a.Linked) (hdeclared : declared.head? = a.package?)
    (htakes : Grammar.Takes a.lineCount a.state a.current clause accepted)
    (hnext : rest.Next clause rest') (hrest : rest.nesting = a.state) :
    (a.accept accepted).finished ++
        rest'.messages (a.accept accepted).current (declared ++ accepted.signal.package?.toList) =
      a.finished ++ rest.messages a.current declared := by
  have htakes' := htakes
  rw [← hrest] at htakes'
  cases hclosed : accepted.signal.closed with
  | true =>
    rw [accept_eq_of_closed htakes hclosed, (htakes.of_closed hclosed).2.2]
    have hcurrent : declared.head? = a.current.package? := hdeclared.trans h.package.symm
    rw [hnext.messages_of_closed htakes' hclosed hcurrent (.blank a.package?), Option.toList_none,
      List.append_nil, List.append_assoc]
    rfl
  | false =>
    rw [h.accept_eq htakes hclosed,
      hnext.messages_eq htakes' hclosed (fun htop => ⟨_, h.blank (hrest ▸ htop)⟩)
        (fun henum => h.enums (hrest ▸ henum))]

theorem head?_accept (h : a.Linked) (hdeclared : declared.head? = a.package?)
    (htakes : Grammar.Takes a.lineCount a.state a.current clause accepted) :
    (declared ++ accepted.signal.package?.toList).head? = (a.accept accepted).package? := by
  rw [List.head?_append, hdeclared, Option.head?_toList, h.accept_package? htakes]

theorem finish_eq_ok {idCheck : IdCheck} {messages : List Message} :
    (a.finish grammar ⟨idCheck, .accept⟩).result = .ok messages ↔
      a.state = .topLevel ∧ Message.firstIdFault? a.finished = none ∧ messages = a.finished := by
  have hend : a.endFault? grammar ⟨idCheck, .accept⟩ =
      if a.state = .topLevel then Message.firstIdFault? a.finished else some .unclosedMessage := by
    simp only [endFault?, grammar]
    cases a.state <;> simp
  unfold finish
  rw [hend]
  by_cases htop : a.state = .topLevel
  · rw [if_pos htop]
    cases Message.firstIdFault? a.finished with
    | some fault => simp
    | none => simp [htop, eq_comm]
  · simp [htop]

/-- These lines of code say a rest of a file with these messages. -/
def Completes (a : Assembly Nesting) (declared : List String) (numbered : List (Nat × List Char))
    (messages : List Message) : Prop :=
  ∃ rest : Rest, rest.nesting = a.state ∧ List.Forall₂ Says numbered rest.clauses ∧
    messages = a.finished ++ rest.messages a.current declared

theorem completes_nil {messages : List Message} :
    a.Completes declared [] messages ↔ a.state = .topLevel ∧ messages = a.finished := by
  refine ⟨fun ⟨rest, hrest, hsays, hmessages⟩ => ?_, fun ⟨htop, hmessages⟩ => ?_⟩
  · obtain rfl := Rest.clauses_eq_nil.1 (List.forall₂_nil_left_iff.1 hsays)
    rw [Rest.messages, messagesAfter, List.append_nil] at hmessages
    exact ⟨hrest.symm, hmessages⟩
  · refine ⟨.topLevel [], htop.symm, .nil, ?_⟩
    rw [hmessages, Rest.messages, messagesAfter, List.append_nil]

/-- The first line of a rest is accepted, and the others go on behind it. -/
theorem Completes.accept (h : a.Linked) (hdeclared : declared.head? = a.package?)
    {line : List Char} {numbered : List (Nat × List Char)} {messages : List Message}
    (hcompletes : a.Completes declared ((a.lineCount, line) :: numbered) messages) :
    ∃ accepted, Grammar.step a.state line a.lineCount a.current = .ok accepted ∧
      (a.accept accepted).Completes (declared ++ accepted.signal.package?.toList) numbered
        messages := by
  obtain ⟨rest, hrest, hsays, hmessages⟩ := hcompletes
  obtain ⟨clause, behind, hclause, hbehind, hclauses⟩ := List.forall₂_cons_left_iff.1 hsays
  obtain ⟨rest', hnext, rfl⟩ := Rest.exists_next hclauses
  obtain ⟨accepted, htakes, hnesting⟩ :=
    hnext.takes (fun henum => h.enums (hrest ▸ henum)) a.lineCount
  rw [hrest] at htakes
  refine ⟨accepted, Grammar.step_eq_ok.2 ⟨clause, hclause, htakes⟩, rest', ?_, hbehind, ?_⟩
  · rw [h.accept_state htakes, hnesting]
  · rw [hmessages, messages_next h hdeclared htakes hnext hrest]

theorem Completes.of_accept (h : a.Linked) (hdeclared : declared.head? = a.package?)
    {line : List Char} {numbered : List (Nat × List Char)} {messages : List Message}
    (hstep : Grammar.step a.state line a.lineCount a.current = .ok accepted)
    (hcompletes : (a.accept accepted).Completes (declared ++ accepted.signal.package?.toList)
      numbered messages) :
    a.Completes declared ((a.lineCount, line) :: numbered) messages := by
  obtain ⟨rest', hrest', hbehind, hmessages⟩ := hcompletes
  obtain ⟨clause, hsays, htakes⟩ := Grammar.step_eq_ok.1 hstep
  rw [h.accept_state htakes] at hrest'
  obtain ⟨rest, hrest, hnext⟩ := Rest.Next.of_takes htakes hrest'
  refine ⟨rest, hrest, ?_, ?_⟩
  · rw [hnext.clauses_eq]
    exact .cons hsays hbehind
  · rw [hmessages, messages_next h hdeclared htakes hnext hrest]

/-- From any state on, the lines of code have to say a rest of a file, in which the ids of each
message are distinct. -/
theorem complete_atEnd_eq_ok (h : a.Linked) (hdeclared : declared.head? = a.package?)
    (lines : List (List Char)) (messages : List Message) :
    (a.complete grammar ⟨.atEnd, .accept⟩ (lines.map some)).result = .ok messages ↔
      a.Completes declared (codeLines a.lineCount lines) messages ∧
        Message.firstIdFault? messages = none := by
  induction lines generalizing a declared with
  | nil =>
    rw [List.map_nil, complete_nil, finish_eq_ok, codeLines, completes_nil]
    refine ⟨fun h => ?_, fun h => ?_⟩
    · obtain ⟨htop, hnone, hmessages⟩ := h
      exact ⟨⟨htop, hmessages⟩, hmessages ▸ hnone⟩
    · obtain ⟨⟨htop, hmessages⟩, hnone⟩ := h
      exact ⟨htop, hmessages ▸ hnone, hmessages⟩
  | cons line lines ih =>
    have hlinked := h.atLine (a.lineCount + 1)
    rw [List.map_cons, codeLines]
    by_cases hline : code line = []
    · rw [complete_blank hline, if_pos hline]
      exact ih hlinked hdeclared
    · rw [if_neg hline]
      cases hstep : Grammar.step a.state (code line) (a.lineCount + 1) a.current with
      | error fault =>
        rw [complete_rejected hline hstep]
        refine ⟨fun h => ?_, fun h => ?_⟩
        · cases h
        · obtain ⟨accepted, hok, _⟩ :=
            Completes.accept (a := a.atLine (a.lineCount + 1)) hlinked hdeclared h.1
          have hne := hok.symm.trans hstep
          cases hne
      | ok accepted =>
        obtain ⟨clause, _, htakes⟩ := Grammar.step_eq_ok.1 hstep
        have hnext : ∀ numbered,
            (a.atLine (a.lineCount + 1)).Completes declared
                ((a.lineCount + 1, code line) :: numbered) messages ↔
              ((a.atLine (a.lineCount + 1)).accept accepted).Completes
                (declared ++ accepted.signal.package?.toList) numbered messages := by
          intro numbered
          refine ⟨fun hcompletes => ?_, Completes.of_accept hlinked hdeclared hstep⟩
          obtain ⟨accepted', hok, hrest⟩ :=
            Completes.accept (a := a.atLine (a.lineCount + 1)) hlinked hdeclared hcompletes
          obtain rfl := Except.ok.inj (hok.symm.trans hstep)
          exact hrest
        have hlast := ih (hlinked.accept htakes) (head?_accept hlinked hdeclared htakes)
        rw [accept_lineCount] at hlast
        rw [complete_accepted hline hstep (newIdFault?_atEnd rfl _ _), hlast]
        exact and_congr_left fun _ => (hnext _).symm

end Assembly

/-- A text compiles, with either search for repeated ids, when its lines of code say a file in
which the ids of each message are distinct. -/
theorem compileText_eq_ok_iff {idCheck : IdCheck} {text : String} {messages : List Message} :
    (compileText ⟨idCheck, .accept⟩ text).result = .ok messages ↔
      Assembly.start.Completes [] (codeLines 0 (textLines text.toList)) messages ∧
        Message.firstIdFault? messages = none := by
  have hlate : (compileText ⟨.atEnd, .accept⟩ text).result = .ok messages ↔
      Assembly.start.Completes [] (codeLines 0 (textLines text.toList)) messages ∧
        Message.firstIdFault? messages = none :=
    Assembly.complete_atEnd_eq_ok Assembly.linked_start rfl (textLines text.toList) messages
  cases idCheck with
  | whileReading => exact ((agrees_compileText .accept text).ok_iff messages).trans hlate
  | atEnd => exact hlate

/-- The texts that compile are those whose lines of code say a file of packages, options and
message blocks, where no block holds two fields with the same id. The messages are those of the
blocks, in source order. -/
theorem compileText_eq_ok (idCheck : IdCheck) (text : String) (messages : List Message) :
    (compileText ⟨idCheck, .accept⟩ text).result = .ok messages ↔
      ∃ items : List Item,
        List.Forall₂ Says (codeLines 0 (textLines text.toList)) (items.flatMap Item.clauses) ∧
        (∀ b, Item.block b ∈ items → ((memberFields b.members).map (·.id)).Nodup) ∧
        messages = messagesAfter [] items := by
  rw [compileText_eq_ok_iff]
  refine ⟨fun ⟨⟨rest, hrest, hsays, hmessages⟩, hnone⟩ => ?_,
    fun ⟨items, hsays, hids, hmessages⟩ => ⟨⟨.topLevel items, rfl, hsays, hmessages⟩, ?_⟩⟩
  · cases rest with
    | topLevel items =>
      refine ⟨items, hsays, ?_, hmessages⟩
      rw [← firstIdFault?_messagesAfter [], ← hnone, hmessages]
      rfl
    | inMessage members items => cases hrest
    | inEnum values members items => cases hrest
  · rw [hmessages, firstIdFault?_messagesAfter]
    exact hids

end ProtoSchema
