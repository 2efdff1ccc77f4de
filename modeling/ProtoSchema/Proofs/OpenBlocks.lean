import ProtoSchema.Proofs.Calls
import ProtoSchema.Proofs.Sentences

/-!
# Open blocks

The nesting of the grammar and the message under construction are kept apart, and after any calls
they still fit: the message is blank between two blocks, and inside a block it is what the lines of
that block made of it, and no other lines.

**What calls were told.** `acceptedClause?` is what the line of a call says if the call returned no
failure. A field with a repeated id joins its message although its call fails, so `keptClause?`
counts it as well.

**What was read.** `Past` is the tree of the clauses that were kept: whole items, and the part of a
block that is still open. It is what `Rest` is for the lines that are still to be read. The finished
messages are those of its items, and the message under construction is that of its open block
(`Past.Fits`).

Results:
* `feed_cases`: a call leaves the assembly as it was, or takes one clause;
* `Past.exists_next`: each clause that is taken goes on with what was read;
* `Recalls.feed`, `Recalls.feedAll`: every call keeps the invariant;
* `openBlock_after_calls`: all of it, after any calls.
-/
namespace ProtoSchema

open Text

/-- The last message start among these clauses has this name. -/
def StartsLast (clauses : List Clause) (name : String) : Prop :=
  ∃ front line behind, clauses = front ++ .messageStart name line :: behind ∧
    ∀ name line, Clause.messageStart name line ∉ behind

/-- These clauses end in the opening line of this enum and its values. -/
def EndsIn (clauses : List Clause) (e : EnumDef) : Prop :=
  ∃ front, clauses = front ++ .enumStart e.name :: e.values.map .enumValue

theorem StartsLast.concat {clauses : List Clause} {name : String} {clause : Clause}
    (h : StartsLast clauses name) (hclause : ∀ name line, clause ≠ .messageStart name line) :
    StartsLast (clauses ++ [clause]) name := by
  obtain ⟨front, line, behind, rfl, hbehind⟩ := h
  refine ⟨front, line, behind ++ [clause], by simp, fun name line hmem => ?_⟩
  rcases List.mem_append.1 hmem with hmem | hmem
  · exact hbehind name line hmem
  · exact hclause name line (List.mem_singleton.1 hmem).symm

theorem Says.name_ne_empty {numbered : Nat × List Char} {name : String} {line : Nat}
    (h : Says numbered (.messageStart name line)) : name ≠ "" := by
  cases h with
  | messageStart hw =>
    cases hw with
    | messageStart _ _ _ hname =>
      intro hempty
      exact identifier_ne_nil hname (by simpa using congrArg String.toList hempty)

/-! ## What was read -/

/-- What an assembly has read. -/
inductive Past
  /-- Whole items. -/
  | topLevel (items : List Item)
  /-- Items, and a block with its members so far. -/
  | inMessage (items : List Item) (b : Block)
  /-- Items, and a block with its members so far, the last of which is an enum with its values so
  far. -/
  | inEnum (items : List Item) (b : Block) (e : EnumDef)

/-- The packages that an item declares. -/
@[simp]
def Item.packages : Item → List String
  | .package name => [name]
  | .option _ _ => []
  | .block b => memberPackages b.members

theorem messagesAfter_append (declared : List String) (items more : List Item) :
    messagesAfter declared (items ++ more) =
      messagesAfter declared items ++
        messagesAfter (declared ++ items.flatMap Item.packages) more := by
  induction items generalizing declared with
  | nil => simp [messagesAfter]
  | cons item items ih => cases item <;> simp [messagesAfter, ih]

/-- The clauses of a block up to its last member. -/
@[simp]
def Block.opening (b : Block) : List Clause :=
  .messageStart b.name b.line :: b.members.flatMap Member.clauses

/-- The block with one more member. -/
@[simp]
def Block.add (b : Block) (member : Member) : Block :=
  { b with members := b.members ++ [member] }

theorem exists_block_of_mem {declared : List String} {items : List Item} {m : Message}
    (h : m ∈ messagesAfter declared items) :
    ∃ b declared', Item.block b ∈ items ∧ m = b.message declared' := by
  induction items generalizing declared with
  | nil => cases h
  | cons item items ih =>
    have hrest : ∀ {declared'}, m ∈ messagesAfter declared' items →
        ∃ b declared', Item.block b ∈ item :: items ∧ m = b.message declared' := by
      intro declared' hm
      obtain ⟨b, declared'', hb, hmessage⟩ := ih hm
      exact ⟨b, declared'', List.mem_cons_of_mem _ hb, hmessage⟩
    cases item with
    | package name | option name value => exact hrest h
    | block b =>
      rcases List.mem_cons.1 h with hm | hm
      · exact ⟨b, _, List.mem_cons_self, hm⟩
      · exact hrest hm

namespace Past

@[simp]
def nesting : Past → Nesting
  | .topLevel _ => .topLevel
  | .inMessage _ _ => .inMessage
  | .inEnum _ _ _ => .inEnum

@[simp]
def clauses : Past → List Clause
  | .topLevel items => items.flatMap Item.clauses
  | .inMessage items b => items.flatMap Item.clauses ++ b.opening
  | .inEnum items b e =>
    items.flatMap Item.clauses ++ (b.opening ++ .enumStart e.name :: e.values.map .enumValue)

/-- The packages that were declared. -/
@[simp]
def declared : Past → List String
  | .topLevel items => items.flatMap Item.packages
  | .inMessage items b | .inEnum items b _ =>
    items.flatMap Item.packages ++ memberPackages b.members

/-- The messages of the blocks that were read to their end. -/
@[simp]
def messages : Past → List Message
  | .topLevel items | .inMessage items _ | .inEnum items _ _ => messagesAfter [] items

/-- The message of the open block, in this package. Between two blocks it is blank. -/
@[simp]
def current (package? : Option String) : Past → Message
  | .topLevel _ => .blank package?
  | .inMessage _ b => b.message package?.toList
  | .inEnum _ b e => (b.add (.enum e)).message package?.toList

/-- A clause that is taken goes on with what was read. -/
theorem exists_next {past : Past} {n : Nat} {package? : Option String} {clause : Clause}
    {accepted : Grammar.Accepted}
    (h : Grammar.Takes n past.nesting (past.current package?) clause accepted) :
    ∃ past' : Past, past'.clauses = past.clauses ++ [clause] ∧
      past'.nesting = accepted.nesting ∧
      past'.declared = past.declared ++ accepted.signal.package?.toList ∧
      past'.messages = past.messages ++
        (if accepted.signal.closed then [past.current past.declared.head?] else []) ∧
      (accepted.signal.closed = false → ∀ package?',
        past'.current package?' = { accepted.current with package? := package?' }) := by
  cases past with
  | topLevel items =>
    cases h with
    | @messageStart m name line =>
      refine ⟨.inMessage items ⟨name, line, []⟩, ?_⟩
      simp [Block.message, memberPackages, memberFields, memberEnums, Message.blank]
    | @package nesting m name =>
      refine ⟨.topLevel (items ++ [.package name]), ?_⟩
      simp [Item.clauses, messagesAfter_append, messagesAfter, Message.blank]
    | @option nesting m name value =>
      refine ⟨.topLevel (items ++ [.option name value]), ?_⟩
      simp [Item.clauses, messagesAfter_append, messagesAfter, Message.blank]
  | inMessage items b =>
    cases h with
    | messageEnd =>
      refine ⟨.topLevel (items ++ [.block b]), ?_⟩
      simp [Item.clauses, Block.clauses, memberClauses, messagesAfter_append, messagesAfter,
        Block.message]
    | @enumStart m name =>
      refine ⟨.inEnum items b { name }, ?_⟩
      simp [Block.message, memberFields, memberEnums]
    | @field m f =>
      refine ⟨.inMessage items (b.add (.field f)), ?_⟩
      simp [Member.clauses, Block.message, memberPackages, memberFields, memberEnums]
    | @package nesting m name =>
      refine ⟨.inMessage items (b.add (.package name)), ?_⟩
      simp [Member.clauses, Block.message, memberPackages, memberFields, memberEnums]
    | @option nesting m name value =>
      refine ⟨.inMessage items (b.add (.option name value)), ?_⟩
      simp [Member.clauses, Block.message, memberPackages, memberFields, memberEnums]
  | inEnum items b e =>
    cases h with
    | enumEnd =>
      refine ⟨.inMessage items (b.add (.enum e)), ?_⟩
      simp [Member.clauses, valueClauses, Block.message, memberPackages]
    | @enumValue m enums e' v henums =>
      obtain ⟨rfl, rfl⟩ : memberEnums b.members = enums ∧ e = e' := by
        simpa [Block.message, memberEnums] using henums
      refine ⟨.inEnum items b { e with values := e.values ++ [v] }, ?_⟩
      simp [Block.message, memberFields, memberEnums]
    | package hnesting | option hnesting => exact absurd rfl hnesting

/-- A message that was read to its end starts on a line of its own. -/
theorem start_of_mem_messages {past : Past} {m : Message} (h : m ∈ past.messages) :
    ∃ line, .messageStart m.name line ∈ past.clauses := by
  have hitems : ∀ {items : List Item}, m ∈ messagesAfter [] items →
      ∃ line, .messageStart m.name line ∈ items.flatMap Item.clauses := by
    intro items hm
    obtain ⟨b, declared, hb, rfl⟩ := exists_block_of_mem hm
    exact ⟨b.line, List.mem_flatMap.2 ⟨_, hb, List.mem_cons_self⟩⟩
  cases past with
  | topLevel items => exact hitems h
  | inMessage items b | inEnum items b =>
    obtain ⟨line, hline⟩ := hitems h
    exact ⟨line, List.mem_append_left _ hline⟩

/-- The assembly has come this far. -/
structure Fits (past : Past) (a : Assembly Nesting) : Prop where
  nesting : past.nesting = a.state
  package : past.declared.head? = a.package?
  messages : past.messages = a.finished
  current : past.current a.package? = a.current

theorem fits_start : (Past.topLevel []).Fits .start :=
  ⟨rfl, rfl, rfl, rfl⟩

theorem current_of_topLevel {past : Past} (h : past.nesting = .topLevel)
    (package? : Option String) : past.current package? = .blank package? := by
  cases past <;> first | rfl | cases h

theorem Fits.accept {past : Past} {a : Assembly Nesting} {clause : Clause}
    {accepted : Grammar.Accepted} (h : past.Fits a) (hlinked : a.Linked)
    (htakes : Grammar.Takes a.lineCount a.state a.current clause accepted) :
    ∃ past' : Past, past'.clauses = past.clauses ++ [clause] ∧ past'.Fits (a.accept accepted) := by
  have htaken := htakes
  rw [← h.nesting, ← h.current] at htaken
  obtain ⟨past', hclauses, hnesting, hdeclared, hmessages, hcurrent⟩ := exists_next htaken
  refine ⟨past', hclauses, ?_⟩
  cases hclosed : accepted.signal.closed with
  | true =>
    obtain ⟨htop, _, hpackage⟩ := htakes.of_closed hclosed
    rw [Assembly.accept_eq_of_closed htakes hclosed]
    refine ⟨hnesting.trans htop, ?_, ?_, current_of_topLevel (hnesting.trans htop) _⟩
    · rw [hdeclared, hpackage, Option.toList_none, List.append_nil]
      exact h.package
    · rw [hmessages, hclosed, h.package, h.current, h.messages]
      rfl
  | false =>
    rw [hlinked.accept_eq htakes hclosed]
    refine ⟨hnesting, ?_, ?_, hcurrent hclosed _⟩
    · rw [hdeclared, List.head?_append, h.package, Option.head?_toList]
    · rw [hmessages, hclosed]
      simpa using h.messages

end Past

namespace Grammar.Takes

variable {n : Nat} {nesting : Nesting} {m : Message} {clause : Clause} {accepted : Accepted}

theorem exists_field (h : Takes n nesting m clause accepted)
    (hfields : accepted.current.fields ≠ m.fields) : ∃ f, clause = .field f := by
  cases h with
  | @field m f => exact ⟨f, rfl⟩
  | messageStart | messageEnd | enumStart | enumEnd | enumValue | package | option =>
    exact absurd rfl hfields

theorem eq_of_field {f : Field} (h : Takes n nesting m (.field f) accepted) :
    nesting = .inMessage ∧
      accepted = { nesting, current := { m with fields := m.fields ++ [f] } } := by
  cases h
  exact ⟨rfl, rfl⟩

/-- Inside a block the name of its message is the last one that was started. -/
theorem startsLast {clauses : List Clause} (h : Takes n nesting m clause accepted)
    (hsoFar : nesting ≠ .topLevel → StartsLast clauses m.name)
    (hnesting : accepted.nesting ≠ .topLevel) :
    StartsLast (clauses ++ [clause]) accepted.current.name := by
  cases h with
  | @messageStart m name line => exact ⟨clauses, line, [], rfl, nofun⟩
  | messageEnd => exact absurd rfl hnesting
  | enumStart | enumEnd | field | enumValue => exact (hsoFar nofun).concat nofun
  | package | option => exact (hsoFar hnesting).concat nofun

/-- Inside an enum the last enum of the message is the one that the last clauses declare. -/
theorem endsIn {clauses : List Clause} (h : Takes n nesting m clause accepted)
    (hsoFar : nesting = .inEnum → ∃ enums e, m.enums = enums ++ [e] ∧ EndsIn clauses e)
    (hnesting : accepted.nesting = .inEnum) :
    ∃ enums e, accepted.current.enums = enums ++ [e] ∧ EndsIn (clauses ++ [clause]) e := by
  cases h with
  | messageStart | messageEnd | enumEnd | field => cases hnesting
  | @enumStart m name => exact ⟨m.enums, { name }, rfl, clauses, rfl⟩
  | @enumValue m enums e v henums =>
    obtain ⟨enums', e', henums', front, rfl⟩ := hsoFar rfl
    obtain ⟨rfl, he⟩ := List.append_inj' (henums.symm.trans henums') rfl
    obtain rfl := (List.cons.inj he).1
    exact ⟨enums, _, rfl, front, by simp⟩
  | package hne | option hne => exact absurd hnesting hne

end Grammar.Takes

namespace Assembly

variable {policy : Policy} {a : Assembly Nesting} {accepted kept : List Clause}

/-! ## One call -/

/-- What the line of a call says, if the call returned no failure. -/
def acceptedClause? (policy : Policy) (a : Assembly Nesting) (input : Input) : Option Clause :=
  match (a.feed grammar policy input).failure? with
  | none => Clause.ofLine? ((a.arrive input).lineCount, input.line)
  | some _ => none

/-- What the line of a call says, if the line was not rejected. A field that repeats an id joins its
message, although its call fails. -/
def keptClause? (policy : Policy) (a : Assembly Nesting) (input : Input) : Option Clause :=
  match (a.feed grammar policy input).failure? with
  | none | some ⟨_, .duplicateFieldId _ _ _⟩ =>
    Clause.ofLine? ((a.arrive input).lineCount, input.line)
  | some _ => none

/-- A call leaves the assembly as it was, or it takes the clause on its line. A clause that was
taken and not accepted is a field. -/
theorem feed_cases (policy : Policy) (a : Assembly Nesting) (input : Input) :
    ((a.feed grammar policy input).next = a.arrive input ∧
      a.acceptedClause? policy input = none ∧ a.keptClause? policy input = none) ∨
    ∃ clause taken, Says ((a.arrive input).lineCount, input.line) clause ∧
      Grammar.Takes (a.arrive input).lineCount a.state a.current clause taken ∧
      (a.feed grammar policy input).next = (a.arrive input).accept taken ∧
      a.keptClause? policy input = some clause ∧
      (a.acceptedClause? policy input = some clause ∨
        a.acceptedClause? policy input = none ∧ ∃ f, clause = .field f) := by
  unfold acceptedClause? keptClause?
  rw [feed_eq]
  rcases apply_cases policy (a.arrive input) input.line with
    ⟨hline, hfailure, hnext⟩ | ⟨_, shown, reason, hfailure, hnext⟩ |
      ⟨_, clause, taken, hsays, htakes, hfailure, hnext⟩
  · rw [hfailure, hline]
    exact .inl ⟨hline ▸ hnext, rfl, rfl⟩
  · rw [hfailure]
    exact .inl ⟨hnext, rfl, rfl⟩
  · have hclause := Clause.ofLine?_eq_some.2 hsays
    rw [arrive_state, arrive_current] at htakes
    rw [arrive_current] at hfailure
    rw [hfailure]
    refine .inr ⟨clause, taken, hsays, htakes, hnext, ?_⟩
    cases hnew : newIdFault? policy a.current.fields.length taken.current with
    | none => exact ⟨hclause, .inl hclause⟩
    | some fault =>
      obtain ⟨_, message, field, id, rfl⟩ := isRepeatedId_of_newIdFault? hnew
      refine ⟨hclause, .inr ⟨rfl, htakes.exists_field fun hfields => ?_⟩⟩
      rw [newIdFault?_of_length (by rw [hfields])] at hnew
      cases hnew

/-! ## Runs -/

/-- The assembly has accepted the first clauses and kept the second ones. -/
structure Recalls (a : Assembly Nesting) (accepted kept : List Clause) : Prop where
  linked : a.Linked
  message : a.state ≠ .topLevel → StartsLast accepted a.current.name
  enum : a.state = .inEnum → ∃ enums e, a.current.enums = enums ++ [e] ∧ EndsIn accepted e
  past : ∃ past : Past, past.clauses = kept ∧ past.Fits a
  heard : ∀ clause ∈ kept, ∃ numbered, Says numbered clause

theorem recalls_start : start.Recalls [] [] where
  linked := linked_start
  message h := absurd rfl h
  enum := nofun
  past := ⟨.topLevel [], rfl, Past.fits_start⟩
  heard := nofun

theorem Recalls.arrive (h : a.Recalls accepted kept) (input : Input) :
    (a.arrive input).Recalls accepted kept := by
  obtain ⟨past, hkept, hfits⟩ := h.past
  cases input with
  | code line => exact h
  | text line =>
    exact
      { linked := h.linked.atLine (a.lineCount + 1)
        message := h.message
        enum := h.enum
        past := ⟨past, hkept, hfits.nesting, hfits.package, hfits.messages, hfits.current⟩
        heard := h.heard }

/-- The package and the end of a message aside, the message under construction is what the clause
made of it. -/
theorem Linked.accept_current (h : a.Linked) {clause : Clause} {taken : Grammar.Accepted}
    (htakes : Grammar.Takes a.lineCount a.state a.current clause taken)
    (hnesting : taken.nesting ≠ .topLevel) :
    (a.accept taken).current.name = taken.current.name ∧
      (a.accept taken).current.enums = taken.current.enums := by
  cases hclosed : taken.signal.closed with
  | true => exact absurd (htakes.of_closed hclosed).1 hnesting
  | false =>
    rw [h.accept_eq htakes hclosed]
    exact ⟨rfl, rfl⟩

/-- A call that takes a clause. A field that repeats an id is kept, but its call is not accepted. -/
theorem Recalls.accept (h : a.Recalls accepted kept) {clause : Clause} {taken : Grammar.Accepted}
    {numbered : Nat × List Char} (hsaid : Says numbered clause)
    (htakes : Grammar.Takes a.lineCount a.state a.current clause taken) {more : List Clause}
    (hmore : more = [clause] ∨ more = [] ∧ ∃ f, clause = .field f) :
    (a.accept taken).Recalls (accepted ++ more) (kept ++ [clause]) where
  linked := h.linked.accept htakes
  message := by
    intro hstate
    rw [h.linked.accept_state htakes] at hstate
    rw [(h.linked.accept_current htakes hstate).1]
    rcases hmore with rfl | ⟨rfl, f, rfl⟩
    · exact htakes.startsLast h.message hstate
    · obtain ⟨hnesting, rfl⟩ := htakes.eq_of_field
      rw [List.append_nil]
      exact h.message hstate
  enum := by
    intro hstate
    rw [h.linked.accept_state htakes] at hstate
    rw [(h.linked.accept_current htakes (by rw [hstate]; nofun)).2]
    rcases hmore with rfl | ⟨rfl, f, rfl⟩
    · exact htakes.endsIn h.enum hstate
    · obtain ⟨hnesting, rfl⟩ := htakes.eq_of_field
      exact absurd (hnesting.symm.trans hstate) nofun
  past := by
    obtain ⟨past, rfl, hfits⟩ := h.past
    exact hfits.accept h.linked htakes
  heard := by
    intro other hmem
    rcases List.mem_append.1 hmem with hmem | hmem
    · exact h.heard other hmem
    · obtain rfl := List.mem_singleton.1 hmem
      exact ⟨numbered, hsaid⟩

theorem Recalls.feed (h : a.Recalls accepted kept) (policy : Policy) (input : Input) :
    (a.feed grammar policy input).next.Recalls
      (accepted ++ (a.acceptedClause? policy input).toList)
      (kept ++ (a.keptClause? policy input).toList) := by
  have harrive := h.arrive input
  rcases feed_cases policy a input with
    ⟨hnext, haccepted, hkept⟩ | ⟨clause, taken, hsays, htakes, hnext, hkept, haccepted⟩
  · rw [hnext, haccepted, hkept]
    simpa using harrive
  · rw [← arrive_state a input, ← arrive_current a input] at htakes
    rw [hnext, hkept]
    refine harrive.accept hsays htakes ?_
    rcases haccepted with haccepted | ⟨haccepted, hfield⟩
    · exact .inl (by rw [haccepted]; rfl)
    · exact .inr ⟨by rw [haccepted]; rfl, hfield⟩

/-- What the accepted lines of a run say, in order. -/
def acceptedClauses (policy : Policy) (a : Assembly Nesting) (inputs : List Input) : List Clause :=
  (a.calls grammar policy inputs).filterMap fun call => call.1.acceptedClause? policy call.2

/-- What those lines of a run say that were not rejected, in order. -/
def keptClauses (policy : Policy) (a : Assembly Nesting) (inputs : List Input) : List Clause :=
  (a.calls grammar policy inputs).filterMap fun call => call.1.keptClause? policy call.2

theorem Recalls.feedAll (h : a.Recalls accepted kept) (policy : Policy) (inputs : List Input) :
    (a.feedAll grammar policy inputs).1.Recalls (accepted ++ a.acceptedClauses policy inputs)
      (kept ++ a.keptClauses policy inputs) := by
  induction inputs generalizing a accepted kept with
  | nil => simpa [Assembly.feedAll, acceptedClauses, keptClauses, calls] using h
  | cons input inputs ih =>
    have hnext := ih (h.feed policy input)
    simpa only [Assembly.feedAll, acceptedClauses, keptClauses, calls,
      List.filterMap_eq_flatMap_toList, List.flatMap_cons, List.append_assoc] using hnext

theorem Recalls.name_ne_empty (h : a.Recalls accepted kept) : ∀ m ∈ a.finished, m.name ≠ "" := by
  obtain ⟨past, rfl, hfits⟩ := h.past
  intro m hm
  rw [← hfits.messages] at hm
  obtain ⟨line, hclause⟩ := past.start_of_mem_messages hm
  obtain ⟨numbered, hsays⟩ := h.heard _ hclause
  exact hsays.name_ne_empty

/-- After any calls, failing ones included: between two blocks the message under construction is
blank and in the shared package. Inside a block it has the name of the last message that an accepted
line started. Inside an enum it has one, and the last one is what the accepted lines from its
opening line on say, so that there is always an enum for the next value. All in all, the finished
messages and the message under construction are what the lines of their own blocks say. -/
theorem openBlock_after_calls (policy : Policy) (inputs : List Input) :
    let a := (start.feedAll grammar policy inputs).1
    (a.state = .topLevel →
      a.current = { name := "", package? := a.package?, line := 0, fields := [], enums := [] }) ∧
    (a.state ≠ .topLevel → StartsLast (start.acceptedClauses policy inputs) a.current.name) ∧
    (a.state = .inEnum → ∃ enums e, a.current.enums = enums ++ [e] ∧
      EndsIn (start.acceptedClauses policy inputs) e) ∧
    (a.state = .inEnum → ∀ value, Grammar.addValue? a.current.enums value ≠ none) ∧
    (∃ past : Past, past.clauses = start.keptClauses policy inputs ∧ past.nesting = a.state ∧
      past.messages = a.finished ∧ past.current a.package? = a.current) ∧
    ∀ m ∈ a.finished, m.name ≠ "" := by
  intro a
  have h : a.Recalls (start.acceptedClauses policy inputs) (start.keptClauses policy inputs) :=
    recalls_start.feedAll policy inputs
  refine ⟨h.linked.blank, h.message, h.enum, fun hstate value => ?_, ?_, h.name_ne_empty⟩
  · obtain ⟨enums, e, henums, _⟩ := h.enum hstate
    rw [Grammar.addValue?_eq_some.2 ⟨enums, e, henums, rfl⟩]
    nofun
  · obtain ⟨past, hclauses, hfits⟩ := h.past
    exact ⟨past, hclauses, hfits.nesting, hfits.messages, hfits.current⟩

end Assembly

end ProtoSchema
