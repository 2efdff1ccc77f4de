import ProtoSchema.Proofs.Concatenation

/-!
# What the log tells

The events of a schema come from the grammar and from the assembly around it, which finishes
messages and settles the package. Read together they tell how the schema was read.

**One line.** A line that is rejected, or that repeats an id, tells nothing. What an accepted line
tells depends on its clause and on the first package (`Clause.Tells`), and for the closing brace of
a message on that message (`Assembly.tells`).

**Accepted lines.** `Logs` is a run over lines none of which fails, with what each line of code
tells. The log of a schema is that of its accepted lines, and one more event if the schema is read
to its end.

**Brackets.** The start of a message, its end and its being finished are told in turns. What is told
of a message that is already open lacks its start (`Brackets`).

Results:
* `events_of_read_failure?`: lines that fail tell nothing;
* `logs_readAll`: what lines tell that do not fail;
* `Logs.tells`: line by line, the table of what is told;
* `Logs.brackets`: the messages of a run, each between its brackets;
* `compileText_log`: all of it, for each text.
-/
namespace ProtoSchema

open Text

/-! ## One line -/

theorem Grammar.Takes.fields_or_events {n : Nat} {nesting : Nesting} {m : Message} {clause : Clause}
    {accepted : Accepted} (h : Takes n nesting m clause accepted) :
    accepted.current.fields = m.fields ∨ accepted.events = [] := by
  cases h with
  | field => exact .inr rfl
  | messageStart | messageEnd | enumStart | enumEnd | enumValue | package | option => exact .inl rfl

namespace Assembly

variable {a : Assembly Nesting} {policy : Policy} {line : List Char} {clause : Clause}
  {accepted : Grammar.Accepted}

/-- What is told of a line with this clause if it is accepted. -/
def tells (a : Assembly Nesting) : Clause → List Event
  | .blockEnd =>
    if a.state = .inMessage then
      [.messageEnded a.current.name a.current.fields.length,
        .messageFinished a.current.name a.lineCount]
    else []
  | .package name =>
    .packageDeclared name a.lineCount ::
      match a.package? with
      | none => []
      | some first => if name = first then [] else [.packageIgnored name first a.lineCount]
  | .messageStart name line => [.messageStarted name line]
  | .enumStart name => [.enumStarted name a.current.name]
  | .field _ | .enumValue _ => []
  | .option name value => [.optionIgnored name value a.lineCount]

/-- The events of the grammar and those of the assembly, in this order. -/
theorem tells_eq (htakes : Grammar.Takes a.lineCount a.state a.current clause accepted) :
    accepted.events ++
        ({ a with state := accepted.nesting, current := accepted.current }.obey
          accepted.signal).2 = a.tells clause := by
  obtain ⟨state, lineCount, current, package?, finished⟩ := a
  cases htakes with
  | package => cases package? <;> rfl
  | messageStart | messageEnd | enumStart | enumEnd | field | enumValue | option => rfl

/-- A line of code that fails tells nothing: the grammar has nothing to say of a rejected line, nor
of a field, and the assembly comes to its own events behind the check of the ids. -/
theorem events_of_apply_failure? (h : (a.apply grammar policy line).failure? ≠ none) :
    (a.apply grammar policy line).events = [] := by
  by_cases hline : line = []
  · rw [apply, if_pos hline]
  · rw [apply_failure? hline] at h
    simp only [apply, if_neg hline, grammar]
    cases hstep : Grammar.step a.state line a.lineCount a.current with
    | error fault => rfl
    | ok accepted =>
      rw [hstep] at h
      obtain ⟨clause, -, htakes⟩ := Grammar.step_eq_ok.1 hstep
      cases hnew : newIdFault? policy a.current.fields.length accepted.current with
      | none => simp [hnew] at h
      | some fault =>
        -- Ids repeat only where a field was added, and of a field nothing is told.
        rcases htakes.fields_or_events with hfields | hevents
        · rw [newIdFault?_of_length (by rw [hfields])] at hnew
          cases hnew
        · simp only [hevents]

theorem events_of_read_failure? (h : (a.read grammar policy line).failure? ≠ none) :
    (a.read grammar policy line).events = [] :=
  events_of_apply_failure? h

theorem apply_of_failure?_eq_none (hline : line ≠ [])
    (h : (a.apply grammar policy line).failure? = none) :
    ∃ clause accepted, Says (a.lineCount, line) clause ∧
      Grammar.Takes a.lineCount a.state a.current clause accepted ∧
      a.apply grammar policy line = { next := a.accept accepted, events := a.tells clause } := by
  rw [apply_failure? hline] at h
  simp only [apply, if_neg hline, grammar]
  cases hstep : Grammar.step a.state line a.lineCount a.current with
  | error fault =>
    rw [hstep] at h
    cases h
  | ok accepted =>
    rw [hstep] at h
    obtain ⟨clause, hsaid, htakes⟩ := Grammar.step_eq_ok.1 hstep
    refine ⟨clause, accepted, hsaid, htakes, ?_⟩
    have hnew : newIdFault? policy a.current.fields.length accepted.current = none :=
      Option.map_eq_none_iff.1 h
    simp only [hnew]
    rw [← tells_eq htakes]
    rfl

end Assembly

/-! ## Accepted lines -/

/-- Lines none of which fails lead from an assembly to another, and each line of code tells these
events. -/
inductive Logs : Assembly Nesting → List (List Char) → List (List Event) → Assembly Nesting → Prop
  | nil {a : Assembly Nesting} : Logs a [] [] a
  | blank {a b : Assembly Nesting} {line : List Char} {lines : List (List Char)}
      {told : List (List Event)} : code line = [] → Logs (a.atLine (a.lineCount + 1)) lines told b →
      Logs a (line :: lines) told b
  | said {a b : Assembly Nesting} {line : List Char} {lines : List (List Char)}
      {told : List (List Event)} {clause : Clause} {accepted : Grammar.Accepted} :
      Says (a.lineCount + 1, code line) clause →
      Grammar.Takes (a.lineCount + 1) a.state a.current clause accepted →
      Logs ((a.atLine (a.lineCount + 1)).accept accepted) lines told b →
      Logs a (line :: lines) ((a.atLine (a.lineCount + 1)).tells clause :: told) b

namespace Assembly

variable {a : Assembly Nesting} {policy : Policy}

theorem logs_readAll {lines : List (List Char)}
    (h : (a.readAll grammar policy (lines.map some)).failure? = none) :
    ∃ told, Logs a lines told (a.readAll grammar policy (lines.map some)).next ∧
      (a.readAll grammar policy (lines.map some)).events = told.flatten := by
  induction lines generalizing a with
  | nil => exact ⟨[], .nil, rfl⟩
  | cons line lines ih =>
    obtain ⟨hline, hlines⟩ := readAll_cons_failure?_eq_none.1 h
    obtain ⟨told, hlogs, hevents⟩ := ih hlines
    rw [List.map_cons, readAll_cons hline]
    by_cases hcode : code line = []
    · have hread : a.read grammar policy line = { next := a.atLine (a.lineCount + 1) } := by
        rw [read, apply, if_pos hcode]
        rfl
      rw [hread] at hlogs hevents ⊢
      exact ⟨told, .blank hcode hlogs, hevents⟩
    · obtain ⟨clause, accepted, hsaid, htakes, hread⟩ :=
        apply_of_failure?_eq_none (a := a.atLine (a.lineCount + 1)) hcode hline
      have hread : a.read grammar policy line = _ := hread
      rw [hread] at hlogs hevents ⊢
      refine ⟨_ :: told, .said hsaid htakes hlogs, ?_⟩
      rw [List.flatten_cons, ← hevents]
      rfl

/-- The lines in front of the first one that fails. -/
def acceptedLines (policy : Policy) (a : Assembly Nesting) : List (List Char) → List (List Char)
  | [] => []
  | line :: lines =>
    let step := a.read grammar policy line
    if step.failure? = none then line :: acceptedLines policy step.next lines else []

theorem readAll_acceptedLines (policy : Policy) (a : Assembly Nesting) (lines : List (List Char)) :
    (a.readAll grammar policy ((a.acceptedLines policy lines).map some)).failure? = none ∧
      (a.readAll grammar policy ((a.acceptedLines policy lines).map some)).events =
        (a.readAll grammar policy (lines.map some)).events := by
  induction lines generalizing a with
  | nil => exact ⟨rfl, rfl⟩
  | cons line lines ih =>
    rw [acceptedLines, List.map_cons]
    cases hline : (a.read grammar policy line).failure? with
    | none =>
      obtain ⟨hfailure, hevents⟩ := ih (a.read grammar policy line).next
      simp only [if_true]
      rw [List.map_cons, readAll_cons hline, readAll_cons hline, Step.after, Step.after, hevents]
      exact ⟨hfailure, rfl⟩
    | some failure =>
      simp only [reduceCtorEq, if_false]
      have hfails : (a.read grammar policy line).failure? ≠ none := by simp [hline]
      rw [readAll_cons_of_failure? hline, events_of_read_failure? hfails]
      exact ⟨rfl, rfl⟩

end Assembly

/-! ## The table -/

/-- What is told of a clause on line `n`, where `first?` is the first package that the lines
declare. -/
inductive Clause.Tells (first? : Option String) (n : Nat) : Clause → List Event → Prop
  | messageStart {name : String} {line : Nat} :
      Tells first? n (.messageStart name line) [.messageStarted name line]
  | messageEnd {name : String} {fields : Nat} :
      Tells first? n .blockEnd [.messageEnded name fields, .messageFinished name n]
  | enumStart {name message : String} :
      Tells first? n (.enumStart name) [.enumStarted name message]
  | enumEnd : Tells first? n .blockEnd []
  | field {f : Field} : Tells first? n (.field f) []
  | enumValue {v : EnumValue} : Tells first? n (.enumValue v) []
  | firstPackage {name : String} : first? = some name →
      Tells first? n (.package name) [.packageDeclared name n]
  | otherPackage {name first : String} : first? = some first → name ≠ first →
      Tells first? n (.package name) [.packageDeclared name n, .packageIgnored name first n]
  | option {name value : String} :
      Tells first? n (.option name value) [.optionIgnored name value n]

theorem Assembly.tells_of_takes {a : Assembly Nesting} {clause : Clause}
    {accepted : Grammar.Accepted} (hlinked : a.Linked)
    (htakes : Grammar.Takes a.lineCount a.state a.current clause accepted) {first? : Option String}
    (hfirst : ∀ first, (a.accept accepted).package? = some first → first? = some first) :
    clause.Tells first? a.lineCount (a.tells clause) := by
  have hpackage := hlinked.accept_package? htakes
  obtain ⟨state, lineCount, current, package?, finished⟩ := a
  cases htakes with
  | messageStart => exact .messageStart
  | messageEnd => exact .messageEnd
  | enumStart => exact .enumStart
  | enumEnd => exact .enumEnd
  | field => exact .field
  | enumValue => exact .enumValue
  | option => exact .option
  | @package _ _ name =>
    cases package? with
    | none => exact .firstPackage (hfirst name hpackage)
    | some first =>
      have hsome : first? = some first := hfirst first hpackage
      by_cases hname : name = first
      · subst hname
        simpa [tells] using Clause.Tells.firstPackage hsome
      · simpa [tells, hname] using Clause.Tells.otherPackage hsome hname

/-- What is told of a line of code, whatever its clause is. -/
def LineTells (first? : Option String) (entry : Nat × List Char) (events : List Event) : Prop :=
  ∃ clause, Says entry clause ∧ clause.Tells first? entry.1 events

namespace Logs

variable {a b : Assembly Nesting} {lines : List (List Char)} {told : List (List Event)}

theorem package?_eq (h : Logs a lines told b) (hlinked : a.Linked) {first : String}
    (hfirst : a.package? = some first) : b.package? = some first := by
  induction h with
  | nil => exact hfirst
  | blank _ _ ih => exact ih (hlinked.atLine _) hfirst
  | @said a _ _ _ _ _ _ _ htakes _ ih =>
    have hlinked := hlinked.atLine (a.lineCount + 1)
    refine ih (hlinked.accept htakes) ?_
    rw [hlinked.accept_package? htakes]
    exact congrArg (Option.or · _) hfirst

/-- Line by line, lines tell what the table says. -/
theorem tells (h : Logs a lines told b) (hlinked : a.Linked) :
    List.Forall₂ (LineTells b.package?) (codeLines a.lineCount lines) told := by
  induction h with
  | nil => exact .nil
  | blank hcode _ ih =>
    rw [codeLines, if_pos hcode]
    exact ih (hlinked.atLine _)
  | @said a b line lines told clause accepted hsaid htakes hrest ih =>
    have hlinked := hlinked.atLine (a.lineCount + 1)
    have hnext := hlinked.accept htakes
    have htold := ih hnext
    rw [Assembly.accept_lineCount] at htold
    rw [codeLines, if_neg hsaid.ne_nil]
    refine .cons ⟨clause, hsaid, ?_⟩ htold
    exact Assembly.tells_of_takes hlinked htakes fun first => hrest.package?_eq hnext

end Logs

/-! ## Brackets -/

/-- The events that tell of one message as a whole. -/
def Event.isBracket : Event → Bool
  | .messageStarted .. | .messageEnded .. | .messageFinished .. => true
  | _ => false

/-- What is told of a message whose closing brace is on this line. -/
def Message.brackets (m : Message) (close : Nat) : List Event :=
  [.messageStarted m.name m.line, .messageEnded m.name m.fields.length,
    .messageFinished m.name close]

/-- The line of the brace that closes the innermost open block, where `depth` more blocks are opened
in it. -/
def closingLine? : Nat → List (Nat × List Char) → Option Nat
  | _, [] => none
  | depth, entry :: entries =>
    match Clause.ofLine? entry with
    | some .blockEnd =>
      match depth with
      | 0 => some entry.1
      | depth + 1 => closingLine? depth entries
    | some (.messageStart ..) | some (.enumStart _) => closingLine? (depth + 1) entries
    | _ => closingLine? depth entries

/-- The closing brace of the message is on this line of the text. -/
def ClosesAt (lines : List (List Char)) (m : Message) (close : Nat) : Prop :=
  closingLine? 0 (codeLines m.line (lines.drop m.line)) = some close

/-- How many blocks are open inside the innermost message. -/
def Nesting.depth : Nesting → Nat
  | .topLevel | .inMessage => 0
  | .inEnum => 1

/-- The messages that are finished from an assembly on in these lines of the whole text, and what is
told of them. Of a message that is open already only the end is told. -/
inductive Brackets (lines : List (List Char)) (a : Assembly Nesting) :
    List (Message × Nat) → List Event → Prop
  | topLevel {closed : List (Message × Nat)} {events : List Event} : a.state = .topLevel →
      (∀ p ∈ closed, ClosesAt lines p.1 p.2) →
      events.filter Event.isBracket = closed.flatMap (fun p => p.1.brackets p.2) →
      Brackets lines a closed events
  | inBlock {m : Message} {close : Nat} {closed : List (Message × Nat)} {events : List Event} :
      a.state ≠ .topLevel → m.heading = a.current.heading →
      closingLine? a.state.depth (codeLines a.lineCount (lines.drop a.lineCount)) = some close →
      (∀ p ∈ closed, ClosesAt lines p.1 p.2) →
      events.filter Event.isBracket =
        (m.brackets close).tail ++ closed.flatMap (fun p => p.1.brackets p.2) →
      Brackets lines a ((m, close) :: closed) events

/-- Where a line opens and closes no message, the brackets behind it are those in front of it. -/
theorem Brackets.skip {lines : List (List Char)} {a b : Assembly Nesting}
    {closed : List (Message × Nat)} {told events : List Event} (h : Brackets lines b closed events)
    (htop : b.state = .topLevel ↔ a.state = .topLevel)
    (hopen : a.state ≠ .topLevel → b.current.heading = a.current.heading ∧
      closingLine? a.state.depth (codeLines a.lineCount (lines.drop a.lineCount)) =
        closingLine? b.state.depth (codeLines b.lineCount (lines.drop b.lineCount)))
    (htold : told.filter Event.isBracket = []) : Brackets lines a closed (told ++ events) := by
  cases h with
  | topLevel hstate hcloses hevents =>
    exact .topLevel (htop.1 hstate) hcloses (by rw [List.filter_append, htold, hevents]; rfl)
  | inBlock hstate hheading hclosing hcloses hevents =>
    have hstate' : a.state ≠ .topLevel := fun h => hstate (htop.2 h)
    obtain ⟨hsame, hline⟩ := hopen hstate'
    exact .inBlock hstate' (hheading.trans hsame) (hline.trans hclosing) hcloses
      (by rw [List.filter_append, htold, hevents]; rfl)

theorem closingLine?_cons {depth : Nat} {entry : Nat × List Char}
    {entries : List (Nat × List Char)} {clause : Clause} (h : Says entry clause) :
    closingLine? depth (entry :: entries) =
      match clause with
      | .blockEnd =>
        match depth with
        | 0 => some entry.1
        | depth + 1 => closingLine? depth entries
      | .messageStart .. | .enumStart _ => closingLine? (depth + 1) entries
      | _ => closingLine? depth entries := by
  rw [closingLine?.eq_def]
  simp only [Clause.ofLine?_eq_some.2 h]
  cases clause <;> rfl

section Lines

variable {a : Assembly Nesting} {all lines : List (List Char)} {line : List Char} {clause : Clause}
  {accepted : Grammar.Accepted} {closed : List (Message × Nat)} {events : List Event}

theorem codeLines_drop (hlines : all.drop a.lineCount = line :: lines) (hcode : code line ≠ []) :
    codeLines a.lineCount (all.drop a.lineCount) =
      (a.lineCount + 1, code line) ::
        codeLines (a.lineCount + 1) (all.drop (a.lineCount + 1)) := by
  rw [← List.tail_drop, hlines, codeLines, if_neg hcode, List.tail_cons]

theorem Brackets.started {b : Assembly Nesting} {name : String} (h : Brackets all b closed events)
    (hstate : a.state = .topLevel) (hopen : b.state = .inMessage)
    (hline : b.lineCount = a.lineCount + 1)
    (hheading : b.current.heading = (name, a.lineCount + 1)) :
    Brackets all a closed (.messageStarted name (a.lineCount + 1) :: events) := by
  cases h with
  | topLevel htop => exact absurd (hopen.symm.trans htop) nofun
  | @inBlock m close closed events _ hm hclosing hcloses hevents =>
    obtain ⟨rfl, hmline⟩ : m.name = name ∧ m.line = a.lineCount + 1 :=
      Prod.mk.inj (hm.trans hheading)
    rw [hopen, hline, ← hmline] at hclosing
    refine .topLevel hstate (List.forall_mem_cons.2 ⟨hclosing, hcloses⟩) ?_
    rw [List.filter_cons_of_pos rfl, hevents, ← hmline]
    rfl

theorem Brackets.ended {b : Assembly Nesting} (h : Brackets all b closed events)
    (hstate : a.state = .inMessage) (hclosed : b.state = .topLevel)
    (hlines : all.drop a.lineCount = line :: lines)
    (hsaid : Says (a.lineCount + 1, code line) .blockEnd) :
    Brackets all a ((a.current, a.lineCount + 1) :: closed)
      (.messageEnded a.current.name a.current.fields.length ::
        .messageFinished a.current.name (a.lineCount + 1) :: events) := by
  cases h with
  | topLevel _ hcloses hevents =>
    refine .inBlock (by rw [hstate]; nofun) rfl ?_ hcloses ?_
    · rw [hstate, codeLines_drop hlines hsaid.ne_nil, closingLine?_cons hsaid]
      rfl
    · rw [List.filter_cons_of_pos rfl, List.filter_cons_of_pos rfl, hevents]
      rfl
  | inBlock hopen => exact absurd hclosed hopen

/-- What leaves the nesting of messages as it was, or opens one, or closes one. -/
theorem Grammar.Takes.nesting_cases {n : Nat} {nesting : Nesting} {m : Message} {clause : Clause}
    {accepted : Accepted} (h : Takes n nesting m clause accepted) :
    (accepted.signal.closed = false ∧ (accepted.nesting = .topLevel ↔ nesting = .topLevel)) ∨
    (accepted.signal.closed = false ∧ nesting = .topLevel ∧ accepted.nesting = .inMessage ∧
      ∃ name line, clause = .messageStart name line ∧
        accepted.current.heading = (name, line)) ∨
    (accepted.signal.closed = true ∧ nesting = .inMessage ∧ clause = .blockEnd) := by
  cases h with
  | messageStart => exact .inr (.inl ⟨rfl, rfl, rfl, _, _, rfl, rfl⟩)
  | messageEnd => exact .inr (.inr ⟨rfl, rfl, rfl⟩)
  | enumStart | enumEnd | field | enumValue => exact .inl ⟨rfl, by simp⟩
  | package | option => exact .inl ⟨rfl, Iff.rfl⟩

theorem Brackets.inside
    (h : Brackets all ((a.atLine (a.lineCount + 1)).accept accepted) closed events)
    (hlinked : (a.atLine (a.lineCount + 1)).Linked)
    (hlines : all.drop a.lineCount = line :: lines)
    (hsaid : Says (a.lineCount + 1, code line) clause)
    (htakes : Grammar.Takes (a.lineCount + 1) a.state a.current clause accepted)
    (hopen : accepted.signal.closed = false)
    (htop : accepted.nesting = .topLevel ↔ a.state = .topLevel) :
    Brackets all a closed ((a.atLine (a.lineCount + 1)).tells clause ++ events) := by
  rw [hlinked.accept_eq htakes hopen] at h
  refine h.skip htop (fun hstate => ?_) ?_
  · rw [codeLines_drop hlines hsaid.ne_nil, closingLine?_cons hsaid]
    obtain ⟨state, lineCount, current, package?, finished⟩ := a
    cases htakes with
    | messageStart => exact absurd rfl hstate
    | messageEnd => cases hopen
    | enumStart | enumEnd | field | enumValue => exact ⟨rfl, rfl⟩
    | package | option => exact ⟨rfl, rfl⟩
  · obtain ⟨state, lineCount, current, package?, finished⟩ := a
    cases htakes with
    | messageStart => exact absurd (htop.2 rfl) nofun
    | messageEnd => cases hopen
    | enumStart | enumEnd | field | enumValue | option => rfl
    | package =>
      simp only [Assembly.tells]
      split
      · rfl
      · split <;> rfl

end Lines

namespace Logs

variable {a b : Assembly Nesting} {all lines : List (List Char)} {told : List (List Event)}

/-- The messages that lines finish, each with the line of its closing brace. -/
theorem brackets (h : Logs a lines told b) (hlinked : a.Linked)
    (hlines : all.drop a.lineCount = lines) (hend : b.state = .topLevel) :
    ∃ closed, b.finished = a.finished ++ closed.map (·.1) ∧
      Brackets all a closed told.flatten := by
  -- What is told behind a line stands in brackets. The line leaves the nesting of messages as it
  -- is, or starts the message that is open behind it, or ends the one that is open in front of it.
  induction h with
  | nil => exact ⟨[], (List.append_nil _).symm, .topLevel hend nofun rfl⟩
  | @blank a b line lines told hcode _ ih =>
    have hrest : all.drop (a.lineCount + 1) = lines := by
      rw [← List.tail_drop, hlines, List.tail_cons]
    obtain ⟨closed, hfinished, hbrackets⟩ := ih (hlinked.atLine _) hrest hend
    have hclosing : closingLine? a.state.depth (codeLines a.lineCount (all.drop a.lineCount)) =
        closingLine? a.state.depth
          (codeLines (a.lineCount + 1) (all.drop (a.lineCount + 1))) := by
      rw [hlines, codeLines, if_pos hcode, hrest]
    have hnone : ([] : List Event).filter Event.isBracket = [] := rfl
    exact ⟨closed, hfinished, hbrackets.skip (a := a) Iff.rfl (fun _ => ⟨rfl, hclosing⟩) hnone⟩
  | @said a b line lines told clause accepted hsaid htakes _ ih =>
    have hrest : all.drop (a.lineCount + 1) = lines := by
      rw [← List.tail_drop, hlines, List.tail_cons]
    have hlinked := hlinked.atLine (a.lineCount + 1)
    obtain ⟨closed, hfinished, hbrackets⟩ := ih (hlinked.accept htakes)
      (by rw [Assembly.accept_lineCount]; exact hrest) hend
    rcases htakes.nesting_cases with ⟨hopen, htop⟩ |
      ⟨hopen, hstate, hnext, name, number, rfl, hheading⟩ | ⟨hclosed, hstate, rfl⟩
    · rw [hlinked.accept_eq htakes hopen] at hfinished
      exact ⟨closed, hfinished, hbrackets.inside hlinked hlines hsaid htakes hopen htop⟩
    · obtain rfl : number = a.lineCount + 1 := hsaid.start_line
      rw [hlinked.accept_eq htakes hopen] at hfinished hbrackets
      exact ⟨closed, hfinished, hbrackets.started hstate hnext rfl hheading⟩
    · rw [Assembly.accept_eq_of_closed htakes hclosed] at hfinished hbrackets
      refine ⟨(a.current, a.lineCount + 1) :: closed, ?_, ?_⟩
      · rw [hfinished, List.append_assoc]
        rfl
      · have hblock : (a.atLine (a.lineCount + 1)).state = .inMessage := hstate
        rw [List.flatten_cons, Assembly.tells, if_pos hblock]
        exact hbrackets.ended hstate rfl hlines hsaid

end Logs

/-! ## Neighbours in the log -/

/-- The warning that a line of code calls for: it declares another package than the first one. -/
def ignoredPackage? (first? : Option String) (entry : Nat × List Char) : Option Event :=
  match Clause.ofLine? entry, first? with
  | some (.package name), some first =>
    if name = first then none else some (.packageIgnored name first entry.1)
  | _, _ => none

namespace Clause.Tells

variable {first? : Option String} {entry : Nat × List Char} {clause : Clause} {events : List Event}
  {n : Nat}

theorem warnings (h : clause.Tells first? entry.1 events) (hsaid : Says entry clause) :
    events.filter (fun e => e.level = .warn) = (ignoredPackage? first? entry).toList := by
  unfold ignoredPackage?
  rw [Clause.ofLine?_eq_some.2 hsaid]
  cases h with
  | firstPackage hfirst => simp [hfirst, Event.level]
  | otherPackage hfirst hne => simp [hfirst, hne, Event.level]
  | messageStart | messageEnd | enumStart | enumEnd | field | enumValue | option => rfl

/-- Behind the end of a message nothing is told of its line but that it is finished. -/
theorem behind_ended (h : clause.Tells first? n events) {front behind : List Event} {name : String}
    {fields : Nat} (hevents : events = front ++ .messageEnded name fields :: behind) :
    behind = [.messageFinished name n] := by
  cases h with
  | @messageEnd name' fields' =>
    have hsplit : front = [] ∧ (name = name' ∧ fields = fields') ∧
        behind = [.messageFinished name' n] := by
      simpa [List.cons_eq_append_iff] using hevents
    rw [hsplit.2.2, hsplit.2.1.1]
  | messageStart | enumStart | enumEnd | field | enumValue | firstPackage | otherPackage | option =>
    simp [List.cons_eq_append_iff] at hevents

/-- In front of a package that is ignored only its declaration is told of its line. -/
theorem front_ignored (h : clause.Tells first? n events) {front behind : List Event}
    {name first : String} {line : Nat}
    (hevents : events = front ++ .packageIgnored name first line :: behind) :
    front = [.packageDeclared name line] := by
  cases h with
  | @otherPackage name' first' =>
    have hsplit : front = [.packageDeclared name' n] ∧
        (name = name' ∧ first = first' ∧ line = n) ∧ behind = [] := by
      simpa [List.cons_eq_append_iff] using hevents
    rw [hsplit.1, hsplit.2.1.1, hsplit.2.1.2.2]
  | messageStart | messageEnd | enumStart | enumEnd | field | enumValue | firstPackage | option =>
    simp [List.cons_eq_append_iff] at hevents

theorem not_schemaFinished (h : clause.Tells first? n events) (lines messages : Nat) :
    .schemaFinished lines messages ∉ events := by
  cases h <;> simp

end Clause.Tells

/-- A member of joined lists is a member of one of them, and has its neighbours there. -/
theorem exists_of_flatten_eq_append {α : Type} {xss : List (List α)} {front behind : List α} {x : α}
    (h : xss.flatten = front ++ x :: behind) :
    ∃ xs ∈ xss, ∃ u v, xs = u ++ x :: v ∧ u <:+ front ∧ v <+: behind := by
  rcases List.flatten_eq_append_iff.1 h with
    ⟨as, bs, rfl, -, hbs⟩ | ⟨as, bs, c, cs, ds, rfl, hfront, hbehind⟩
  · obtain ⟨as', v, cs, rfl, -, hbehind⟩ := List.flatten_eq_cons_iff.1 hbs.symm
    exact ⟨x :: v, by simp, [], v, rfl, List.nil_suffix, ⟨_, hbehind.symm⟩⟩
  · obtain ⟨rfl, rfl⟩ := List.cons.inj hbehind
    exact ⟨bs ++ x :: cs, by simp, bs, cs, rfl, ⟨_, hfront.symm⟩, ⟨_, rfl⟩⟩

/-! ## Texts -/

/-- What is told at the end of a schema of so many lines. -/
def schemaEnd (lines : Nat) : Except Failure (List Message) → List Event
  | .ok messages => [.schemaFinished lines messages.length]
  | .error _ => []

theorem Assembly.complete_events {σ : Type} (rules : LineRules σ) (policy : Policy)
    (a : Assembly σ) (texts : List (List Char)) :
    (a.complete rules policy (texts.map some)).events =
      (a.readAll rules policy (texts.map some)).events ++
        schemaEnd (a.lineCount + texts.length)
          (a.complete rules policy (texts.map some)).result := by
  cases hread : (a.readAll rules policy (texts.map some)).failure? with
  | some failure =>
    simp only [complete, hread]
    exact (List.append_nil _).symm
  | none =>
    rw [← readAll_lineCount hread]
    simp only [complete, hread, finish, Report.after]
    cases (a.readAll rules policy (texts.map some)).next.endFault? rules policy <;> rfl

/-- The first package that these lines declare. -/
def declaredPackage? (lines : List (List Char)) : Option String :=
  ((codeLines 0 lines).filterMap Clause.ofLine?).findSome? Clause.package?

/-- What a text tells is told by its accepted lines, one after the other, and by its end. -/
theorem exists_told (policy : Policy) (text : String) :
    let accepted := Assembly.start.acceptedLines policy (textLines text.toList)
    ∃ told, List.Forall₂ (LineTells (declaredPackage? accepted)) (codeLines 0 accepted) told ∧
      (compileText policy text).events = told.flatten ++
        schemaEnd (textLines text.toList).length (compileText policy text).result := by
  intro accepted
  obtain ⟨hfailure, hevents⟩ :=
    Assembly.start.readAll_acceptedLines policy (textLines text.toList)
  obtain ⟨told, hlogs, htold⟩ := Assembly.logs_readAll hfailure
  have hpackage := Assembly.package?_readAll Assembly.linked_start hfailure
  refine ⟨told, ?_, ?_⟩
  · have htable := hlogs.tells Assembly.linked_start
    rw [hpackage] at htable
    exact htable
  · have hcomplete := Assembly.start.complete_events grammar policy (textLines text.toList)
    rw [← hevents, htold, show Assembly.start.lineCount = 0 from rfl, Nat.zero_add] at hcomplete
    exact hcomplete

theorem exists_closed {policy : Policy} {text : String} {messages : List Message}
    (h : (compileText policy text).result = .ok messages) :
    ∃ closed : List (Message × Nat), closed.map (·.1) = messages ∧
      (∀ p ∈ closed, ClosesAt (textLines text.toList) p.1 p.2) ∧
      (compileText policy text).events.filter Event.isBracket =
        closed.flatMap fun p => p.1.brackets p.2 := by
  obtain ⟨hread, hend, rfl⟩ := Assembly.complete_eq_ok.1 h
  obtain ⟨told, hlogs, htold⟩ := Assembly.logs_readAll hread
  have haccept := Assembly.finish_of_endFault?_eq_none (Assembly.endFault?_accept hend)
  obtain ⟨closed, hclosed, hbrackets⟩ :=
    hlogs.brackets Assembly.linked_start rfl (Assembly.finish_eq_ok.1 haccept).1
  cases hbrackets with
  | inBlock hopen => exact absurd rfl hopen
  | topLevel _ hcloses hfilter =>
    refine ⟨closed, hclosed.symm, hcloses, ?_⟩
    have hend : ∀ result, (schemaEnd (Assembly.start.lineCount +
        (textLines text.toList).length) result).filter Event.isBracket = [] := by
      intro result
      cases result <;> rfl
    rw [compileText, sourceLines, Assembly.complete_events, htold, List.filter_append, hend,
      List.append_nil, hfilter]

theorem filter_warn_flatten {first? : Option String} {numbered : List (Nat × List Char)}
    {told : List (List Event)}
    (h : List.Forall₂ (LineTells first?) numbered told) :
    told.flatten.filter (fun e => e.level = .warn) =
      numbered.filterMap (ignoredPackage? first?) := by
  induction h with
  | nil => rfl
  | @cons entry events numbered told hentry _ ih =>
    obtain ⟨clause, hsaid, htells⟩ := hentry
    rw [List.flatten_cons, List.filter_append, htells.warnings hsaid, ih, List.filterMap_cons]
    cases ignoredPackage? first? entry <;> rfl

theorem not_mem_flatten_schemaFinished {first? : Option String}
    {numbered : List (Nat × List Char)} {told : List (List Event)}
    (h : List.Forall₂ (LineTells first?) numbered told) (lines messages : Nat) :
    .schemaFinished lines messages ∉ told.flatten := by
  intro hmem
  obtain ⟨events, htold, hmem⟩ := List.mem_flatten.1 hmem
  obtain ⟨entry, -, clause, -, htells⟩ := exists_left_of_forall₂ h htold
  exact htells.not_schemaFinished lines messages hmem

/-- The neighbours that an event has in the log are those that it has among the events of its line,
unless it stands at an end of them. -/
theorem exists_tells_of_append {first? : Option String} {numbered : List (Nat × List Char)}
    {told : List (List Event)} (h : List.Forall₂ (LineTells first?) numbered told) {lines : Nat}
    {result : Except Failure (List Message)} {front behind : List Event} {e : Event}
    (hsplit : told.flatten ++ schemaEnd lines result = front ++ e :: behind)
    (he : ∀ n k, e ≠ .schemaFinished n k) :
    ∃ (n : Nat) (clause : Clause) (u v : List Event),
      clause.Tells first? n (u ++ e :: v) ∧ u <:+ front ∧ v <+: behind := by
  rw [← List.flatten_concat] at hsplit
  obtain ⟨events, hevents, u, v, rfl, hu, hv⟩ := exists_of_flatten_eq_append hsplit
  rcases List.mem_append.1 hevents with htold | hend
  · obtain ⟨entry, -, clause, -, htells⟩ := exists_left_of_forall₂ h htold
    exact ⟨entry.1, clause, u, v, htells, hu, hv⟩
  · have hmem : e ∈ schemaEnd lines result := by
      rw [← List.mem_singleton.1 hend]
      simp
    cases result with
    | error failure => cases hmem
    | ok messages => exact absurd (List.mem_singleton.1 hmem) (he _ _)

/-- What the log tells of a schema. Lines that fail tell nothing, and accepted lines tell what the
table says. Each message that is handed out is told of three times, in the order of the messages and
never inside of another one: on its line, at its end with the number of its fields, and directly
behind that on the line of its closing brace. There is a warning for each accepted line that
declares another package than the first one, which it names, directly behind the declaration. The
last event of a schema that is read to its end counts its lines and its messages, and no other
schema has it. -/
theorem compileText_log (policy : Policy) (text : String) :
    let lines := textLines text.toList
    let accepted := Assembly.start.acceptedLines policy lines
    let report := compileText policy text
    (∀ (a : Assembly Nesting) (line : List Char), (a.read grammar policy line).failure? ≠ none →
      (a.read grammar policy line).events = []) ∧
    (∃ told, List.Forall₂ (LineTells (declaredPackage? accepted)) (codeLines 0 accepted) told ∧
      report.events = told.flatten ++ schemaEnd lines.length report.result) ∧
    (∀ messages, report.result = .ok messages →
      ∃ closed : List (Message × Nat), closed.map (·.1) = messages ∧
        (∀ p ∈ closed, ClosesAt lines p.1 p.2) ∧
        report.events.filter Event.isBracket = closed.flatMap fun p =>
          [.messageStarted p.1.name p.1.line, .messageEnded p.1.name p.1.fields.length,
            .messageFinished p.1.name p.2]) ∧
    (∀ front name fields behind, report.events = front ++ .messageEnded name fields :: behind →
      ∃ n, behind.head? = some (.messageFinished name n)) ∧
    report.events.filter (fun e => e.level = .warn) =
      (codeLines 0 accepted).filterMap (ignoredPackage? (declaredPackage? accepted)) ∧
    (∀ front name first n behind, report.events = front ++ .packageIgnored name first n :: behind →
      front.getLast? = some (.packageDeclared name n)) ∧
    (∀ messages, report.result = .ok messages →
      ∃ front, report.events = front ++ [.schemaFinished lines.length messages.length] ∧
        ∀ n k, .schemaFinished n k ∉ front) ∧
    ∀ failure, report.result = .error failure → ∀ n k, .schemaFinished n k ∉ report.events := by
  intro lines accepted report
  obtain ⟨told, htable, hevents⟩ := exists_told policy text
  refine ⟨fun a line => Assembly.events_of_read_failure?, ⟨told, htable, hevents⟩,
    fun messages hresult => ?_,
    fun front name fields behind hsplit => ?_, ?_, fun front name first n behind hsplit => ?_,
    fun messages hresult => ⟨told.flatten, ?_, ?_⟩, fun failure hresult => ?_⟩
  · exact exists_closed hresult
  · obtain ⟨n, clause, u, v, htells, -, hv⟩ :=
      exists_tells_of_append htable (hevents.symm.trans hsplit) nofun
    obtain rfl := htells.behind_ended rfl
    obtain ⟨rest, rfl⟩ := hv
    exact ⟨n, rfl⟩
  · have hend : ∀ result,
        (schemaEnd lines.length result).filter (fun e => e.level = .warn) = [] := by
      intro result
      cases result <;> rfl
    rw [hevents, List.filter_append, hend, List.append_nil, filter_warn_flatten htable]
  · obtain ⟨line, clause, u, v, htells, hu, -⟩ :=
      exists_tells_of_append htable (hevents.symm.trans hsplit) nofun
    obtain rfl := htells.front_ignored rfl
    obtain ⟨rest, rfl⟩ := hu
    exact List.getLast?_concat
  · rw [hevents, hresult]
    rfl
  · exact not_mem_flatten_schemaFinished htable
  · rw [hevents, hresult, schemaEnd, List.append_nil]
    exact not_mem_flatten_schemaFinished htable

/-- A package that is ignored inside of a message. -/
example :
    (compileText {} "package a;\nmessage A \x7b\npackage b;\noptional bool c = 1;\n\x7d").events =
      [.packageDeclared "a" 1, .messageStarted "A" 2, .packageDeclared "b" 3,
        .packageIgnored "b" "a" 3, .messageEnded "A" 1, .messageFinished "A" 5,
        .schemaFinished 5 1] := by
  rfl

end ProtoSchema
