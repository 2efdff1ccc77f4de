import ProtoSchema.Proofs.FirstLines

/-!
# Lines elsewhere

A line does the same wherever it stands. Only the numbers of the lines read so far depend on what
else stands in the text, and the package and the messages that were there before.

**The translation.** `Assembly.relocated` takes an assembly to other lines, behind a package and
messages that it did not read itself. A message that has not started is on no line, and stays there.

**The simulation.** If the next line of the relocated assembly is where the next line of the assembly
goes, then both read it alike (`read_relocated`).

Results:
* `step_eq_error_congr`, `Takes.relocated`: what the grammar does with a line that stands elsewhere;
* `obey_relocated`, `apply_relocated`, `read_relocated`: every line commutes with the translation;
* `endFault?_relocated`: the end finds the same fault.
-/
namespace ProtoSchema

open Text

/-! ## The translation -/

def Field.relocated (place : Nat → Nat) (f : Field) : Field :=
  { f with line := place f.line }

@[simp]
theorem Field.relocated_id (place : Nat → Nat) (f : Field) : (f.relocated place).id = f.id := rfl

/-- The message on other lines, in a file that has this package if it has one. -/
def Message.relocated (place : Nat → Nat) (package? : Option String) (m : Message) : Message :=
  { m with
    package? := package?.or m.package?
    line := if m.line = 0 then 0 else place m.line
    fields := m.fields.map (Field.relocated place) }

def Failure.relocated (place : Nat → Nat) (failure : Failure) : Failure :=
  { failure with line := place failure.line }

def Clause.relocated (place : Nat → Nat) : Clause → Clause
  | .messageStart name line => .messageStart name (place line)
  | .field f => .field (f.relocated place)
  | clause => clause

/-- The assembly on other lines, `count` of which were read, behind this package, if any, and these
messages. -/
def Assembly.relocated (place : Nat → Nat) (count : Nat) (package? : Option String)
    (messages : List Message) (a : Assembly Nesting) : Assembly Nesting :=
  { state := a.state
    lineCount := count
    current := a.current.relocated place package?
    package? := package?.or a.package?
    finished := messages ++ a.finished.map (Message.relocated place package?) }

variable {place : Nat → Nat} {package? : Option String}

theorem Says.relocated {number : Nat} {line : List Char} {clause : Clause}
    (h : Says (number, line) clause) (place : Nat → Nat) :
    Says (place number, line) (clause.relocated place) := by
  cases h with
  | blockEnd hw => exact .blockEnd hw
  | package hw => exact .package hw
  | messageStart hw => exact .messageStart hw
  | enumStart hw => exact .enumStart hw
  | field hw hdigits hid hline => exact .field hw hdigits hid (congrArg place hline)
  | enumValue hw hlabel hk hint => exact .enumValue hw hlabel hk hint
  | option hw => exact .option hw

/-! ## Ids -/

namespace Message

variable {m : Message}

@[simp]
theorem relocated_fields :
    (m.relocated place package?).fields = m.fields.map (Field.relocated place) := rfl

@[simp]
theorem relocated_enums : (m.relocated place package?).enums = m.enums := rfl

theorem repeatedAt?_relocated (index : Nat) :
    (m.relocated place package?).repeatedAt? index =
      (m.repeatedAt? index).map (Field.relocated place) := by
  rw [repeatedAt?, repeatedAt?, relocated_fields, List.getElem?_map, ← List.map_take,
    Option.filter_map]
  simp only [List.any_map]
  rfl

theorem idFaultFrom?_relocated (index : Nat) :
    (m.relocated place package?).idFaultFrom? index = m.idFaultFrom? index := by
  have hat : (m.relocated place package?).idFaultAt? = m.idFaultAt? := by
    funext index
    rw [idFaultAt?, repeatedAt?_relocated, Option.map_map]
    rfl
  rw [idFaultFrom?, idFaultFrom?, relocated_fields, List.length_map, hat]

theorem firstRepeat?_relocated (seen : List UInt32) (fields : List Field) :
    firstRepeat? seen (fields.map (Field.relocated place)) =
      (firstRepeat? seen fields).map (Field.relocated place) := by
  induction fields generalizing seen with
  | nil => rfl
  | cons f fields ih =>
    rw [List.map_cons, firstRepeat?, firstRepeat?, ih, Field.relocated_id]
    by_cases h : f.id ∈ seen
    · rw [if_pos h, if_pos h]
      rfl
    · rw [if_neg h, if_neg h]

theorem firstIdFault?_relocated (messages : List Message) :
    firstIdFault? (messages.map (Message.relocated place package?)) = firstIdFault? messages := by
  rw [firstIdFault?, List.findSome?_map]
  congr 1
  funext m
  rw [Function.comp_apply, idFault?, relocated_fields, firstRepeat?_relocated, Option.map_map]
  rfl

end Message

/-! ## Lines of the grammar -/

namespace Grammar

theorem addField_eq_error_congr {nesting : Nesting} {decl : FieldDecl} {number number' : Nat}
    {m m' : Message} {reason : Reason} (h : addField nesting decl number m = .error reason) :
    addField nesting decl number' m' = .error reason := by
  unfold addField at h ⊢
  split
  · next hnesting => rwa [if_pos hnesting] at h
  · next hnesting =>
    rw [if_neg hnesting, declared] at h
    rw [declared]
    cases hid : fieldId decl.digits with
    | error reason' =>
      rw [hid] at h
      exact h
    | ok id =>
      rw [hid] at h
      cases h

theorem addEnumValue_eq_error_congr {nesting : Nesting} {label : String} {negative : Bool}
    {digits : List Char} {m m' : Message} {reason : Reason} (henums : m'.enums = m.enums)
    (h : addEnumValue nesting label negative digits m = .error reason) :
    addEnumValue nesting label negative digits m' = .error reason := by
  unfold addEnumValue at h ⊢
  split
  · next hnesting => rwa [if_pos hnesting] at h
  · next hnesting =>
    rw [if_neg hnesting] at h
    cases hvalue : enumNumber negative digits with
    | error reason' =>
      rw [hvalue] at h
      exact h
    | ok value =>
      simp only [hvalue, henums, bind, Except.bind] at h ⊢
      cases haddValue : addValue? m.enums { label, value } with
      | none =>
        rw [haddValue] at h
        exact h
      | some enums =>
        rw [haddValue] at h
        cases h

/-- Whether and why a line is rejected depends neither on its number nor on the message, its enums
aside. -/
theorem step_eq_error_congr {nesting : Nesting} {line : List Char} {number number' : Nat}
    {m m' : Message} {fault : Fault} (henums : m'.enums = m.enums)
    (h : step nesting line number m = .error fault) :
    step nesting line number' m' = .error fault := by
  unfold step at h ⊢
  cases hline : Statement.ofLine line with
  | error reason =>
    rw [hline] at h
    exact h
  | ok statement =>
    rw [hline] at h
    cases statement with
    | field decl =>
      obtain ⟨reason, hfield, rfl⟩ := orReject_eq_error.1 h
      exact orReject_eq_error.2 ⟨reason, addField_eq_error_congr hfield, rfl⟩
    | enumValue label negative digits =>
      obtain ⟨reason, hvalue, rfl⟩ := orReject_eq_error.1 h
      exact orReject_eq_error.2 ⟨reason, addEnumValue_eq_error_congr henums hvalue, rfl⟩
    | blockEnd | messageStart name | enumStart name | package name | option name value =>
      -- The nesting alone decides.
      cases nesting <;> first | exact h | cases h

theorem Takes.relocated {number : Nat} {nesting : Nesting} {m : Message} {clause : Clause}
    {accepted : Accepted} (h : Takes number nesting m clause accepted)
    (hclause : ∀ name line, clause = .messageStart name line → line ≠ 0) (number' : Nat)
    (place : Nat → Nat) (package? : Option String) :
    ∃ accepted' : Accepted,
      Takes number' nesting (m.relocated place package?) (clause.relocated place) accepted' ∧
      accepted'.nesting = accepted.nesting ∧ accepted'.signal = accepted.signal ∧
      accepted'.current = accepted.current.relocated place package? := by
  cases h with
  | @messageStart m name line =>
    refine ⟨_, .messageStart, rfl, rfl, ?_⟩
    rw [Message.relocated, Message.relocated, if_neg (hclause name line rfl)]
  | messageEnd => exact ⟨_, .messageEnd, rfl, rfl, rfl⟩
  | enumStart => exact ⟨_, .enumStart, rfl, rfl, rfl⟩
  | enumEnd => exact ⟨_, .enumEnd, rfl, rfl, rfl⟩
  | field =>
    refine ⟨_, .field, rfl, rfl, ?_⟩
    simp [Message.relocated]
  | enumValue henums => exact ⟨_, .enumValue henums, rfl, rfl, rfl⟩
  | package hnesting => exact ⟨_, .package hnesting, rfl, rfl, rfl⟩
  | option hnesting => exact ⟨_, .option hnesting, rfl, rfl, rfl⟩

theorem step_eq_ok_relocated {nesting : Nesting} {line : List Char} {number : Nat} {m : Message}
    {accepted : Accepted} (hnumber : number ≠ 0)
    (h : step nesting line number m = .ok accepted) (place : Nat → Nat)
    (package? : Option String) :
    ∃ accepted' : Accepted,
      step nesting line (place number) (m.relocated place package?) = .ok accepted' ∧
      accepted'.nesting = accepted.nesting ∧ accepted'.signal = accepted.signal ∧
      accepted'.current = accepted.current.relocated place package? := by
  obtain ⟨clause, hsaid, htakes⟩ := step_eq_ok.1 h
  have hclause : ∀ name start, clause = .messageStart name start → start ≠ 0 := by
    rintro name start rfl
    rwa [hsaid.start_line]
  obtain ⟨accepted', htakes', hsame⟩ := htakes.relocated hclause (place number) place package?
  exact ⟨accepted', step_eq_ok.2 ⟨_, hsaid.relocated place, htakes'⟩, hsame⟩

end Grammar

namespace Assembly

variable {a : Assembly Nesting} {messages : List Message} {policy : Policy} {count : Nat}

/-! ## Lines -/

/-- A package that was settled elsewhere is taken for the first one. -/
theorem takePackage_relocated (a : Assembly Nesting) (declared? : Option String) :
    ((a.relocated place count package? messages).takePackage declared?).1 =
      (a.takePackage declared?).1.relocated place count package? messages := by
  cases declared? with
  | none => rfl
  | some name =>
    cases hshared : a.package? with
    | some first => cases package? <;> simp [takePackage, relocated, hshared]
    | none => cases package? <;> simp [takePackage, relocated, hshared, Message.relocated]

theorem finishMessage_relocated (a : Assembly Nesting) :
    (a.relocated place count package? messages).finishMessage.1 =
      a.finishMessage.1.relocated place count package? messages := by
  simp [finishMessage, relocated, Message.relocated, Message.blank]

theorem obey_relocated (a : Assembly Nesting) (signal : Signal) :
    ((a.relocated place count package? messages).obey signal).1 =
      (a.obey signal).1.relocated place count package? messages := by
  unfold obey
  simp only [takePackage_relocated]
  split
  · exact finishMessage_relocated _
  · rfl

theorem newIdFault?_relocated (known : Nat) (m : Message) :
    newIdFault? policy known (m.relocated place package?) = newIdFault? policy known m := by
  rw [newIdFault?, newIdFault?, Message.idFaultFrom?_relocated]

/-- A line of code does to the relocated assembly what it does to the assembly, if it stands where
its line goes. -/
theorem apply_relocated (hcount : a.lineCount ≠ 0) (hplace : place a.lineCount = count)
    (line : List Char) :
    ((a.relocated place count package? messages).apply grammar policy line).failure? =
        (a.apply grammar policy line).failure?.map (Failure.relocated place) ∧
      ((a.relocated place count package? messages).apply grammar policy line).next =
        (a.apply grammar policy line).next.relocated place count package? messages := by
  subst hplace
  by_cases hline : line = []
  · rw [apply, apply, if_pos hline, if_pos hline]
    exact ⟨rfl, rfl⟩
  · rw [apply_failure? hline, apply_failure? hline, apply_next, apply_next, advance, advance,
      if_neg hline, if_neg hline]
    generalize hb : a.relocated place (place a.lineCount) package? messages = b
    obtain ⟨hstate, hlines, hcurrent⟩ : b.state = a.state ∧ b.lineCount = place a.lineCount ∧
        b.current = a.current.relocated place package? := by
      subst hb
      exact ⟨rfl, rfl, rfl⟩
    rw [hstate, hlines, hcurrent]
    cases hstep : Grammar.step a.state line a.lineCount a.current with
    | error fault =>
      rw [Grammar.step_eq_error_congr Message.relocated_enums hstep]
      exact ⟨rfl, hb.symm⟩
    | ok accepted =>
      obtain ⟨accepted', hstep', hnesting, hsignal, hcurrent'⟩ :=
        Grammar.step_eq_ok_relocated hcount hstep place package?
      have hlength : (a.current.relocated place package?).fields.length =
          a.current.fields.length := List.length_map _
      rw [hstep']
      refine ⟨?_, ?_⟩
      · simp only [hlength, hcurrent', newIdFault?_relocated, Option.map_map]
        rfl
      · subst hb
        simp only [accept, hnesting, hsignal, hcurrent']
        rw [← obey_relocated]
        rfl

/-- The next line does to the relocated assembly what it does to the assembly, if it is the one to
which the next line goes. -/
theorem read_relocated (hplace : place (a.lineCount + 1) = count + 1) (line : List Char) :
    ((a.relocated place count package? messages).read grammar policy line).failure? =
        (a.read grammar policy line).failure?.map (Failure.relocated place) ∧
      ((a.relocated place count package? messages).read grammar policy line).next =
        (a.read grammar policy line).next.relocated place (count + 1) package? messages :=
  apply_relocated (a := a.atLine (a.lineCount + 1)) (Nat.succ_ne_zero _) hplace (code line)

/-! ## The end -/

/-- Messages from elsewhere change nothing about the end if their ids are distinct and if there are
none, or schemas without messages are accepted. -/
theorem endFault?_relocated (hnone : Message.firstIdFault? messages = none)
    (hempty : messages = [] ∨ policy.emptyInput = .accept) :
    (a.relocated place count package? messages).endFault? grammar policy =
      a.endFault? grammar policy := by
  have hmessages : ((a.relocated place count package? messages).finished = [] ∧
      policy.emptyInput = .reject) ↔ (a.finished = [] ∧ policy.emptyInput = .reject) := by
    rcases hempty with rfl | haccept
    · simp [relocated]
    · simp [haccept]
  have hids : Message.firstIdFault? (a.relocated place count package? messages).finished =
      Message.firstIdFault? a.finished := by
    rw [relocated, Message.firstIdFault?_append, hnone, Option.none_or,
      Message.firstIdFault?_relocated]
  simp only [endFault?, hmessages, hids]
  rfl

end Assembly

end ProtoSchema
