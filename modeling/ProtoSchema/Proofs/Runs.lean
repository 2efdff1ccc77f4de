import ProtoSchema.Compile
import ProtoSchema.Proofs.Clauses
import ProtoSchema.Proofs.RepeatedIds

/-!
# Assemblies line by line

What one line makes of an assembly, what it means for the ids read so far, and how `complete` goes
through the lines.

**One path for both policies.** Under the grammar the next state depends on the line alone
(`apply_next`): a field with a repeated id joins its message like any other field, and the policy
decides only whether its line fails.

**The invariant.** `Linked` ties the message under construction to the rest: it is in the shared
package, it is blank between two messages, and inside an enum it has one.

Results:
* `exists_of_mem_codeLines`, `exists_mem_codeLines`: where the lines of code come from;
* `apply_next`, `apply_failure?`, `apply_cases`: what a line of code does under the grammar;
* `Linked.advance`: every line keeps the invariant;
* `newIdFault?_whileReading`: the fault asked for while reading is the first one among all ids;
* `idFault?_advance_of_eq_some`: the first fault among the ids read so far stays the first;
* `endFault?_of_idFault?`, `endFault?_of_idFault?_eq_none`: what the end finds wrong;
* `complete_nil`, `complete_blank`, `complete_rejected`, `complete_repeated`, `complete_accepted`:
  `complete` line by line.
-/
namespace ProtoSchema

open Text

/-- The lines of code behind `n` lines, with their numbers: what each line holds in front of its
comment and its trailing blanks, unless that is nothing. -/
def codeLines (n : Nat) : List (List Char) → List (Nat × List Char)
  | [] => []
  | line :: lines =>
    if code line = [] then codeLines (n + 1) lines
    else (n + 1, code line) :: codeLines (n + 1) lines

theorem codeLines_append (n : Nat) (front behind : List (List Char)) :
    codeLines n (front ++ behind) = codeLines n front ++ codeLines (n + front.length) behind := by
  induction front generalizing n with
  | nil => rfl
  | cons line front ih =>
    rw [List.cons_append, codeLines, codeLines, ih, List.length_cons, Nat.add_assoc,
      Nat.add_comm 1]
    split <;> rfl

theorem exists_of_mem_codeLines {n : Nat} {lines : List (List Char)} {entry : Nat × List Char}
    (h : entry ∈ codeLines n lines) :
    ∃ i line, lines[i]? = some line ∧ entry = (n + i + 1, code line) := by
  induction lines generalizing n with
  | nil => cases h
  | cons line lines ih =>
    have hrest : entry ∈ codeLines (n + 1) lines →
        ∃ i line', (line :: lines)[i]? = some line' ∧ entry = (n + i + 1, code line') := by
      intro hentry
      obtain ⟨i, line', hline', rfl⟩ := ih hentry
      exact ⟨i + 1, line', hline', by rw [Nat.add_right_comm n 1 i]; rfl⟩
    rw [codeLines] at h
    split at h
    · exact hrest h
    · rcases List.mem_cons.1 h with rfl | h
      · exact ⟨0, line, rfl, rfl⟩
      · exact hrest h

theorem ne_nil_of_mem_codeLines {n : Nat} {lines : List (List Char)} {entry : Nat × List Char}
    (h : entry ∈ codeLines n lines) : entry.2 ≠ [] := by
  induction lines generalizing n with
  | nil => cases h
  | cons line lines ih =>
    rw [codeLines] at h
    split at h
    · exact ih h
    · next hline =>
      rcases List.mem_cons.1 h with rfl | h
      · exact hline
      · exact ih h

theorem exists_mem_codeLines {lines : List (List Char)} {line : List Char} (hmem : line ∈ lines)
    (hline : code line ≠ []) (n : Nat) : ∃ k, (k, code line) ∈ codeLines n lines := by
  induction lines generalizing n with
  | nil => cases hmem
  | cons first lines ih =>
    rw [codeLines]
    rcases List.mem_cons.1 hmem with rfl | hmem
    · rw [if_neg hline]
      exact ⟨n + 1, List.mem_cons_self⟩
    · obtain ⟨k, hk⟩ := ih hmem (n + 1)
      refine ⟨k, ?_⟩
      split
      · exact hk
      · exact List.mem_cons_of_mem _ hk

namespace Assembly

/-! ## Steps of a run -/

section Steps

variable {σ : Type} {rules : LineRules σ} {policy : Policy} {a : Assembly σ}

/-- The same assembly at this line. -/
def atLine (a : Assembly σ) (n : Nat) : Assembly σ :=
  { a with lineCount := n }

/-- Each input is a line of code at some line. -/
theorem feed_eq_apply (a : Assembly σ) (input : Input) :
    ∃ n line, a.feed rules policy input = (a.atLine n).apply rules policy line := by
  cases input with
  | text line => exact ⟨a.lineCount + 1, Text.code line, rfl⟩
  | code line => exact ⟨a.lineCount, line, rfl⟩

theorem finish_of_endFault? {fault : Fault} (h : a.endFault? rules policy = some fault) :
    (a.finish rules policy).result = .error ⟨a.lineNumber, fault⟩ := by
  unfold finish
  rw [h]

theorem finish_of_endFault?_eq_none (h : a.endFault? rules policy = none) :
    (a.finish rules policy).result = .ok a.finished := by
  unfold finish
  rw [h]

theorem obey_lineCount (a : Assembly σ) (signal : Signal) :
    (a.obey signal).1.lineCount = a.lineCount := by
  simp only [obey, takePackage, finishMessage]
  split <;> split <;> rfl

theorem complete_nil : (a.complete rules policy []).result = (a.finish rules policy).result := rfl

theorem complete_cons (line : List Char) (lines : List (Option (List Char))) :
    (a.complete rules policy (some line :: lines)).result =
      match (a.read rules policy line).failure? with
      | some failure => .error failure
      | none => ((a.read rules policy line).next.complete rules policy lines).result := by
  simp only [complete, readAll]
  cases hfailure : (a.read rules policy line).failure? with
  | some failure => simp only [hfailure]
  | none =>
    simp only [Step.after]
    cases (readAll rules policy (a.read rules policy line).next lines).failure? <;> rfl

end Steps

/-! ## Ids read so far -/

section Ids

variable {σ : Type} {a : Assembly σ}

/-- The fault of the first repeated id in the finished messages and the one under construction. -/
def idFault? (a : Assembly σ) : Option Fault :=
  Message.firstIdFault? (a.finished ++ [a.current])

theorem idFault?_eq_or (a : Assembly σ) :
    a.idFault? = (Message.firstIdFault? a.finished).or a.current.idFault? := by
  rw [idFault?, Message.firstIdFault?_append, Message.firstIdFault?_singleton]

theorem takePackage_idFault? (a : Assembly σ) (package? : Option String) :
    (a.takePackage package?).1.idFault? = a.idFault? := by
  unfold takePackage
  split
  · rfl
  · rw [idFault?_eq_or, idFault?_eq_or]
    rfl
  · rfl

theorem finishMessage_idFault? (a : Assembly σ) : a.finishMessage.1.idFault? = a.idFault? := by
  have hblank : (Message.blank a.package?).idFault? = none := rfl
  rw [idFault?_eq_or, finishMessage, hblank, Option.or_none]
  rfl

/-- What an accepted line means for the messages as a whole adds no field. -/
theorem obey_idFault? (a : Assembly σ) (signal : Signal) :
    (a.obey signal).1.idFault? = a.idFault? := by
  unfold obey
  simp only
  split
  · rw [finishMessage_idFault?, takePackage_idFault?]
  · exact takePackage_idFault? a signal.package?

theorem newIdFault?_of_length {policy : Policy} {known : Nat} {m : Message}
    (h : m.fields.length = known) : newIdFault? policy known m = none := by
  unfold newIdFault? Message.idFaultFrom?
  rw [h, Nat.sub_self]
  cases policy.idCheck <;> rfl

theorem isRepeatedId_of_newIdFault? {policy : Policy} {known : Nat} {m : Message} {fault : Fault}
    (h : newIdFault? policy known m = some fault) :
    policy.idCheck = .whileReading ∧ fault.IsRepeatedId := by
  unfold newIdFault? at h
  cases hpolicy : policy.idCheck with
  | atEnd =>
    rw [hpolicy] at h
    cases h
  | whileReading =>
    rw [hpolicy] at h
    obtain ⟨index, _, hindex⟩ := List.exists_of_findSome?_eq_some h
    obtain ⟨f, _, rfl⟩ := Option.map_eq_some_iff.1 hindex
    exact ⟨rfl, _, _, _, rfl⟩

end Ids

/-! ## Lines under the grammar -/

variable {a : Assembly Nesting}

/-- The assembly behind an accepted line. -/
def accept (a : Assembly Nesting) (accepted : Grammar.Accepted) : Assembly Nesting :=
  ({ a with state := accepted.nesting, current := accepted.current }.obey accepted.signal).1

/-- The assembly behind a line of code, accepted or not. -/
def advance (a : Assembly Nesting) (line : List Char) : Assembly Nesting :=
  if line = [] then a
  else
    match Grammar.step a.state line a.lineCount a.current with
    | .ok accepted => a.accept accepted
    | .error _ => a

end Assembly

namespace Grammar.Takes

variable {n : Nat} {nesting : Nesting} {m : Message} {clause : Clause} {accepted : Accepted}

theorem fields_isPrefix (h : Takes n nesting m clause accepted) :
    m.fields <+: accepted.current.fields := by
  cases h with
  | field => exact List.prefix_append _ _
  | messageStart | messageEnd | enumStart | enumEnd | enumValue | package | option =>
    exact List.prefix_refl _

/-- A line either adds no field or means nothing else. -/
theorem fields_or_signal (h : Takes n nesting m clause accepted) :
    accepted.current.fields = m.fields ∨ accepted.signal = {} := by
  cases h with
  | field => exact .inr rfl
  | messageStart | messageEnd | enumStart | enumEnd | enumValue | package | option => exact .inl rfl

theorem package_eq (h : Takes n nesting m clause accepted) :
    accepted.current.package? = m.package? := by
  cases h <;> rfl

theorem name_eq (h : Takes n nesting m clause accepted) (hnesting : nesting ≠ .topLevel) :
    accepted.current.name = m.name := by
  cases h with
  | messageStart => exact absurd rfl hnesting
  | messageEnd | enumStart | enumEnd | field | enumValue | package | option => rfl

theorem current_of_topLevel (h : Takes n nesting m clause accepted)
    (hopen : accepted.signal.closed = false) (htop : accepted.nesting = .topLevel) :
    nesting = .topLevel ∧ accepted.current = m := by
  cases h with
  | messageStart | enumStart | enumEnd | field | enumValue => cases htop
  | messageEnd => cases hopen
  | package | option => exact ⟨htop, rfl⟩

theorem enums_ne_nil (h : Takes n nesting m clause accepted) (henum : accepted.nesting = .inEnum) :
    accepted.current.enums ≠ [] := by
  cases h with
  | messageStart | messageEnd | enumEnd | field => cases henum
  | enumStart | enumValue => simp
  | package hnesting | option hnesting => exact absurd henum hnesting

/-- Only the end of a message ends it, and it changes nothing else. -/
theorem of_closed (h : Takes n nesting m clause accepted)
    (hclosed : accepted.signal.closed = true) :
    accepted.nesting = .topLevel ∧ accepted.current = m ∧ accepted.signal.package? = none := by
  cases h with
  | messageEnd => exact ⟨rfl, rfl, rfl⟩
  | messageStart | enumStart | enumEnd | field | enumValue | package | option => cases hclosed

end Grammar.Takes

theorem Grammar.not_isRepeatedId_of_step_eq_error {nesting : Nesting} {line : List Char} {n : Nat}
    {m : Message} {fault : Fault} (h : step nesting line n m = .error fault) :
    ¬ fault.IsRepeatedId := by
  intro ⟨message, field, id, hrepeated⟩
  obtain ⟨shown, reason, hfault⟩ := step_eq_error h
  rw [hfault] at hrepeated
  cases hrepeated

namespace Assembly

variable {a : Assembly Nesting} {policy : Policy} {line : List Char} {clause : Clause}
  {accepted : Grammar.Accepted}

theorem accept_idFault? (a : Assembly Nesting) (accepted : Grammar.Accepted) :
    (a.accept accepted).idFault? =
      (Message.firstIdFault? a.finished).or accepted.current.idFault? := by
  rw [accept, obey_idFault?, idFault?_eq_or]

theorem accept_of_signal (h : accepted.signal = {}) :
    a.accept accepted = { a with state := accepted.nesting, current := accepted.current } := by
  rw [accept, h]
  rfl

/-- What a line of code fails with: the fault of the grammar, or the one that the policy asks
for. -/
theorem apply_failure? (hline : line ≠ []) :
    (a.apply grammar policy line).failure? =
      match Grammar.step a.state line a.lineCount a.current with
      | .ok accepted =>
        (newIdFault? policy a.current.fields.length accepted.current).map (⟨a.lineCount, ·⟩)
      | .error fault => some ⟨a.lineCount, fault⟩ := by
  simp only [apply, grammar, if_neg hline]
  cases Grammar.step a.state line a.lineCount a.current with
  | error fault => rfl
  | ok accepted =>
    simp only
    cases newIdFault? policy a.current.fields.length accepted.current <;> rfl

theorem advance_of_step_eq_ok (hline : line ≠ [])
    (hstep : Grammar.step a.state line a.lineCount a.current = .ok accepted) :
    a.advance line = a.accept accepted := by
  rw [advance, if_neg hline, hstep]

theorem apply_next : (a.apply grammar policy line).next = a.advance line := by
  unfold apply advance
  split
  · rfl
  · simp only [grammar]
    cases hstep : Grammar.step a.state line a.lineCount a.current with
    | error fault => rfl
    | ok accepted =>
      simp only
      obtain ⟨clause, _, htakes⟩ := Grammar.step_eq_ok.1 hstep
      cases hnew : newIdFault? policy a.current.fields.length accepted.current with
      | none => rfl
      | some fault =>
        -- Only a further field has a fault, and a line with a field means nothing else.
        rcases htakes.fields_or_signal with hfields | hsignal
        · rw [newIdFault?_of_length (by rw [hfields])] at hnew
          cases hnew
        · rw [accept_of_signal hsignal]

/-- A line of code is empty, or it is rejected, or it takes a clause; then it fails only if the
policy asks for a repeated id and finds one. -/
theorem apply_cases (policy : Policy) (a : Assembly Nesting) (line : List Char) :
    (line = [] ∧ (a.apply grammar policy line).failure? = none ∧
      (a.apply grammar policy line).next = a) ∨
    (line ≠ [] ∧ ∃ shown reason,
      (a.apply grammar policy line).failure? =
        some ⟨a.lineCount, .unrecognizedLine shown reason⟩ ∧
      (a.apply grammar policy line).next = a) ∨
    (line ≠ [] ∧ ∃ clause accepted, Says (a.lineCount, line) clause ∧
      Grammar.Takes a.lineCount a.state a.current clause accepted ∧
      (a.apply grammar policy line).failure? =
        (newIdFault? policy a.current.fields.length accepted.current).map (⟨a.lineCount, ·⟩) ∧
      (a.apply grammar policy line).next = a.accept accepted) := by
  by_cases hline : line = []
  · rw [apply, if_pos hline]
    exact .inl ⟨hline, rfl, rfl⟩
  · rw [apply_failure? hline, apply_next, advance, if_neg hline]
    cases hstep : Grammar.step a.state line a.lineCount a.current with
    | error fault =>
      obtain ⟨shown, reason, rfl⟩ := Grammar.step_eq_error hstep
      exact .inr (.inl ⟨hline, shown, reason, rfl, rfl⟩)
    | ok accepted =>
      obtain ⟨clause, hsays, htakes⟩ := Grammar.step_eq_ok.1 hstep
      exact .inr (.inr ⟨hline, clause, accepted, hsays, htakes, rfl, rfl⟩)

@[simp]
theorem accept_lineCount (a : Assembly Nesting) (accepted : Grammar.Accepted) :
    (a.accept accepted).lineCount = a.lineCount :=
  obey_lineCount _ accepted.signal

@[simp]
theorem advance_lineCount (a : Assembly Nesting) (line : List Char) :
    (a.advance line).lineCount = a.lineCount := by
  unfold advance
  split
  · rfl
  · split
    · exact a.accept_lineCount _
    · rfl

/-! ## The invariant -/

/-- How the message under construction depends on the rest. -/
structure Linked (a : Assembly Nesting) : Prop where
  package : a.current.package? = a.package?
  blank : a.state = .topLevel → a.current = .blank a.package?
  enums : a.state = .inEnum → a.current.enums ≠ []

theorem linked_start : start.Linked :=
  ⟨rfl, fun _ => rfl, nofun⟩

theorem Linked.atLine (h : a.Linked) (n : Nat) : (a.atLine n).Linked :=
  ⟨h.package, h.blank, h.enums⟩

theorem takePackage_eq {σ : Type} {a : Assembly σ} (h : a.current.package? = a.package?)
    (package? : Option String) :
    (a.takePackage package?).1 =
      { a with
        current := { a.current with package? := a.package?.or package? }
        package? := a.package?.or package? } := by
  obtain ⟨state, lineCount, ⟨name, currentPackage?, line, fields, enums⟩, assemblyPackage?,
    finished⟩ := a
  obtain rfl : currentPackage? = assemblyPackage? := h
  cases package? <;> cases currentPackage? <;> rfl

/-- A line that ends no message may still declare the package. -/
theorem Linked.accept_eq (h : a.Linked)
    (htakes : Grammar.Takes a.lineCount a.state a.current clause accepted)
    (hopen : accepted.signal.closed = false) :
    a.accept accepted =
      { a with
        state := accepted.nesting
        current :=
          { accepted.current with package? := a.package?.or accepted.signal.package? }
        package? := a.package?.or accepted.signal.package? } := by
  have hpackage : accepted.current.package? = a.package? := htakes.package_eq.trans h.package
  rw [Assembly.accept, obey]
  simp only [hopen, Bool.false_eq_true, if_false]
  rw [takePackage_eq hpackage]

/-- The end of a message makes room for the next one, in the same package. -/
theorem accept_eq_of_closed
    (htakes : Grammar.Takes a.lineCount a.state a.current clause accepted)
    (hclosed : accepted.signal.closed = true) :
    a.accept accepted =
      { a with
        state := .topLevel
        current := .blank a.package?
        finished := a.finished ++ [a.current] } := by
  obtain ⟨hnesting, hcurrent, hpackage⟩ := htakes.of_closed hclosed
  rw [Assembly.accept, obey]
  simp only [hclosed, hpackage, hnesting, hcurrent, if_true]
  rfl

theorem Linked.accept_state (h : a.Linked)
    (htakes : Grammar.Takes a.lineCount a.state a.current clause accepted) :
    (a.accept accepted).state = accepted.nesting := by
  cases hclosed : accepted.signal.closed with
  | true => rw [accept_eq_of_closed htakes hclosed, (htakes.of_closed hclosed).1]
  | false => rw [h.accept_eq htakes hclosed]

theorem Linked.accept_package? (h : a.Linked)
    (htakes : Grammar.Takes a.lineCount a.state a.current clause accepted) :
    (a.accept accepted).package? = a.package?.or accepted.signal.package? := by
  cases hclosed : accepted.signal.closed with
  | true =>
    rw [accept_eq_of_closed htakes hclosed, (htakes.of_closed hclosed).2.2, Option.or_none]
  | false => rw [h.accept_eq htakes hclosed]

theorem Linked.accept (h : a.Linked)
    (htakes : Grammar.Takes a.lineCount a.state a.current clause accepted) :
    (a.accept accepted).Linked := by
  cases hclosed : accepted.signal.closed with
  | true =>
    rw [accept_eq_of_closed htakes hclosed]
    exact ⟨rfl, fun _ => rfl, nofun⟩
  | false =>
    rw [h.accept_eq htakes hclosed]
    refine ⟨rfl, fun htop => ?_, htakes.enums_ne_nil⟩
    obtain ⟨hstate, hcurrent⟩ := htakes.current_of_topLevel hclosed htop
    simp only [hcurrent, h.blank hstate]
    rfl

theorem Linked.advance (h : a.Linked) (line : List Char) : (a.advance line).Linked := by
  unfold Assembly.advance
  split
  · exact h
  · split
    · next hstep =>
      obtain ⟨clause, _, htakes⟩ := Grammar.step_eq_ok.1 hstep
      exact h.accept htakes
    · exact h

/-! ## Repeated ids under the grammar -/

theorem current_idFault?_of_eq_none (h : a.idFault? = none) :
    Message.firstIdFault? a.finished = none ∧ (a.current.fields.map (·.id)).Nodup := by
  rw [idFault?_eq_or, Option.or_eq_none_iff, Message.idFault?_eq_none] at h
  exact h

/-- While ids are distinct, the fault that is asked for while reading is the first one of the next
assembly. -/
theorem newIdFault?_whileReading (hpolicy : policy.idCheck = .whileReading)
    (hnone : a.idFault? = none)
    (htakes : Grammar.Takes a.lineCount a.state a.current clause accepted) :
    newIdFault? policy a.current.fields.length accepted.current = (a.accept accepted).idFault? := by
  obtain ⟨hfinished, hcurrent⟩ := current_idFault?_of_eq_none hnone
  obtain ⟨more, hmore⟩ := htakes.fields_isPrefix
  rw [accept_idFault?, hfinished, Option.none_or, newIdFault?, hpolicy]
  exact Message.idFaultFrom?_eq_idFault? hmore.symm hcurrent

theorem newIdFault?_atEnd (hpolicy : policy.idCheck = .atEnd) (known : Nat) (m : Message) :
    newIdFault? policy known m = none := by
  rw [newIdFault?, hpolicy]

theorem idFault?_advance_of_eq_some (h : a.Linked) {fault : Fault}
    (hfault : a.idFault? = some fault) (line : List Char) :
    (a.advance line).idFault? = some fault := by
  unfold advance
  split
  · exact hfault
  · split
    · next accepted hstep =>
      obtain ⟨clause, _, htakes⟩ := Grammar.step_eq_ok.1 hstep
      rw [accept_idFault?]
      rw [idFault?_eq_or] at hfault
      cases hfinished : Message.firstIdFault? a.finished with
      | some first =>
        rw [hfinished] at hfault
        exact hfault
      | none =>
        rw [hfinished, Option.none_or] at hfault
        rw [Option.none_or]
        -- The blank message between two messages has no fault, so its fields cannot be the cause.
        have hnesting : a.state ≠ .topLevel := by
          intro htop
          rw [h.blank htop] at hfault
          cases hfault
        exact Message.idFault?_of_isPrefix (htakes.name_eq hnesting).symm htakes.fields_isPrefix
          hfault
    · exact hfault

/-! ## The end of the schema -/

/-- With a repeated id the end always finds something wrong: an open block, or else that id. -/
theorem endFault?_of_idFault? (h : a.Linked) {fault : Fault} (hfault : a.idFault? = some fault) :
    a.endFault? grammar policy =
      some (if a.state = .topLevel then fault else .unclosedMessage) := by
  by_cases htop : a.state = .topLevel
  · have hfinished : Message.firstIdFault? a.finished = some fault := by
      rw [idFault?_eq_or, h.blank htop] at hfault
      simpa [Message.blank, Message.idFault?, firstRepeat?] using hfault
    have hne : a.finished ≠ [] := by
      intro hnil
      rw [hnil] at hfinished
      cases hfinished
    simp [endFault?, grammar, htop, hne, hfinished]
  · simp [endFault?, grammar, htop]

theorem endFault?_of_idFault?_eq_none {σ : Type} {rules : LineRules σ} {a : Assembly σ}
    (hnone : a.idFault? = none) :
    a.endFault? rules policy =
      if !rules.isClosed a.state then some .unclosedMessage
      else if a.finished = [] ∧ policy.emptyInput = .reject then some .noMessages
      else none := by
  rw [idFault?_eq_or, Option.or_eq_none_iff] at hnone
  rw [endFault?, hnone.1]

theorem finish_of_idFault?_eq_none {σ : Type} {rules : LineRules σ} {a : Assembly σ}
    (hnone : a.idFault? = none) {failure : Failure}
    (h : (a.finish rules policy).result = .error failure) : ¬ failure.fault.IsRepeatedId := by
  intro ⟨message, field, id, hfault⟩
  cases hend : a.endFault? rules policy with
  | none =>
    rw [finish_of_endFault?_eq_none hend] at h
    cases h
  | some fault =>
    rw [finish_of_endFault? hend] at h
    cases h
    rw [endFault?_of_idFault?_eq_none hnone] at hend
    simp only at hfault
    subst hfault
    split at hend
    · cases hend
    · split at hend <;> cases hend

/-! ## Line by line -/

section Lines

variable {line : List Char} {lines : List (Option (List Char))} {fault : Fault}

theorem complete_blank (hline : code line = []) :
    (a.complete grammar policy (some line :: lines)).result =
      ((a.atLine (a.lineCount + 1)).complete grammar policy lines).result := by
  rw [complete_cons, read, hline]
  rfl

theorem complete_rejected (hline : code line ≠ [])
    (hstep : Grammar.step a.state (code line) (a.lineCount + 1) a.current = .error fault) :
    (a.complete grammar policy (some line :: lines)).result =
      .error ⟨a.lineCount + 1, fault⟩ := by
  rw [complete_cons, read, apply_failure? hline, hstep]

theorem complete_repeated (hline : code line ≠ [])
    (hstep : Grammar.step a.state (code line) (a.lineCount + 1) a.current = .ok accepted)
    (hnew : newIdFault? policy a.current.fields.length accepted.current = some fault) :
    (a.complete grammar policy (some line :: lines)).result =
      .error ⟨a.lineCount + 1, fault⟩ := by
  rw [complete_cons, read, apply_failure? hline, hstep]
  simp only [hnew, Option.map_some]

theorem complete_accepted (hline : code line ≠ [])
    (hstep : Grammar.step a.state (code line) (a.lineCount + 1) a.current = .ok accepted)
    (hnew : newIdFault? policy a.current.fields.length accepted.current = none) :
    (a.complete grammar policy (some line :: lines)).result =
      (((a.atLine (a.lineCount + 1)).accept accepted).complete grammar policy lines).result := by
  have hadvance := advance_of_step_eq_ok (a := a.atLine (a.lineCount + 1)) hline hstep
  rw [complete_cons, read, apply_failure? hline, hstep]
  simp only [hnew, Option.map_none]
  rw [apply_next]
  exact congrArg (fun b => (complete grammar policy b lines).result) hadvance

end Lines

end Assembly

end ProtoSchema
