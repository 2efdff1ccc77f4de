import ProtoSchema.Proofs.ReportedIds

/-!
# Calls

An assembly may be used call by call. Each call gives it a line of text or a line of code, and the
next call is made on what this one left, whether or not it failed.

**The trace.** `calls` lists the calls of a run, each with the assembly that it is made on, so that
what the run comes to can be told from what its calls were answered.

**Signals.** `signal?` is the signal that a call obeys: the rules accepted the line and the search
for repeated ids did not stop the call.

Results:
* `feed_next`: what a call leaves, under any rules;
* `obey_eq`: what a signal means for an assembly whose current message is in the shared package.
-/
namespace ProtoSchema

namespace Assembly

/-- The line of code that a call applies. -/
def Input.line : Input → List Char
  | .text line => Text.code line
  | .code line => line

variable {σ : Type} {rules : LineRules σ} {policy : Policy}

/-- The assembly at the line of a call: a line of text is the next line. -/
def arrive (a : Assembly σ) : Input → Assembly σ
  | .text _ => a.atLine (a.lineCount + 1)
  | .code _ => a

/-- What the rules reply to the line of a call. -/
def reply (rules : LineRules σ) (a : Assembly σ) (input : Input) : Reply σ :=
  rules.apply a.state input.line (a.arrive input).lineCount a.current

/-- The assembly behind the reply, before any signal is obeyed. The rules are not asked about an
empty line. -/
def replied (rules : LineRules σ) (a : Assembly σ) (input : Input) : Assembly σ :=
  if input.line = [] then a.arrive input
  else
    { a.arrive input with
      state := (a.reply rules input).state, current := (a.reply rules input).current }

/-- The signal with which the rules accepted the line, if the call returned no failure. -/
def signal? (rules : LineRules σ) (policy : Policy) (a : Assembly σ) (input : Input) :
    Option Signal :=
  if input.line = [] ∨ (a.feed rules policy input).failure? ≠ none then none
  else (a.reply rules input).result.toOption

/-- The calls of a run, each with the assembly that it is made on. -/
def calls (rules : LineRules σ) (policy : Policy) (a : Assembly σ) :
    List Input → List (Assembly σ × Input)
  | [] => []
  | input :: inputs => (a, input) :: (a.feed rules policy input).next.calls rules policy inputs

theorem feed_eq (a : Assembly σ) (input : Input) :
    a.feed rules policy input = (a.arrive input).apply rules policy input.line := by
  cases input <;> rfl

@[simp]
theorem arrive_state (a : Assembly σ) (input : Input) : (a.arrive input).state = a.state := by
  cases input <;> rfl

@[simp]
theorem arrive_current (a : Assembly σ) (input : Input) : (a.arrive input).current = a.current := by
  cases input <;> rfl

@[simp]
theorem arrive_package? (a : Assembly σ) (input : Input) :
    (a.arrive input).package? = a.package? := by
  cases input <;> rfl

@[simp]
theorem arrive_finished (a : Assembly σ) (input : Input) :
    (a.arrive input).finished = a.finished := by
  cases input <;> rfl

@[simp]
theorem replied_package? (a : Assembly σ) (input : Input) :
    (a.replied rules input).package? = a.package? := by
  unfold replied
  split <;> exact a.arrive_package? input

@[simp]
theorem replied_finished (a : Assembly σ) (input : Input) :
    (a.replied rules input).finished = a.finished := by
  unfold replied
  split <;> exact a.arrive_finished input

/-- The reply to a line stands in any case; its signal is obeyed if the call returns no failure. -/
theorem feed_next (a : Assembly σ) (input : Input) :
    (a.feed rules policy input).next =
      ((a.replied rules input).obey ((a.signal? rules policy input).getD {})).1 := by
  by_cases hline : input.line = []
  · rw [replied, signal?, feed_eq, apply, if_pos hline, if_pos hline, if_pos (.inl hline)]
    rfl
  · rw [replied, signal?, feed_eq, apply, if_neg hline, if_neg hline]
    simp only [arrive_state, arrive_current, hline, false_or, reply]
    cases (rules.apply a.state input.line (a.arrive input).lineCount a.current).result with
    | error fault => rfl
    | ok signal =>
      simp only
      cases newIdFault? policy a.current.fields.length
          (rules.apply a.state input.line (a.arrive input).lineCount a.current).current <;> rfl

theorem take_feedAll (rules : LineRules σ) (a : Assembly σ) (inputs : List Input) (k : Nat) :
    (a.feedAll rules policy inputs).2.take k = (a.feedAll rules policy (inputs.take k)).2 := by
  induction inputs generalizing a k with
  | nil => simp [feedAll]
  | cons input inputs ih =>
    cases k with
    | zero => rfl
    | succ k => simp only [feedAll, List.take_succ_cons, ih]

/-- An assembly that keeps its current message in the shared package takes the package first, so
that the message that the same signal ends has it. -/
theorem obey_eq {a : Assembly σ} (h : a.current.package? = a.package?) (signal : Signal) :
    (a.obey signal).1 =
      let package? := a.package?.or signal.package?
      let current := { a.current with package? }
      if signal.closed then
        { a with current := .blank package?, package?, finished := a.finished ++ [current] }
      else { a with current, package? } := by
  rw [obey]
  simp only [takePackage_eq h]
  split <;> rfl

end Assembly

end ProtoSchema
