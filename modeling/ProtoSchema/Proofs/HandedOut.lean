import ProtoSchema.LineRules.Replay
import ProtoSchema.Proofs.FirstLines

/-!
# Messages that are handed out

What an assembly guarantees whatever its line rules do. They may rename the message under
construction, add fields to it and take fields away, and they may signal anything on any line.

**What a line ends.** `ended?` is the message that a line ends, as the rules leave it on that line
and with the package that the same line brings. As long as no call fails, the finished messages are
the ones that the lines ended, in their order (`finished_feedAll`), so no later line changes them.

**Repeated ids.** Rules that take fields away can hide a repeated id from the search while reading,
which only looks at the fields behind those that were there before. The search at the end goes
through all of them, under each policy.

Results:
* `finished_feed_of_ended?`, `current_feed_of_ended?`: what a call that does not fail finishes, and
  what it leaves to the next one;
* `finished_feedAll`: the finished messages are those that the lines ended;
* `apply_idCheck`, `complete_idCheck`: the two searches for repeated ids side by side;
* `messages_of_complete`: all of it, for each text and under all rules.
-/
namespace ProtoSchema

open Text

namespace Assembly

variable {σ : Type} {rules : LineRules σ} {policy : Policy} {a : Assembly σ} {input : Input}

/-- The signal with which the rules answer the line of a call. They are not asked about an empty
line. -/
def answer? (rules : LineRules σ) (a : Assembly σ) (input : Input) : Option Signal :=
  if input.line = [] then none else (a.reply rules input).result.toOption

/-- The message that the line of a call ends: the message under construction as the rules leave it
on that line, with the package that the same line brings. -/
def ended? (rules : LineRules σ) (a : Assembly σ) (input : Input) : Option Message :=
  ((a.answer? rules input).filter (·.closed)).map fun signal =>
    ((a.replied rules input).takePackage signal.package?).1.current

/-! ## One call -/

theorem takePackage_finished (a : Assembly σ) (package? : Option String) :
    (a.takePackage package?).1.finished = a.finished := by
  unfold takePackage
  split <;> rfl

/-- What a signal means for an assembly, wherever its current message has its package from. -/
theorem obey_closed (a : Assembly σ) {signal : Signal} (h : signal.closed = true) :
    (a.obey signal).1 = (a.takePackage signal.package?).1.finishMessage.1 := by
  simp only [obey, h, if_true]

theorem obey_open (a : Assembly σ) {signal : Signal} (h : signal.closed = false) :
    (a.obey signal).1 = (a.takePackage signal.package?).1 := by
  simp only [obey, h, Bool.false_eq_true, if_false]

theorem feed_next_of_answer? (h : (a.feed rules policy input).failure? = none) :
    (a.feed rules policy input).next =
      ((a.replied rules input).obey ((a.answer? rules input).getD {})).1 := by
  have hsignal : a.signal? rules policy input = a.answer? rules input := by
    simp only [signal?, answer?, h, ne_eq, not_true_eq_false, or_false]
  rw [feed_next, hsignal]

theorem finished_feed_of_ended? (h : (a.feed rules policy input).failure? = none) :
    (a.feed rules policy input).next.finished =
      a.finished ++ (a.ended? rules input).toList := by
  rw [feed_next_of_answer? h, ended?]
  cases a.answer? rules input with
  | none => simp [obey_open, takePackage_finished]
  | some signal =>
    cases hclosed : signal.closed with
    | true => simp [obey_closed, hclosed, finishMessage, takePackage_finished, Option.filter]
    | false => simp [obey_open, hclosed, takePackage_finished, Option.filter]

theorem current_feed_of_ended? (h : (a.feed rules policy input).failure? = none)
    (hended : a.ended? rules input ≠ none) :
    (a.feed rules policy input).next.current =
      .blank (a.feed rules policy input).next.package? := by
  rw [feed_next_of_answer? h]
  unfold ended? at hended
  cases hanswer : a.answer? rules input with
  | none => simp [hanswer] at hended
  | some signal =>
    cases hclosed : signal.closed with
    | true => simp [obey_closed, hclosed, finishMessage]
    | false => simp [hanswer, hclosed, Option.filter] at hended

/-! ## Runs -/

theorem calls_take (rules : LineRules σ) (policy : Policy) (a : Assembly σ) (inputs : List Input)
    (k : Nat) : a.calls rules policy (inputs.take k) = (a.calls rules policy inputs).take k := by
  induction inputs generalizing a k with
  | nil => simp [calls]
  | cons input inputs ih =>
    cases k with
    | zero => rfl
    | succ k => simp only [calls, List.take_succ_cons, ih]

/-- As long as no call fails, the finished messages are those that the lines ended. -/
theorem finished_feedAll {inputs : List Input}
    (h : ∀ outcome ∈ (a.feedAll rules policy inputs).2, outcome = none) :
    (a.feedAll rules policy inputs).1.finished =
      a.finished ++
        (a.calls rules policy inputs).filterMap fun call => call.1.ended? rules call.2 := by
  induction inputs generalizing a with
  | nil => exact (List.append_nil _).symm
  | cons input inputs ih =>
    obtain ⟨hcall, hrest⟩ := List.forall_mem_cons.1 h
    rw [feedAll, ih hrest, finished_feed_of_ended? hcall, calls, List.filterMap_cons,
      List.append_assoc]
    cases a.ended? rules input <;> rfl

theorem current_feedAll_of_ended? {inputs : List Input}
    (h : ∀ outcome ∈ (a.feedAll rules policy inputs).2, outcome = none) {k : Nat}
    {call : Assembly σ × Input} (hcall : (a.calls rules policy inputs)[k]? = some call)
    (hended : call.1.ended? rules call.2 ≠ none) :
    (a.feedAll rules policy (inputs.take (k + 1))).1.current =
      .blank (a.feedAll rules policy (inputs.take (k + 1))).1.package? := by
  induction inputs generalizing a k with
  | nil => cases hcall
  | cons input inputs ih =>
    obtain ⟨hfirst, hrest⟩ := List.forall_mem_cons.1 h
    cases k with
    | zero =>
      obtain rfl : (a, input) = call := Option.some.inj hcall
      exact current_feed_of_ended? hfirst hended
    | succ k => exact ih hrest hcall

/-! ## Two searches -/

/-- The search while reading stops a line that repeats an id. Otherwise the line does the same under
each policy. -/
theorem apply_idCheck (rules : LineRules σ) (emptyInput : EmptyInput) (a : Assembly σ)
    (line : List Char) :
    a.apply rules ⟨.whileReading, emptyInput⟩ line = a.apply rules ⟨.atEnd, emptyInput⟩ line ∨
      ∃ failure, (a.apply rules ⟨.whileReading, emptyInput⟩ line).failure? = some failure ∧
        failure.fault.IsRepeatedId := by
  have hlate (known : Nat) (m : Message) :
      newIdFault? ⟨.atEnd, emptyInput⟩ known m = none := newIdFault?_atEnd rfl known m
  unfold apply
  split
  · exact .inl rfl
  · simp only
    cases (rules.apply a.state line a.lineCount a.current).result with
    | error fault => exact .inl rfl
    | ok signal =>
      simp only [hlate]
      cases hnew : newIdFault? ⟨.whileReading, emptyInput⟩ a.current.fields.length
          (rules.apply a.state line a.lineCount a.current).current with
      | none => exact .inl rfl
      | some fault => exact .inr ⟨_, rfl, (isRepeatedId_of_newIdFault? hnew).2⟩

/-- The search while reading comes to what the search at the end comes to, or to a repeated id. -/
theorem complete_idCheck (rules : LineRules σ) (emptyInput : EmptyInput) (a : Assembly σ)
    (lines : List (Option (List Char))) :
    (a.complete rules ⟨.whileReading, emptyInput⟩ lines).result =
        (a.complete rules ⟨.atEnd, emptyInput⟩ lines).result ∨
      ∃ failure, (a.complete rules ⟨.whileReading, emptyInput⟩ lines).result = .error failure ∧
        failure.fault.IsRepeatedId := by
  induction lines generalizing a with
  | nil => exact .inl rfl
  | cons line lines ih =>
    cases line with
    | none => exact .inl rfl
    | some line =>
      rw [complete_cons, complete_cons]
      rcases apply_idCheck rules emptyInput (a.atLine (a.lineCount + 1)) (code line) with
        heq | ⟨failure, hfailure, hrepeated⟩
      · have hread : a.read rules ⟨.whileReading, emptyInput⟩ line =
            a.read rules ⟨.atEnd, emptyInput⟩ line := heq
        rw [hread]
        cases (a.read rules ⟨.atEnd, emptyInput⟩ line).failure? with
        | some failure => exact .inl rfl
        | none => exact ih _
      · have hread : (a.read rules ⟨.whileReading, emptyInput⟩ line).failure? = some failure :=
          hfailure
        rw [hread]
        exact .inr ⟨failure, rfl, hrepeated⟩

theorem firstIdFault?_of_endFault?_eq_none (h : a.endFault? rules policy = none) :
    Message.firstIdFault? a.finished = none := by
  unfold endFault? at h
  split at h
  · cases h
  · split at h
    · cases h
    · exact h

/-! ## Texts -/

/-- Under all rules and each policy, a text that is accepted gives the messages that its lines
ended, in their order: each as the rules left it on the line that ended it, with the package that
was declared by then. Behind each line the finished messages are the ones ended up to there, so
later lines do not change them, and behind a line that ended one the next message is blank but for
the package. The ids of each message are distinct. The search for repeated ids while reading comes
to what the search at the end comes to, or it reports a repeated id; so what it accepts, the other
accepts as well. -/
theorem messages_of_complete {σ : Type} (rules : LineRules σ) (state : σ) (emptyInput : EmptyInput)
    (text : String) :
    let a : Assembly σ := { state }
    let result (idCheck : IdCheck) :=
      (a.complete rules ⟨idCheck, emptyInput⟩ (sourceLines text.toList)).result
    (∀ idCheck messages, result idCheck = .ok messages →
      let inputs := (textLines text.toList).map Input.text
      let calls := a.calls rules ⟨idCheck, emptyInput⟩ inputs
      let behind (k : Nat) := (a.feedAll rules ⟨idCheck, emptyInput⟩ (inputs.take k)).1
      messages = calls.filterMap (fun call => call.1.ended? rules call.2) ∧
      (∀ k, (behind k).finished =
        (calls.take k).filterMap fun call => call.1.ended? rules call.2) ∧
      (∀ k call, calls[k]? = some call → call.1.ended? rules call.2 ≠ none →
        (behind (k + 1)).current = .blank (behind (k + 1)).package?) ∧
      ∀ m ∈ messages, (m.fields.map (·.id)).Nodup) ∧
    (result .whileReading = result .atEnd ∨
      ∃ failure, result .whileReading = .error failure ∧ failure.fault.IsRepeatedId) ∧
    ∀ messages, result .whileReading = .ok messages → result .atEnd = .ok messages := by
  intro a result
  have hsearches : result .whileReading = result .atEnd ∨
      ∃ failure, result .whileReading = .error failure ∧ failure.fault.IsRepeatedId :=
    complete_idCheck rules emptyInput a (sourceLines text.toList)
  refine ⟨fun idCheck messages hresult => ?_, hsearches, fun messages hresult => ?_⟩
  · intro inputs calls behind
    obtain ⟨hread, hend, hfinished⟩ := complete_eq_ok.1 hresult
    obtain ⟨hnext, houtcomes⟩ := readAll_eq_feedAll hread
    have hfront : ∀ k, ∀ outcome ∈
        (a.feedAll rules ⟨idCheck, emptyInput⟩ (inputs.take k)).2, outcome = none := by
      intro k outcome hmem
      rw [← take_feedAll] at hmem
      exact houtcomes outcome (List.mem_of_mem_take hmem)
    have hbehind : ∀ k, (behind k).finished =
        (calls.take k).filterMap fun call => call.1.ended? rules call.2 := by
      intro k
      rw [← calls_take]
      exact finished_feedAll (hfront k)
    refine ⟨?_, hbehind, fun k call hcall hended => ?_, ?_⟩
    · rw [← hfinished, sourceLines, hnext]
      exact finished_feedAll houtcomes
    · exact current_feedAll_of_ended? houtcomes hcall hended
    · rw [← hfinished]
      exact Message.firstIdFault?_eq_none.1 (firstIdFault?_of_endFault?_eq_none hend)
  · rcases hsearches with heq | ⟨failure, hfailure, _⟩
    · rw [← heq, hresult]
    · exact absurd (hresult.symm.trans hfailure) nofun

/-- A field that is taken away again on the line that ends the message and brings a package, and a
message that is ended by the line that fills it. -/
theorem messages_of_complete_runs :
    let f (id : UInt32) : Field := { id, name := "f", type := .scalar .bool, scope := .optional }
    let edits : List Edit :=
      [{ name? := some "A", addFields := [f 1, f 2] },
        { dropFields := 1, signal := { closed := true, package? := some "p" } },
        { addFields := [f 1], signal := { closed := true } }]
    let a : Assembly ReplayState := { state := { edits } }
    let messages : List Message :=
      [{ name := "A", package? := some "p", fields := [f 1] },
        { package? := some "p", fields := [f 1] }]
    (a.complete replay {} (sourceLines "a\nb\n\nc".toList)).result = .ok messages ∧
      (a.complete replay ⟨.atEnd, .accept⟩ (sourceLines "a\nb\n\nc".toList)).result =
        .ok messages ∧
      messages = (a.calls replay {} ((textLines "a\nb\n\nc".toList).map .text)).filterMap
        (fun call => call.1.ended? replay call.2) ∧
      ∀ m ∈ messages, (m.fields.map (·.id)).Nodup := by
  intro f edits a messages
  have hresult : (a.complete replay {} (sourceLines "a\nb\n\nc".toList)).result = .ok messages := by
    unfold a edits messages f
    rfl
  have h := messages_of_complete replay { edits } .accept "a\nb\n\nc"
  have hearly := h.1 .whileReading messages hresult
  exact ⟨hresult, h.2.2 messages hresult, hearly.1, hearly.2.2.2⟩

/-- A repeated id that is taken away before the end is no fault for the search at the end. -/
example :
    let f : Field := { id := 1, name := "f", type := .scalar .bool, scope := .optional }
    let edits : List Edit :=
      [{ addFields := [f, f] }, { dropFields := 1, signal := { closed := true } }]
    let a : Assembly ReplayState := { state := { edits } }
    (a.complete replay {} (sourceLines "a\nb".toList)).result =
        .error ⟨1, .duplicateFieldId "" "f" 1⟩ ∧
      (a.complete replay ⟨.atEnd, .accept⟩ (sourceLines "a\nb".toList)).result =
        .ok [{ fields := [f] }] :=
  ⟨rfl, rfl⟩

end Assembly

end ProtoSchema
