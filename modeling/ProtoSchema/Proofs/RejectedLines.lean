import ProtoSchema.Proofs.OpenBlocks

/-!
# Rejected lines

A line that the grammar rejects is counted and leaves no other trace, so a run goes on as if the line
had been empty. A field with a repeated id is no such line: its call fails, but the field stays in
its message.

**The run without rejections.** Once the outcomes of a run are known, `cleared` empties the lines
that were rejected. The run over them is made on the same assemblies (`feedAll_cleared`), so that
nothing can tell the two runs apart but the failures themselves.

Results:
* `feed_of_isRejection`: a rejected line is counted, and nothing else;
* `feed_of_repeatedId`: a call that reports a repeated id adds the field of its line;
* `feedAll_cleared`: emptying the rejected lines of a run;
* `cleared_rejected_lines`: all of it, after any calls.
-/
namespace ProtoSchema

open Text

/-- The line of the call was rejected. -/
def isRejection : Option Failure → Bool
  | some ⟨_, .unrecognizedLine _ _⟩ => true
  | _ => false

/-- The outcome, save that a rejected line is passed over. -/
def withoutRejection (outcome : Option Failure) : Option Failure :=
  if isRejection outcome then none else outcome

namespace Assembly

/-- The same kind of call, with an empty line. -/
def Input.emptied : Input → Input
  | .text _ => .text []
  | .code _ => .code []

/-- The calls of a run with these outcomes, where the rejected lines are empty. -/
def cleared (inputs : List Input) (outcomes : List (Option Failure)) : List Input :=
  List.zipWith (fun input outcome => if isRejection outcome then input.emptied else input) inputs
    outcomes

variable {a : Assembly Nesting} {policy : Policy} {input : Input}

theorem cleared_cons (input : Input) (inputs : List Input) (outcome : Option Failure)
    (outcomes : List (Option Failure)) :
    cleared (input :: inputs) (outcome :: outcomes) =
      (if isRejection outcome then input.emptied else input) :: cleared inputs outcomes := rfl

/-! ## One call -/

theorem feed_emptied {σ : Type} (rules : LineRules σ) (a : Assembly σ) (input : Input) :
    a.feed rules policy input.emptied = { next := a.arrive input } := by
  cases input <;> rfl

theorem feed_of_isRejection (h : isRejection (a.feed grammar policy input).failure? = true) :
    (a.feed grammar policy input).next = a.arrive input := by
  rcases feed_cases policy a input with ⟨hnext, _, _⟩ | ⟨clause, taken, _, _, _, hkept, _⟩
  · exact hnext
  · -- The clause of a rejected line is not kept.
    unfold keptClause? at hkept
    split at hkept
    · next hfailure =>
      rw [hfailure] at h
      cases h
    · next hfailure =>
      rw [hfailure] at h
      cases h
    · cases hkept

theorem newIdFault?_concat {m : Message} {known : List Field} {f : Field} {fault : Fault}
    (hm : m.fields = known ++ [f]) (h : newIdFault? policy known.length m = some fault) :
    f.id ∈ known.map (·.id) ∧ fault = .duplicateFieldId m.name f.name f.id := by
  unfold newIdFault? at h
  cases hpolicy : policy.idCheck with
  | atEnd =>
    rw [hpolicy] at h
    cases h
  | whileReading =>
    simp only [hpolicy, Message.idFaultFrom?_eq hm, firstRepeat?] at h
    split at h
    · next hid => exact ⟨hid, (Option.some.inj h).symm⟩
    · cases h

/-- A call that reports a repeated id adds the field that its line declares, which has the id of an
earlier field, and changes nothing else. -/
theorem feed_of_repeatedId {n : Nat} {message field : String} {id : UInt32}
    (h : (a.feed grammar policy input).failure? =
      some ⟨n, .duplicateFieldId message field id⟩) :
    ∃ f, Says ((a.arrive input).lineCount, input.line) (.field f) ∧
      message = a.current.name ∧ field = f.name ∧ id = f.id ∧
      id ∈ a.current.fields.map (·.id) ∧
      (a.feed grammar policy input).next =
        { a.arrive input with
          current := { a.current with fields := a.current.fields ++ [f] } } := by
  rw [feed_eq] at h ⊢
  rcases apply_cases policy (a.arrive input) input.line with
    ⟨_, hfailure, _⟩ | ⟨_, _, _, hfailure, _⟩ | ⟨_, clause, taken, hsays, htakes, hfailure, hnext⟩
  · cases hfailure.symm.trans h
  · cases hfailure.symm.trans h
  · rw [hnext]
    obtain ⟨fault, hnew, heq⟩ := Option.map_eq_some_iff.1 (hfailure.symm.trans h)
    obtain rfl := (Failure.mk.inj heq).2
    rw [arrive_current] at hnew htakes
    obtain ⟨f, rfl⟩ := htakes.exists_field fun hfields => by
      rw [newIdFault?_of_length (by rw [hfields])] at hnew
      cases hnew
    obtain ⟨hnesting, rfl⟩ := htakes.eq_of_field
    obtain ⟨hid, hfault⟩ := newIdFault?_concat rfl hnew
    obtain ⟨rfl, rfl, rfl⟩ := Fault.duplicateFieldId.inj hfault
    exact ⟨f, hsays, rfl, rfl, rfl, hid, accept_of_signal rfl⟩

/-! ## Runs -/

/-- The run over the cleared calls goes through the same assemblies. -/
theorem feedAll_cleared (a : Assembly Nesting) (inputs : List Input) :
    a.feedAll grammar policy (cleared inputs (a.feedAll grammar policy inputs).2) =
      ((a.feedAll grammar policy inputs).1,
        (a.feedAll grammar policy inputs).2.map withoutRejection) := by
  induction inputs generalizing a with
  | nil => rfl
  | cons input inputs ih =>
    simp only [feedAll, cleared_cons, List.map_cons, withoutRejection]
    cases hrejected : isRejection (a.feed grammar policy input).failure? with
    | true => simp only [if_true, feed_emptied, feed_of_isRejection hrejected, ih]
    | false => simp only [Bool.false_eq_true, if_false, ih]

/-- After any calls, failing ones included: if the rejected lines had been empty, every other call
would have had the same outcome, and the assembly would have been the same behind each call, with its
line number and its package. So the end would be the same, and what further lines come to. A call
that reports a repeated id is not one of them: its field, whose id an earlier field has, joins the
message under construction, and nothing else changes but the line. -/
theorem cleared_rejected_lines (policy : Policy) (inputs : List Input) :
    let run := start.feedAll grammar policy inputs
    let again := start.feedAll grammar policy (cleared inputs run.2)
    again.2 = run.2.map withoutRejection ∧
    (∀ k, (start.feedAll grammar policy ((cleared inputs run.2).take k)).1 =
      (start.feedAll grammar policy (inputs.take k)).1) ∧
    again.1.finish grammar policy = run.1.finish grammar policy ∧
    (∀ lines, again.1.complete grammar policy lines = run.1.complete grammar policy lines) ∧
    ∀ (a : Assembly Nesting) (input : Input) (n : Nat) (message field : String) (id : UInt32),
      (a.feed grammar policy input).failure? = some ⟨n, .duplicateFieldId message field id⟩ →
      ∃ f, Says ((a.arrive input).lineCount, input.line) (.field f) ∧
        message = a.current.name ∧ field = f.name ∧ id = f.id ∧
        id ∈ a.current.fields.map (·.id) ∧
        (a.feed grammar policy input).next =
          { a.arrive input with
            current := { a.current with fields := a.current.fields ++ [f] } } := by
  intro run again
  have hagain : again = (run.1, run.2.map withoutRejection) := feedAll_cleared start inputs
  refine ⟨by rw [hagain], fun k => ?_, by rw [hagain], fun lines => by rw [hagain],
    fun a input n message field id => feed_of_repeatedId⟩
  rw [cleared, List.take_zipWith, take_feedAll, ← cleared, feedAll_cleared]

/-- A field with a repeated id behind a rejected line: the rejected line is passed over, and the
field stays. -/
theorem cleared_rejected_lines_runs :
    let a := (start.feedAll grammar {}
      [.text "message A \x7b".toList, .text "x".toList, .text "required int32 a = 1;".toList]).1
    (a.feed grammar {} (.text "optional bool b = 1;".toList)).failure? =
      some ⟨4, .duplicateFieldId "A" "b" 1⟩ ∧
    (∃ f, (a.feed grammar {} (.text "optional bool b = 1;".toList)).next =
      { a.arrive (.text "optional bool b = 1;".toList) with
        current := { a.current with fields := a.current.fields ++ [f] } }) ∧
    start.feedAll grammar {}
        [.text "message A \x7b".toList, .text [], .text "required int32 a = 1;".toList] =
      (a, [none, none, none]) := by
  intro a
  have hfailure : (a.feed grammar {} (.text "optional bool b = 1;".toList)).failure? =
      some ⟨4, .duplicateFieldId "A" "b" 1⟩ := by rfl
  have h := cleared_rejected_lines {}
    [.text "message A \x7b".toList, .text "x".toList, .text "required int32 a = 1;".toList]
  obtain ⟨f, _, _, _, _, _, hnext⟩ := h.2.2.2.2 a _ 4 "A" "b" 1 hfailure
  refine ⟨hfailure, ⟨f, hnext⟩, Prod.ext (h.2.1 3) h.1⟩

end Assembly

end ProtoSchema
