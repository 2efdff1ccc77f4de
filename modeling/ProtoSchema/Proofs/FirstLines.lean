import ProtoSchema.Proofs.Calls

/-!
# First lines

An assembly that reads lines up to the first failure reads the first of them before it comes to the
others. So the lines in front of the failing one, and that line, decide alone how the reading fails.

**Reading and calling.** As long as no line fails, reading lines is the same as making a call for
each of them (`readAll_eq_feedAll`), so that what holds after any calls holds behind the lines.

Results:
* `readAll_append`, `complete_append`: the first lines of a schema, and the ones behind them;
* `exists_of_readAll_failure?`: there is one failing line, and the lines in front of it do not fail;
* `lineCount_feedAll`, `readAll_lineCount`: which lines are counted.
-/
namespace ProtoSchema

namespace Assembly

variable {σ : Type} {rules : LineRules σ} {policy : Policy} {a : Assembly σ}
  {line : Option (List Char)} {front behind lines : List (Option (List Char))} {failure : Failure}

/-! ## Lines behind lines -/

/-- The lines behind are read unless one of the first lines fails. -/
theorem readAll_append (front behind : List (Option (List Char))) :
    a.readAll rules policy (front ++ behind) =
      match (a.readAll rules policy front).failure? with
      | some _ => a.readAll rules policy front
      | none =>
        ((a.readAll rules policy front).next.readAll rules policy behind).after
          (a.readAll rules policy front).events := by
  induction front generalizing a with
  | nil => rfl
  | cons line front ih =>
    cases line with
    | none => rfl
    | some line =>
      simp only [List.cons_append, readAll]
      cases hread : (a.read rules policy line).failure? with
      | some failure => simp only [hread]
      | none =>
        simp only [ih]
        cases hfront : ((a.read rules policy line).next.readAll rules policy front).failure? with
        | some failure => simp only [Step.after, hfront]
        | none => simp only [Step.after, hfront, List.append_assoc]

theorem readAll_append_of_failure? (h : (a.readAll rules policy front).failure? = some failure)
    (behind : List (Option (List Char))) :
    (a.readAll rules policy (front ++ behind)).failure? = some failure := by
  rw [readAll_append, h]
  exact h

theorem readAll_append_failure?_eq_none :
    (a.readAll rules policy (front ++ behind)).failure? = none ↔
      (a.readAll rules policy front).failure? = none ∧
        ((a.readAll rules policy front).next.readAll rules policy behind).failure? = none := by
  rw [readAll_append]
  cases h : (a.readAll rules policy front).failure? <;> simp [h, Step.after]

theorem complete_result :
    (a.complete rules policy lines).result =
      match (a.readAll rules policy lines).failure? with
      | some failure => .error failure
      | none => ((a.readAll rules policy lines).next.finish rules policy).result := by
  rw [complete]
  cases (a.readAll rules policy lines).failure? <;> rfl

theorem complete_append (h : (a.readAll rules policy front).failure? = none)
    (behind : List (Option (List Char))) :
    (a.complete rules policy (front ++ behind)).result =
      ((a.readAll rules policy front).next.complete rules policy behind).result := by
  rw [complete_result, complete_result, readAll_append, h]
  rfl

theorem complete_of_failure? (h : (a.readAll rules policy lines).failure? = some failure) :
    (a.complete rules policy lines).result = .error failure := by
  rw [complete_result, h]

theorem complete_eq_ok {messages : List Message} :
    (a.complete rules policy lines).result = .ok messages ↔
      (a.readAll rules policy lines).failure? = none ∧
        (a.readAll rules policy lines).next.endFault? rules policy = none ∧
        (a.readAll rules policy lines).next.finished = messages := by
  rw [complete_result]
  cases (a.readAll rules policy lines).failure? with
  | some failure => simp
  | none =>
    simp only [true_and]
    cases hend : (a.readAll rules policy lines).next.endFault? rules policy with
    | some fault => simp [finish_of_endFault? hend]
    | none => simp [finish_of_endFault?_eq_none hend]

theorem complete_eq_error :
    (a.complete rules policy lines).result = .error failure ↔
      (a.readAll rules policy lines).failure? = some failure ∨
        (a.readAll rules policy lines).failure? = none ∧
          failure.line = (a.readAll rules policy lines).next.lineNumber ∧
          (a.readAll rules policy lines).next.endFault? rules policy = some failure.fault := by
  obtain ⟨n, fault⟩ := failure
  rw [complete_result]
  cases (a.readAll rules policy lines).failure? with
  | some failure => simp
  | none =>
    cases hend : (a.readAll rules policy lines).next.endFault? rules policy with
    | some fault' => simp [finish_of_endFault? hend, eq_comm]
    | none => simp [finish_of_endFault?_eq_none hend]

/-! ## The failing line -/

/-- If reading fails there is one failing line, and the lines in front of it do not fail. -/
theorem exists_of_readAll_failure? (h : (a.readAll rules policy lines).failure? = some failure) :
    ∃ front line behind, lines = front ++ line :: behind ∧
      (a.readAll rules policy front).failure? = none ∧
      ((a.readAll rules policy front).next.readAll rules policy [line]).failure? =
        some failure := by
  induction lines generalizing a with
  | nil => cases h
  | cons line lines ih =>
    -- Either this line fails, or the failing one is among the others.
    cases hline : (a.readAll rules policy [line]).failure? with
    | some failure' =>
      have hlines := readAll_append_of_failure? hline lines
      obtain rfl : failure' = failure := Option.some.inj (hlines.symm.trans h)
      exact ⟨[], line, lines, rfl, rfl, hline⟩
    | none =>
      rw [← List.singleton_append, readAll_append, hline] at h
      obtain ⟨front, line', behind, rfl, hfront, hfailure⟩ := ih h
      refine ⟨line :: front, line', behind, rfl, ?_, ?_⟩
      · rw [← List.singleton_append]
        exact readAll_append_failure?_eq_none.2 ⟨hline, hfront⟩
      · rw [← List.singleton_append, readAll_append, hline]
        exact hfailure

/-! ## Calls for lines -/

variable {texts : List (List Char)}

theorem readAll_cons {line : List Char} (h : (a.read rules policy line).failure? = none)
    (lines : List (Option (List Char))) :
    a.readAll rules policy (some line :: lines) =
      ((a.read rules policy line).next.readAll rules policy lines).after
        (a.read rules policy line).events := by
  simp only [readAll, h]

theorem readAll_cons_of_failure? {line : List Char}
    (h : (a.read rules policy line).failure? = some failure) (lines : List (Option (List Char))) :
    a.readAll rules policy (some line :: lines) = a.read rules policy line := by
  simp only [readAll, h]

theorem readAll_cons_failure?_eq_none {line : List Char} :
    (a.readAll rules policy (some line :: lines)).failure? = none ↔
      (a.read rules policy line).failure? = none ∧
        ((a.read rules policy line).next.readAll rules policy lines).failure? = none := by
  cases h : (a.read rules policy line).failure? with
  | some failure => simp [readAll_cons_of_failure? h, h]
  | none => simp [readAll_cons h, Step.after]

theorem readAll_singleton_failure? (line : List Char) :
    (a.readAll rules policy [some line]).failure? = (a.read rules policy line).failure? := by
  cases h : (a.read rules policy line).failure? with
  | some failure => rw [readAll_cons_of_failure? h, h]
  | none => rw [readAll_cons h]; rfl

/-- Reading lines that do not fail is to make a call for each of them. -/
theorem readAll_eq_feedAll (h : (a.readAll rules policy (texts.map some)).failure? = none) :
    (a.readAll rules policy (texts.map some)).next =
        (a.feedAll rules policy (texts.map .text)).1 ∧
      ∀ outcome ∈ (a.feedAll rules policy (texts.map .text)).2, outcome = none := by
  induction texts generalizing a with
  | nil => exact ⟨rfl, nofun⟩
  | cons line texts ih =>
    obtain ⟨hread, hrest⟩ := readAll_cons_failure?_eq_none.1 h
    obtain ⟨hnext, houtcomes⟩ := ih hrest
    refine ⟨?_, List.forall_mem_cons.2 ⟨hread, houtcomes⟩⟩
    rw [List.map_cons, readAll_cons hread]
    exact hnext

@[simp]
theorem feed_lineCount (a : Assembly σ) (input : Input) :
    (a.feed rules policy input).next.lineCount = (a.arrive input).lineCount := by
  rw [feed_next, obey_lineCount, replied]
  split <;> rfl

/-- A line of text is counted, and code belongs to the line that was counted last. -/
def Input.isText : Input → Bool
  | .text _ => true
  | .code _ => false

theorem arrive_lineCount (a : Assembly σ) (input : Input) :
    (a.arrive input).lineCount = a.lineCount + [input].countP Input.isText := by
  cases input <;> rfl

theorem lineCount_feedAll (a : Assembly σ) (inputs : List Input) :
    (a.feedAll rules policy inputs).1.lineCount = a.lineCount + inputs.countP Input.isText := by
  induction inputs generalizing a with
  | nil => rfl
  | cons input inputs ih =>
    rw [feedAll, ih, feed_lineCount, arrive_lineCount, Nat.add_assoc, ← List.countP_append]
    rfl

theorem countP_isText_map_text (texts : List (List Char)) :
    (texts.map Input.text).countP Input.isText = texts.length := by
  rw [List.countP_eq_length.2 (by simp [Input.isText]), List.length_map]

theorem readAll_lineCount (h : (a.readAll rules policy (texts.map some)).failure? = none) :
    (a.readAll rules policy (texts.map some)).next.lineCount = a.lineCount + texts.length := by
  rw [(readAll_eq_feedAll h).1, lineCount_feedAll, countP_isText_map_text]

theorem apply_failure_line {line : List Char}
    (h : (a.apply rules policy line).failure? = some failure) : failure.line = a.lineCount := by
  simp only [apply] at h
  split at h
  · cases h
  · split at h
    · cases h
      rfl
    · split at h
      · cases h
        rfl
      · cases h

theorem read_failure_line {line : List Char}
    (h : (a.read rules policy line).failure? = some failure) : failure.line = a.lineCount + 1 :=
  apply_failure_line h

end Assembly

end ProtoSchema
