import ProtoSchema.Proofs.FirstLines

/-!
# The first failure

A schema fails at the first line that is wrong, whatever stands behind it. What a line can be wrong
with (`Fault.StopsReading`) and what only the end of the schema finds (`Fault.EndsReading`) are
different faults: a repeated id is the one or the other, depending on when it is looked for.

Results:
* `exists_of_readAll_texts`: where the reading stops, and by which faults;
* `endsReading_of_complete`: where and how a schema fails whose lines do not;
* `compileText_failure`: which texts fail with the same failure, and which do not.
-/
namespace ProtoSchema

open Text

/-- A fault that a line is found to have. -/
def Fault.StopsReading (idCheck : IdCheck) (fault : Fault) : Prop :=
  (∃ shown reason, fault = .unrecognizedLine shown reason) ∨
    idCheck = .whileReading ∧ fault.IsRepeatedId

/-- A fault that a schema is found to have at its end. -/
def Fault.EndsReading (idCheck : IdCheck) (fault : Fault) : Prop :=
  fault = .unclosedMessage ∨ fault = .noMessages ∨ idCheck = .atEnd ∧ fault.IsRepeatedId

theorem Fault.EndsReading.not_stopsReading {idCheck : IdCheck} {fault : Fault}
    (h : fault.EndsReading idCheck) : ¬ fault.StopsReading idCheck := by
  rintro (⟨shown, reason, rfl⟩ | ⟨hearly, message, field, id, rfl⟩)
  · rcases h with h | h | ⟨_, message, field, id, h⟩ <;> cases h
  · rcases h with h | h | ⟨hlate, _⟩
    · cases h
    · cases h
    · exact absurd (hearly.symm.trans hlate) nofun

namespace Assembly

variable {a : Assembly Nesting} {policy : Policy} {lines : List (List Char)} {failure : Failure}

theorem stopsReading_of_read_failure? {line : List Char}
    (h : (a.read grammar policy line).failure? = some failure) :
    failure.fault.StopsReading policy.idCheck := by
  rcases apply_cases policy (a.atLine (a.lineCount + 1)) (code line) with
    ⟨_, hfailure, _⟩ | ⟨_, shown, reason, hfailure, _⟩ | ⟨_, _, accepted, _, _, hfailure, _⟩
  · cases hfailure.symm.trans h
  · cases hfailure.symm.trans h
    exact .inl ⟨shown, reason, rfl⟩
  · obtain ⟨fault, hnew, rfl⟩ := Option.map_eq_some_iff.1 (hfailure.symm.trans h)
    exact .inr (isRepeatedId_of_newIdFault? hnew)

/-- A read that fails, fails at one of its lines: reading up to that line fails alike, and reading
fewer lines does not fail. -/
theorem exists_of_readAll_texts
    (h : (a.readAll grammar policy (lines.map some)).failure? = some failure) :
    ∃ k < lines.length, failure.line = a.lineCount + k + 1 ∧
      failure.fault.StopsReading policy.idCheck ∧
      (a.readAll grammar policy ((lines.take (k + 1)).map some)).failure? = some failure ∧
      ∀ j ≤ k, (a.readAll grammar policy ((lines.take j).map some)).failure? = none := by
  obtain ⟨front, line, behind, hlines, hfront, hfailure⟩ := exists_of_readAll_failure? h
  obtain ⟨front, rest, rfl, rfl, hrest⟩ := List.map_eq_append_iff.1 hlines
  obtain ⟨line, behind, rfl, rfl, rfl⟩ := List.map_eq_cons_iff.1 hrest
  have hread := hfailure
  rw [readAll_singleton_failure?] at hread
  refine ⟨front.length, by simp, ?_, stopsReading_of_read_failure? hread, ?_, fun j hj => ?_⟩
  · rw [read_failure_line hread, readAll_lineCount hfront]
  · rw [List.take_length_add_append, List.map_append, readAll_append, hfront]
    exact hfailure
  · rw [← List.take_append_drop j front, List.map_append] at hfront
    rw [List.take_append_of_le_length hj]
    exact (readAll_append_failure?_eq_none.1 hfront).1

/-- The end finds an open block, no message, or a repeated id, of which there is none if it was
looked for while reading. -/
theorem endsReading_of_endFault? {fault : Fault}
    (hnone : policy.idCheck = .whileReading → a.idFault? = none)
    (h : a.endFault? grammar policy = some fault) : fault.EndsReading policy.idCheck := by
  unfold endFault? at h
  split at h
  · cases h
    exact .inl rfl
  · split at h
    · cases h
      exact .inr (.inl rfl)
    · obtain ⟨m, _, hm⟩ := List.exists_of_findSome?_eq_some h
      refine .inr (.inr ⟨?_, Message.isRepeatedId_of_idFault? hm⟩)
      cases hpolicy : policy.idCheck with
      | atEnd => rfl
      | whileReading =>
        have hids := hnone hpolicy
        rw [idFault?_eq_or, h] at hids
        cases hids

theorem idFault?_readAll (hpolicy : policy.idCheck = .whileReading) (hnone : a.idFault? = none)
    (h : (a.readAll grammar policy (lines.map some)).failure? = none) :
    (a.readAll grammar policy (lines.map some)).next.idFault? = none := by
  obtain ⟨hnext, houtcomes⟩ := readAll_eq_feedAll h
  rw [hnext]
  refine idFault?_feedAll grammar_appendOnly hpolicy hnone fun outcome hmem => ?_
  rintro ⟨failure, rfl, _⟩
  exact absurd (houtcomes _ hmem) nofun

theorem endsReading_of_complete
    (hread : (start.readAll grammar policy (lines.map some)).failure? = none)
    (h : (start.complete grammar policy (lines.map some)).result = .error failure) :
    failure.line = max 1 lines.length ∧ failure.fault.EndsReading policy.idCheck := by
  rcases complete_eq_error.1 h with hfailure | ⟨_, hline, hend⟩
  · exact absurd (hread.symm.trans hfailure) nofun
  · have hnone : policy.idCheck = .whileReading →
        (start.readAll grammar policy (lines.map some)).next.idFault? = none :=
      fun hpolicy => idFault?_readAll hpolicy rfl hread
    refine ⟨?_, endsReading_of_endFault? hnone hend⟩
    rw [hline, lineNumber, readAll_lineCount hread, Nat.max_comm]
    exact congrArg (max 1) (Nat.zero_add _)

end Assembly

open Assembly

/-- A fault of a line is reported at a line of the text. Every text with the same lines up to there
fails alike, whatever stands behind them; and the lines in front of it, which are those of a first
part of the text, are either accepted or fail at their end. A fault of the end is reported at the
last line, or at line 1 of a text without lines. -/
theorem compileText_failure (policy : Policy) (text : String) (failure : Failure)
    (h : (compileText policy text).result = .error failure) :
    (failure.fault.StopsReading policy.idCheck →
      1 ≤ failure.line ∧ failure.line ≤ (textLines text.toList).length ∧
      (∀ other : String,
        (textLines other.toList).take failure.line = (textLines text.toList).take failure.line →
        (compileText policy other).result = .error failure) ∧
      ∀ j < failure.line,
        (∃ front : String, front.toList <+: text.toList ∧
          textLines front.toList = (textLines text.toList).take j) ∧
        ∀ front : String, textLines front.toList = (textLines text.toList).take j →
          ∀ failure', (compileText policy front).result = .error failure' →
            failure'.fault.EndsReading policy.idCheck) ∧
    (failure.fault.EndsReading policy.idCheck →
      failure.line = max 1 (textLines text.toList).length) := by
  rcases complete_eq_error.1 h with hfailure | ⟨hread, _⟩
  · obtain ⟨k, hk, hline, hstops, hstop, hfront⟩ := exists_of_readAll_texts hfailure
    rw [show start.lineCount = 0 from rfl, Nat.zero_add] at hline
    refine ⟨fun _ => ⟨?_, ?_, fun other hother => ?_, fun j hj => ⟨?_, fun front hlines => ?_⟩⟩,
      fun hends => absurd hstops hends.not_stopsReading⟩
    · rw [hline]
      exact Nat.succ_pos k
    · rw [hline]
      exact hk
    · -- The other text goes through the same lines up to the failing one.
      have hsource : sourceLines other.toList =
          ((textLines text.toList).take (k + 1)).map some ++
            ((textLines other.toList).drop (k + 1)).map some := by
        rw [sourceLines, ← hline, ← hother, ← List.map_append, List.take_append_drop]
      rw [compileText, hsource]
      exact complete_of_failure? (readAll_append_of_failure? hstop _)
    · obtain ⟨front, hfront, hlines⟩ := exists_isPrefix_splitLines '\n' '\r' text.toList j
      exact ⟨String.ofList front, by simpa using hfront, by simpa [textLines] using hlines⟩
    · rw [hline] at hj
      have hread := hfront j (Nat.le_of_lt_succ hj)
      rw [← hlines] at hread
      exact fun failure' hfailure' => (endsReading_of_complete hread hfailure').2
  · obtain ⟨hline, hends⟩ := endsReading_of_complete hread h
    exact ⟨fun hstops => absurd hstops hends.not_stopsReading, fun _ => hline⟩

/-- A repeated id on line 3 in front of a line that is never reached, and an empty text. -/
theorem compileText_failure_runs :
    (∀ other : String,
      (textLines other.toList).take 3 =
        ["message A \x7b".toList, "required int32 a = 1;".toList, "optional bool b = 1;".toList] →
      (compileText {} other).result = .error ⟨3, .duplicateFieldId "A" "b" 1⟩) ∧
    (∀ front : String, textLines front.toList = ["message A \x7b".toList] →
      ∀ failure, (compileText {} front).result = .error failure →
        failure.fault.EndsReading .whileReading) ∧
    (1 : Nat) = max 1 (textLines "".toList).length := by
  have h := (compileText_failure {}
    "message A \x7b\nrequired int32 a = 1;\noptional bool b = 1;\nx"
    ⟨3, .duplicateFieldId "A" "b" 1⟩ (by rfl)).1 (.inr ⟨rfl, _, _, _, rfl⟩)
  refine ⟨h.2.2.1, (h.2.2.2 1 (by decide)).2, ?_⟩
  exact (compileText_failure ⟨.atEnd, .reject⟩ "" ⟨1, .noMessages⟩ (by rfl)).2 (.inr (.inl rfl))

end ProtoSchema
