import ProtoSchema.Proofs.FirstLines

/-!
# The lines of failures

A failure is pinned to a line by whoever finds it, and there are three of those. A call takes the
number of lines that were counted, the end of the schema takes the line number of the assembly,
which is 1 before the first line, and a line that is no text has the number behind the last one.

**Before the first line.** Code may be given before any line was read. Then nothing was counted: a
call that fails is pinned to line 0, although the line number of the assembly is 1. Behind the first
line of text the two agree.

Results:
* `feed_failure_line`, `readAll_failure_line`: where calls and lines fail, under any rules;
* `lineNumber_eq_iff`: when the line number is the number of lines that were counted;
* `failure_line_after_calls`: where everything fails that comes after any calls.
-/
namespace ProtoSchema

namespace Assembly

variable {σ : Type} {rules : LineRules σ} {policy : Policy} {a : Assembly σ} {failure : Failure}

theorem one_le_lineNumber (a : Assembly σ) : 1 ≤ a.lineNumber :=
  Nat.le_max_right _ _

theorem lineNumber_eq_iff : a.lineNumber = a.lineCount ↔ 1 ≤ a.lineCount := by
  rw [lineNumber]
  omega

theorem feed_failure_line {input : Input}
    (h : (a.feed rules policy input).failure? = some failure) :
    failure.line = (a.feed rules policy input).next.lineCount := by
  rw [feed_lineCount]
  rw [feed_eq] at h
  exact apply_failure_line h

theorem finish_failure_line (h : (a.finish rules policy).result = .error failure) :
    failure.line = a.lineNumber := by
  cases hend : a.endFault? rules policy with
  | none =>
    rw [finish_of_endFault?_eq_none hend] at h
    cases h
  | some fault =>
    rw [finish_of_endFault? hend] at h
    cases h
    rfl

theorem readAll_failure_line {texts : List (List Char)}
    (h : (a.readAll rules policy (texts.map some)).failure? = some failure) :
    failure.line = (a.readAll rules policy (texts.map some)).next.lineNumber := by
  induction texts generalizing a with
  | nil => cases h
  | cons line texts ih =>
    rw [List.map_cons] at h ⊢
    cases hread : (a.read rules policy line).failure? with
    | some first =>
      rw [readAll_cons_of_failure? hread] at h ⊢
      have hcount : (a.read rules policy line).next.lineCount = a.lineCount + 1 :=
        feed_lineCount a (.text line)
      rw [lineNumber_eq_iff.2 (by omega), hcount, read_failure_line h]
    | none =>
      rw [readAll_cons hread] at h ⊢
      exact ih h

theorem complete_failure_line {texts : List (List Char)}
    (h : (a.complete rules policy (texts.map some)).result = .error failure) :
    failure.line = (a.readAll rules policy (texts.map some)).next.lineNumber := by
  rcases complete_eq_error.1 h with hread | ⟨_, hline, _⟩
  · exact readAll_failure_line hread
  · exact hline

theorem one_le_complete_failure_line {lines : List (Option (List Char))}
    (h : (a.complete rules policy lines).result = .error failure) : 1 ≤ failure.line := by
  rcases complete_eq_error.1 h with hread | ⟨_, hline, _⟩
  · obtain ⟨front, line, behind, rfl, _, hfailure⟩ := exists_of_readAll_failure? hread
    cases line with
    | none =>
      obtain rfl := Option.some.inj hfailure
      exact Nat.le_add_left 1 _
    | some line =>
      rw [readAll_singleton_failure?] at hfailure
      exact read_failure_line hfailure ▸ Nat.le_add_left 1 _
  · exact hline ▸ one_le_lineNumber _

theorem countP_isText_pos {inputs : List Input} :
    1 ≤ inputs.countP Input.isText ↔ ∃ line, Input.text line ∈ inputs := by
  rw [Nat.one_le_iff_ne_zero, ← Nat.pos_iff_ne_zero, List.countP_pos_iff]
  refine ⟨fun ⟨input, hmem, htext⟩ => ?_, fun ⟨line, hmem⟩ => ⟨_, hmem, rfl⟩⟩
  cases input with
  | text line => exact ⟨line, hmem⟩
  | code line => cases htext

/-- Where everything fails that comes after any calls on a fresh assembly, under any rules. A call
fails at the number of lines that were read, its own included; this is a line, and the line number
behind the call, exactly when there is one. The end fails at the line number, and so does the
reading of further lines behind the line where it stops. -/
theorem failure_line_after_calls (rules : LineRules σ) (state : σ) (policy : Policy)
    (inputs : List Input) :
    let a := (({ state } : Assembly σ).feedAll rules policy inputs).1
    (∀ input failure, (a.feed rules policy input).failure? = some failure →
      failure.line = (inputs ++ [input]).countP Input.isText ∧
      (1 ≤ failure.line ∧ failure.line = (a.feed rules policy input).next.lineNumber ↔
        ∃ line, Input.text line ∈ inputs ++ [input])) ∧
    (∀ failure, (a.finish rules policy).result = .error failure →
      1 ≤ failure.line ∧ failure.line = a.lineNumber) ∧
    (∀ (texts : List (List Char)) failure,
      (a.complete rules policy (texts.map some)).result = .error failure →
        1 ≤ failure.line ∧
          failure.line = (a.readAll rules policy (texts.map some)).next.lineNumber) ∧
    ∀ lines failure, (a.complete rules policy lines).result = .error failure →
      1 ≤ failure.line := by
  intro a
  refine ⟨fun input failure h => ?_, fun failure h => ?_, fun texts failure h => ?_,
    fun lines failure h => one_le_complete_failure_line h⟩
  · have hcount : (a.feed rules policy input).next.lineCount =
        (inputs ++ [input]).countP Input.isText := by
      rw [feed_lineCount, arrive_lineCount, lineCount_feedAll, List.countP_append, Nat.zero_add]
    have hline := feed_failure_line h
    refine ⟨hline.trans hcount, ?_⟩
    rw [hline, @eq_comm Nat, lineNumber_eq_iff, and_self, hcount, countP_isText_pos]
  · have hline := finish_failure_line h
    exact ⟨hline ▸ a.one_le_lineNumber, hline⟩
  · exact ⟨one_le_complete_failure_line h, complete_failure_line h⟩

/-- Code that fails behind a line of text, and the block that the end finds open. -/
theorem failure_line_after_calls_runs :
    let a := (start.feedAll grammar {} [.text "message A \x7b".toList]).1
    (a.feed grammar {} (.code "bogus".toList)).failure? =
      some ⟨1, .rejected "bogus".toList .notAStatement⟩ ∧
    1 = [Input.text "message A \x7b".toList, .code "bogus".toList].countP Input.isText ∧
    (a.finish grammar {}).result = .error ⟨1, .unclosedMessage⟩ ∧ 1 = a.lineNumber := by
  have hlines := failure_line_after_calls grammar .topLevel {} [.text "message A \x7b".toList]
  exact ⟨by rfl, (hlines.1 (.code "bogus".toList) _ (by rfl)).1, by rfl,
    (hlines.2.1 ⟨1, .unclosedMessage⟩ (by rfl)).2⟩

/-- A line of code that fails before the first line is pinned to line 0. -/
theorem failure_line_before_first_line :
    (start.feed grammar {} (.code "bogus".toList)).failure? =
      some ⟨0, .rejected "bogus".toList .notAStatement⟩ ∧
    (start.feed grammar {} (.code "bogus".toList)).next.lineNumber = 1 :=
  ⟨by rfl, by rfl⟩

end Assembly

end ProtoSchema
