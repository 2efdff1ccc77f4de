import ProtoSchema.Grammar
import ProtoSchema.Proofs.Patterns

/-!
# The order of the tests

A line is tested for one kind of statement after the other, and for the keyword of a scope in
between. At most one kind of statement is on a line, so the order of those tests does not matter.
The test for the keyword of a scope shares lines with two of them: with fields, which it must not
see, and with enum values whose label is such a keyword, which it has to stop.

**All orders.** A `TestOrder` is any order of the eight tests and `grammarIn` the grammar that makes
them in that order. What a line comes to is a question of which of two tests comes first
(`read_of_written`), and it is asked of these two pairs only.

Results:
* `read_standard`, `grammarIn_standard`: the grammar is the one of its own order;
* `read_of_written`, `read_of_not_written`: what is read from a line, in any order;
* `grammarIn_eq_iff`: which orders give the same grammar;
* `patterns_disjoint`: the patterns and the order of their tests.
-/
namespace ProtoSchema

open Statement

/-- The tests of a line: one for each kind of statement, and one for lines that start like a
field. -/
inductive LineTest
  | reads (kind : Kind)
  | startsLikeField
  deriving DecidableEq, Repr

namespace LineTest

/-- What a test makes of a line, if it does not pass it on. -/
def answer? (line : List Char) : LineTest → Option (Except Reason Statement)
  | .reads kind => (kind.reader.whole? line).map .ok
  | .startsLikeField =>
    if Statement.startsLikeField line then some (.error .malformedField) else none

/-- All tests, in the order of the grammar. -/
def all : List LineTest :=
  [.blockEnd, .package, .messageStart, .enumStart, .field].map .reads ++
    .startsLikeField :: [.enumValue, .option].map .reads

theorem mem_all (test : LineTest) : test ∈ all := by
  rcases test with kind | _
  · cases kind <;> decide
  · decide

variable {line : List Char} {answer : Except Reason Statement}

theorem answer?_reads_eq_some {kind : Kind} :
    (reads kind).answer? line = some answer ↔
      ∃ s, Written s line ∧ s.kind = kind ∧ answer = .ok s := by
  rw [answer?, Option.map_eq_some_iff]
  constructor
  · rintro ⟨s, hread, rfl⟩
    obtain ⟨hs, hkind⟩ := written_of_whole? hread
    exact ⟨s, hs, hkind, rfl⟩
  · rintro ⟨s, hs, rfl, rfl⟩
    exact ⟨s, whole?_of_written hs, rfl⟩

theorem answer?_startsLikeField_eq_some :
    startsLikeField.answer? line = some answer ↔
      Statement.startsLikeField line = true ∧ answer = .error .malformedField := by
  rw [answer?]
  split
  · next hfield => simp [hfield, eq_comm]
  · next hfield => simp [hfield]

/-- Only the test for its own kind and the one for scopes answer to a line with a statement. -/
theorem eq_of_answer?_ne_none {s : Statement} (hs : Written s line) {test : LineTest}
    (h : test.answer? line ≠ none) :
    test = reads s.kind ∨ test = startsLikeField ∧ Statement.startsLikeField line = true := by
  obtain ⟨answer, hanswer⟩ := Option.ne_none_iff_exists'.1 h
  cases test with
  | reads kind =>
    obtain ⟨t, ht, rfl, -⟩ := answer?_reads_eq_some.1 hanswer
    exact .inl (by rw [hs.unique ht])
  | startsLikeField => exact .inr ⟨rfl, (answer?_startsLikeField_eq_some.1 hanswer).1⟩

end LineTest

/-- A search gives the hit that stands in front of all others. -/
theorem findSome?_eq_of_first {α β : Type} [BEq α] [LawfulBEq α] {f : α → Option β} {xs : List α}
    {x : α} {y : β} (hx : x ∈ xs) (hit : f x = some y)
    (hfirst : ∀ z ∈ xs, z ≠ x → f z ≠ none → xs.idxOf x < xs.idxOf z) :
    xs.findSome? f = some y := by
  induction xs with
  | nil => cases hx
  | cons c xs ih =>
    by_cases hc : c = x
    · rw [List.findSome?_cons, hc, hit]
    · have hmiss : f c = none := by
        by_contra hne
        have hlt := hfirst c List.mem_cons_self hc hne
        simp at hlt
      rw [List.findSome?_cons, hmiss]
      refine ih ((List.mem_cons.1 hx).resolve_left (Ne.symm hc)) fun z hz hzx hne => ?_
      have hcz : c ≠ z := fun heq => hne (heq ▸ hmiss)
      have hlt := hfirst z (List.mem_cons_of_mem c hz) hzx hne
      rw [List.idxOf_cons_ne xs hc, List.idxOf_cons_ne xs hcz] at hlt
      exact Nat.lt_of_succ_lt_succ hlt

/-- The tests in any order. -/
structure TestOrder where
  tests : List LineTest
  perm : tests.Perm LineTest.all

namespace TestOrder

variable {order other : TestOrder} {line : List Char} {s : Statement}

/-- The order of the grammar. -/
def standard : TestOrder :=
  ⟨LineTest.all, .refl _⟩

def Before (order : TestOrder) (test later : LineTest) : Prop :=
  order.tests.idxOf test < order.tests.idxOf later

instance (order : TestOrder) (test later : LineTest) : Decidable (order.Before test later) :=
  inferInstanceAs (Decidable (order.tests.idxOf test < order.tests.idxOf later))

theorem mem_tests (order : TestOrder) (test : LineTest) : test ∈ order.tests :=
  order.perm.mem_iff.2 test.mem_all

theorem not_before {test later : LineTest} (h : test ≠ later) :
    ¬ order.Before test later ↔ order.Before later test := by
  have hne : order.tests.idxOf test ≠ order.tests.idxOf later :=
    fun heq => h ((List.idxOf_inj (order.mem_tests test)).1 heq)
  rw [Before, Before]
  omega

/-- What the tests read from a line. -/
def read (order : TestOrder) (line : List Char) : Except Reason Statement :=
  (order.tests.findSome? (·.answer? line)).getD (.error .notAStatement)

theorem read_standard (line : List Char) : standard.read line = ofLine line := by
  have hkinds (kinds : List Kind) : (kinds.map LineTest.reads).findSome? (·.answer? line) =
      (kinds.findSome? (·.reader.whole? line)).map .ok := by
    rw [List.findSome?_map, List.map_findSome?]
    rfl
  have htests : standard.tests =
      [Kind.blockEnd, .package, .messageStart, .enumStart, .field].map LineTest.reads ++
        LineTest.startsLikeField :: [Kind.enumValue, .option].map LineTest.reads := rfl
  have hearly : [blockEnd?, package?, messageStart?, enumStart?, field?].findSome?
      (·.whole? line) = [Kind.blockEnd, .package, .messageStart, .enumStart, .field].findSome?
        (·.reader.whole? line) := rfl
  have hlate : [enumValue?, option?].findSome? (·.whole? line) =
      [Kind.enumValue, .option].findSome? (·.reader.whole? line) := rfl
  rw [read, htests, List.findSome?_append, List.findSome?_cons, hkinds, hkinds, LineTest.answer?,
    ofLine, hearly, hlate]
  cases [Kind.blockEnd, .package, .messageStart, .enumStart, .field].findSome?
      (·.reader.whole? line) with
  | some s => rfl
  | none =>
    by_cases hfield : Statement.startsLikeField line = true
    · rw [if_pos hfield, if_pos hfield]
      rfl
    · rw [if_neg hfield, if_neg hfield]
      cases [Kind.enumValue, .option].findSome? (·.reader.whole? line) <;> rfl

/-- From a line with a statement that statement is read, unless the line starts like a field and is
tested for that before it is tested for the kind of the statement. -/
theorem read_of_written (order : TestOrder) (hs : Written s line) :
    order.read line =
      if startsLikeField line = true ∧ order.Before .startsLikeField (.reads s.kind) then
        .error .malformedField
      else .ok s := by
  have hreads : (LineTest.reads s.kind).answer? line = some (.ok s) :=
    LineTest.answer?_reads_eq_some.2 ⟨s, hs, rfl, rfl⟩
  split
  · next hfirst =>
    obtain ⟨hfield, hbefore⟩ := hfirst
    have hguard : LineTest.startsLikeField.answer? line = some (.error .malformedField) :=
      LineTest.answer?_startsLikeField_eq_some.2 ⟨hfield, rfl⟩
    rw [read, findSome?_eq_of_first (order.mem_tests _) hguard, Option.getD_some]
    intro test _ hne hanswer
    rcases LineTest.eq_of_answer?_ne_none hs hanswer with rfl | ⟨rfl, -⟩
    · exact hbefore
    · exact absurd rfl hne
  · next hlate =>
    rw [read, findSome?_eq_of_first (order.mem_tests _) hreads, Option.getD_some]
    intro test _ hne hanswer
    rcases LineTest.eq_of_answer?_ne_none hs hanswer with rfl | ⟨rfl, hfield⟩
    · exact absurd rfl hne
    · exact (not_before (by simp)).1 fun hbefore => hlate ⟨hfield, hbefore⟩

/-- A line without a statement is read alike in every order. -/
theorem read_of_not_written (order : TestOrder) (h : ∀ s, ¬ Written s line) :
    order.read line =
      .error (if startsLikeField line then .malformedField else .notAStatement) := by
  have hreads (kind : Kind) : (LineTest.reads kind).answer? line = none := by
    refine Option.eq_none_iff_forall_ne_some.2 fun answer hanswer => ?_
    obtain ⟨s, hs, -⟩ := LineTest.answer?_reads_eq_some.1 hanswer
    exact h s hs
  split
  · next hfield =>
    have hguard : LineTest.startsLikeField.answer? line = some (.error .malformedField) :=
      LineTest.answer?_startsLikeField_eq_some.2 ⟨hfield, rfl⟩
    rw [read, findSome?_eq_of_first (order.mem_tests _) hguard, Option.getD_some]
    intro test _ hne hanswer
    cases test with
    | reads kind => exact absurd (hreads kind) hanswer
    | startsLikeField => exact absurd rfl hne
  · next hfield =>
    have hnone : order.tests.findSome? (·.answer? line) = none := by
      refine List.findSome?_eq_none_iff.2 fun test _ => ?_
      cases test with
      | reads kind => exact hreads kind
      | startsLikeField => exact if_neg hfield
    rw [read, hnone, Option.getD_none]

/-- Two orders settle alike which of the tests that share lines comes first. -/
structure Agrees (order other : TestOrder) : Prop where
  field : order.Before (.reads .field) .startsLikeField ↔
    other.Before (.reads .field) .startsLikeField
  enumValue : order.Before .startsLikeField (.reads .enumValue) ↔
    other.Before .startsLikeField (.reads .enumValue)

theorem Agrees.before_iff (h : order.Agrees other) (hs : Written s line)
    (hfield : startsLikeField line = true) :
    order.Before .startsLikeField (.reads s.kind) ↔
      other.Before .startsLikeField (.reads s.kind) := by
  rcases (startsLikeField_iff_of_written hs).1 hfield with hkind | ⟨scope, negative, digits, rfl⟩
  · have hne : LineTest.reads .field ≠ .startsLikeField := by simp
    rw [hkind, ← not_before hne, ← not_before hne, h.field]
  · exact h.enumValue

theorem Agrees.read_eq (h : order.Agrees other) (line : List Char) :
    order.read line = other.read line := by
  by_cases hwritten : ∃ s, Written s line
  · obtain ⟨s, hs⟩ := hwritten
    rw [order.read_of_written hs, other.read_of_written hs]
    congr 1
    exact propext (and_congr_right fun hfield => h.before_iff hs hfield)
  · rw [not_exists] at hwritten
    rw [order.read_of_not_written hwritten, other.read_of_not_written hwritten]

end TestOrder

/-! ## The grammar in any order -/

namespace Grammar

/-- What a line does, given what was read from it. -/
def stepRead (nesting : Nesting) (line : List Char) (lineNumber : Nat) (current : Message) :
    Except Reason Statement → Except Fault Accepted
  | .error reason => .error (.rejected line reason)
  | .ok .blockEnd => endBlock nesting current
  | .ok (.messageStart name) => startMessage nesting name lineNumber current
  | .ok (.enumStart name) => startEnum nesting name current
  | .ok (.package name) => orReject line (declarePackage nesting name lineNumber current)
  | .ok (.field decl) => orReject line (addField nesting decl lineNumber current)
  | .ok (.enumValue label negative digits) =>
    orReject line (addEnumValue nesting label negative digits current)
  | .ok (.option name value) => orReject line (ignoreOption nesting name value lineNumber current)

theorem step_eq_stepRead (nesting : Nesting) (line : List Char) (n : Nat) (m : Message) :
    step nesting line n m = stepRead nesting line n m (ofLine line) := by
  unfold step stepRead
  rfl

end Grammar

/-- The grammar that tests each line in this order. -/
def grammarIn (order : TestOrder) : LineRules Nesting where
  apply nesting line lineNumber current :=
    match Grammar.stepRead nesting line lineNumber current (order.read line) with
    | .ok a =>
      { state := a.nesting, current := a.current, result := .ok a.signal, events := a.events }
    | .error fault => { state := nesting, current, result := .error fault }
  isClosed nesting := nesting = .topLevel

theorem grammarIn_standard : grammarIn .standard = grammar := by
  unfold grammarIn grammar
  congr 1
  funext nesting line n m
  have hstep := Grammar.step_eq_stepRead nesting line n m
  cases hread : Grammar.stepRead nesting line n m (ofLine line) with
  | ok a => simp only [TestOrder.read_standard, hstep, hread]
  | error fault => simp only [TestOrder.read_standard, hstep, hread]

namespace TestOrder

variable {order other : TestOrder} {line : List Char} {s : Statement}

theorem Agrees.grammarIn_eq (h : order.Agrees other) : grammarIn order = grammarIn other := by
  unfold grammarIn
  congr 1
  funext nesting line n m
  rw [h.read_eq]

/-- Where a statement may stand whose line starts like a field, the line is accepted exactly if it is
tested for the kind of the statement first. -/
theorem result_apply_eq_ok {nesting : Nesting} {n : Nat} {m : Message} {signal : Signal}
    (hs : Written s line) (hfield : startsLikeField line = true)
    (hstep : (Grammar.stepRead nesting line n m (.ok s)).map (·.signal) = .ok signal)
    (order : TestOrder) :
    ((grammarIn order).apply nesting line n m).result = .ok signal ↔
      order.Before (.reads s.kind) .startsLikeField := by
  have hne : LineTest.startsLikeField ≠ .reads s.kind := by simp
  by_cases hbefore : order.Before .startsLikeField (.reads s.kind)
  · have hread : order.read line = .error .malformedField := by
      rw [order.read_of_written hs, if_pos ⟨hfield, hbefore⟩]
    refine iff_of_false ?_ fun h => ?_
    · simp [grammarIn, hread, Grammar.stepRead]
    · exact absurd (Nat.lt_trans h hbefore) (Nat.lt_irrefl _)
  · have hread : order.read line = .ok s := by
      rw [order.read_of_written hs, if_neg fun h => hbefore h.2]
    refine iff_of_true ?_ ((not_before hne).1 hbefore)
    cases haccept : Grammar.stepRead nesting line n m (.ok s) with
    | error fault =>
      rw [haccept] at hstep
      cases hstep
    | ok a =>
      rw [haccept] at hstep
      simp only [grammarIn, hread, haccept]
      exact hstep

theorem result_apply_field (order : TestOrder) :
    ((grammarIn order).apply .inMessage "required int32 a = 1;".toList 1 {}).result = .ok {} ↔
      order.Before (.reads .field) .startsLikeField := by
  have hread : field?.whole? "required int32 a = 1;".toList =
      some (.field { scope := .required, type := .scalar .int32, name := "a", digits := ['1']
                     default? := none }) := by rfl
  have hs := (written_of_whole? (k := .field) hread).1
  exact result_apply_eq_ok hs (startsLikeField_of_kind_eq_field hs rfl) (by rfl) order

theorem result_apply_scopeLabel (order : TestOrder) :
    ((grammarIn order).apply .inEnum "required = 1;".toList 1 { enums := [{ name := "E" }] }).result =
        .ok {} ↔
      order.Before (.reads .enumValue) .startsLikeField := by
  have hread : enumValue?.whole? "required = 1;".toList =
      some (.enumValue "required" false ['1']) := by rfl
  have hs := (written_of_whole? (k := .enumValue) hread).1
  have hlabel : (Statement.enumValue "required" false ['1']).HasScopeLabel :=
    ⟨.required, false, ['1'], rfl⟩
  exact result_apply_eq_ok hs (startsLikeField_of_hasScopeLabel hs hlabel) (by rfl) order

/-- Orders give the same grammar exactly if they agree on the tests that share lines. -/
theorem grammarIn_eq_iff : grammarIn order = grammarIn other ↔ order.Agrees other := by
  constructor
  · intro h
    have hfield : order.Before (.reads .field) .startsLikeField ↔
        other.Before (.reads .field) .startsLikeField := by
      rw [← result_apply_field, h, result_apply_field]
    have henumValue : order.Before (.reads .enumValue) .startsLikeField ↔
        other.Before (.reads .enumValue) .startsLikeField := by
      rw [← result_apply_scopeLabel, h, result_apply_scopeLabel]
    have hne : LineTest.reads .enumValue ≠ .startsLikeField := by simp
    refine ⟨hfield, ?_⟩
    rw [← not_before hne, ← not_before hne, henumValue]
  · exact Agrees.grammarIn_eq

theorem agrees_standard_iff :
    order.Agrees standard ↔ order.Before (.reads .field) .startsLikeField ∧
      order.Before .startsLikeField (.reads .enumValue) := by
  have hfield : standard.Before (.reads .field) .startsLikeField := by decide
  have henumValue : standard.Before .startsLikeField (.reads .enumValue) := by decide
  exact ⟨fun h => ⟨h.field.2 hfield, h.enumValue.2 henumValue⟩,
    fun h => ⟨iff_of_true h.1 hfield, iff_of_true h.2 henumValue⟩⟩

end TestOrder

open Pattern

/-- On every line, the readers accept what the patterns match, and at most one of the seven patterns
matches. A line with a field starts with the keyword of a scope; of the lines that another pattern
matches only those do that hold an enum value whose label is such a keyword. So the grammar depends
on the order of its tests only through two pairs of them: orders give the same grammar exactly if
they agree on whether fields come before that keyword and that keyword before enum values. In the
order of the grammar both is so. -/
theorem patterns_disjoint :
    (∀ line : List Char,
      (∀ k : Kind, (k.reader.whole? line).isSome = true ↔ line ∈ k.pattern) ∧
      (startsLikeField line = true ↔ line ∈ scopePrefix) ∧
      (∀ k k' : Kind, line ∈ k.pattern → line ∈ k'.pattern → k = k') ∧
      (line ∈ Kind.field.pattern → line ∈ scopePrefix) ∧
      ∀ k : Kind, k ≠ .field → line ∈ k.pattern →
        (line ∈ scopePrefix ↔ ∃ (scope : Scope) (negative : Bool) (numeral : List Char),
          enumValue?.whole? line = some (.enumValue scope.keyword negative numeral))) ∧
    grammarIn .standard = grammar ∧
    (∀ order other : TestOrder, grammarIn order = grammarIn other ↔
      (order.Before (.reads .field) .startsLikeField ↔
        other.Before (.reads .field) .startsLikeField) ∧
      (order.Before .startsLikeField (.reads .enumValue) ↔
        other.Before .startsLikeField (.reads .enumValue))) ∧
    ∀ order : TestOrder, grammarIn order = grammar ↔
      order.Before (.reads .field) .startsLikeField ∧
        order.Before .startsLikeField (.reads .enumValue) := by
  refine ⟨fun line => ⟨fun _ => isSome_whole?_iff, startsLikeField_iff_mem,
    fun _ _ => kind_unique, fun h => (mem_scopePrefix_iff h).2 (.inl rfl), fun k hk h => ?_⟩,
    grammarIn_standard, fun order other => ?_, fun order => ?_⟩
  · rw [mem_scopePrefix_iff h, or_iff_right hk]
  · rw [TestOrder.grammarIn_eq_iff]
    exact ⟨fun h => ⟨h.field, h.enumValue⟩, fun h => ⟨h.1, h.2⟩⟩
  · rw [← grammarIn_standard, TestOrder.grammarIn_eq_iff, TestOrder.agrees_standard_iff]

/-- A line that starts like a field and holds an enum value, and two orders of the tests. -/
theorem patterns_disjoint_runs :
    let line := "required = -1;".toList
    let mixed : TestOrder :=
      ⟨[.reads .option, .reads .field, .reads .enumStart, .startsLikeField, .reads .enumValue,
        .reads .package, .reads .blockEnd, .reads .messageStart], by decide⟩
    let late : TestOrder :=
      ⟨[.reads .blockEnd, .reads .package, .reads .messageStart, .reads .enumStart, .reads .field,
        .reads .enumValue, .startsLikeField, .reads .option], by decide⟩
    line ∈ Kind.enumValue.pattern ∧ line ∈ scopePrefix ∧ line ∉ Kind.option.pattern ∧
      grammarIn mixed = grammar ∧ grammarIn late ≠ grammar := by
  intro line mixed late
  obtain ⟨hlines, -, -, horders⟩ := patterns_disjoint
  obtain ⟨hreads, -, hunique, -, hscope⟩ := hlines line
  have hread : enumValue?.whole? line = some (.enumValue Scope.required.keyword true ['1']) := by rfl
  have hvalue : line ∈ Kind.enumValue.pattern :=
    (hreads .enumValue).1 (Option.isSome_of_eq_some hread)
  refine ⟨hvalue, (hscope .enumValue (by decide) hvalue).2 ⟨_, _, _, hread⟩, fun h => ?_, ?_, ?_⟩
  · exact absurd (hunique _ _ hvalue h) (by decide)
  · exact (horders mixed).2 (by decide)
  · exact fun h => absurd ((horders late).1 h) (by decide)

end ProtoSchema
