import ProtoSchema.Proofs.LineEffects

/-!
# Reported ids

An assembly that looks for repeated ids while reading may be used on after a failing call. Then the
search at the end adds nothing: as long as no call reported a repeated id the end reports none, and
once a call reported one the end cannot succeed, nor report another one.

**Runs.** `feedAll` makes one call after the other, whatever the calls before returned, and keeps
what each of them returned.

**Rules.** The first half holds for all rules that only ever add fields behind the fields of the
message (`LineRules.AppendOnly`). The second half is about the grammar.

Results:
* `idFault?_feedAll`: without a report all ids are distinct after every call;
* `idFault?_feedAll_of_reported`: the first report is the first fault of every later assembly;
* `finish_after_calls`: what the end reports after any calls.
-/
namespace ProtoSchema

/-- What a call returned reports a repeated field id. -/
def Reports (outcome : Option Failure) : Prop :=
  ∃ failure, outcome = some failure ∧ failure.fault.IsRepeatedId

/-- Rules under which an accepted line only adds fields, at the end of the message under
construction, and a rejected line leaves its fields as they are. -/
structure LineRules.AppendOnly {σ : Type} (rules : LineRules σ) : Prop where
  accepted : ∀ {state line n current signal},
    (rules.apply state line n current).result = .ok signal →
      current.fields <+: (rules.apply state line n current).current.fields
  rejected : ∀ {state line n current fault},
    (rules.apply state line n current).result = .error fault →
      (rules.apply state line n current).current.fields = current.fields

theorem grammar_appendOnly : grammar.AppendOnly where
  accepted := fun _ => (apply_frame _ _ _ _).extends.fields
  rejected := fun h => by rw [(apply_unchanged h).2]

namespace Assembly

section Rules

variable {σ : Type} {rules : LineRules σ} {policy : Policy}

/-- The assembly behind these calls and what each of them returned. -/
def feedAll (rules : LineRules σ) (policy : Policy) (a : Assembly σ) :
    List Input → Assembly σ × List (Option Failure)
  | [] => (a, [])
  | input :: inputs =>
    let step := a.feed rules policy input
    let run := step.next.feedAll rules policy inputs
    (run.1, step.failure? :: run.2)

/-! ## Without a report -/

theorem idFault?_of_fields {a b : Assembly σ} (hnone : a.idFault? = none)
    (hfinished : b.finished = a.finished) (hfields : (b.current.fields.map (·.id)).Nodup) :
    b.idFault? = none := by
  rw [idFault?_eq_or, Option.or_eq_none_iff] at hnone
  rw [idFault?_eq_or, hfinished, hnone.1, Message.idFault?_eq_none.2 hfields]
  rfl

theorem idFault?_apply {a : Assembly σ} (hrules : rules.AppendOnly)
    (hpolicy : policy.idCheck = .whileReading) (hnone : a.idFault? = none) {line : List Char}
    (hreport : ¬ Reports (a.apply rules policy line).failure?) :
    (a.apply rules policy line).next.idFault? = none := by
  have hnodup : (a.current.fields.map (·.id)).Nodup := by
    rw [idFault?_eq_or, Option.or_eq_none_iff] at hnone
    exact Message.idFault?_eq_none.1 hnone.2
  unfold apply at hreport ⊢
  split
  · exact hnone
  · next hline =>
    rw [if_neg hline] at hreport
    simp only at hreport ⊢
    cases hresult : (rules.apply a.state line a.lineCount a.current).result with
    | error fault =>
      exact idFault?_of_fields hnone rfl (by rw [hrules.rejected hresult]; exact hnodup)
    | ok signal =>
      obtain ⟨more, hmore⟩ := hrules.accepted hresult
      have hnew := Message.idFaultFrom?_eq_idFault? hmore.symm hnodup
      simp only [hresult, newIdFault?, hpolicy, hnew] at hreport ⊢
      cases hfault : (rules.apply a.state line a.lineCount a.current).current.idFault? with
      | some fault =>
        rw [hfault] at hreport
        exact absurd ⟨_, rfl, Message.isRepeatedId_of_idFault? hfault⟩ hreport
      | none =>
        simp only [obey_idFault?]
        exact idFault?_of_fields hnone rfl (Message.idFault?_eq_none.1 hfault)

theorem idFault?_feed {a : Assembly σ} (hrules : rules.AppendOnly)
    (hpolicy : policy.idCheck = .whileReading) (hnone : a.idFault? = none) {input : Input}
    (hreport : ¬ Reports (a.feed rules policy input).failure?) :
    (a.feed rules policy input).next.idFault? = none := by
  obtain ⟨n, line, hfeed⟩ := a.feed_eq_apply input
  rw [hfeed] at hreport ⊢
  exact idFault?_apply (a := a.atLine n) hrules hpolicy hnone hreport

theorem idFault?_feedAll {a : Assembly σ} (hrules : rules.AppendOnly)
    (hpolicy : policy.idCheck = .whileReading) (hnone : a.idFault? = none) {inputs : List Input}
    (hreports : ∀ outcome ∈ (a.feedAll rules policy inputs).2, ¬ Reports outcome) :
    (a.feedAll rules policy inputs).1.idFault? = none := by
  induction inputs generalizing a with
  | nil => exact hnone
  | cons input inputs ih =>
    have hnext := idFault?_feed hrules hpolicy hnone (hreports _ List.mem_cons_self)
    exact ih hnext fun outcome h => hreports outcome (List.mem_cons_of_mem _ h)

end Rules

/-! ## After a report -/

variable {a : Assembly Nesting} {policy : Policy}

theorem idFault?_feed_of_reported (hpolicy : policy.idCheck = .whileReading)
    (hnone : a.idFault? = none) {input : Input} {failure : Failure}
    (hfailure : (a.feed grammar policy input).failure? = some failure)
    (hrepeated : failure.fault.IsRepeatedId) :
    (a.feed grammar policy input).next.idFault? = some failure.fault := by
  obtain ⟨n, line, hfeed⟩ := a.feed_eq_apply input
  rw [hfeed] at hfailure ⊢
  rcases apply_cases policy (a.atLine n) line with
    ⟨_, hnothing, _⟩ | ⟨_, _, _, hrejected, _⟩ | ⟨_, _, accepted, _, htakes, hasked, hnext⟩
  · cases hnothing.symm.trans hfailure
  · cases hrejected.symm.trans hfailure
    obtain ⟨_, _, _, hrepeated⟩ := hrepeated
    cases hrepeated
  · obtain ⟨fault, hfault, rfl⟩ := Option.map_eq_some_iff.1 (hasked.symm.trans hfailure)
    rw [hnext]
    rwa [newIdFault?_whileReading (a := a.atLine n) hpolicy hnone htakes] at hfault

theorem Linked.feed (h : a.Linked) (policy : Policy) (input : Input) :
    (a.feed grammar policy input).next.Linked := by
  obtain ⟨n, line, hfeed⟩ := a.feed_eq_apply input
  rw [hfeed, apply_next]
  exact (h.atLine n).advance line

theorem Linked.feedAll (h : a.Linked) (policy : Policy) (inputs : List Input) :
    (a.feedAll grammar policy inputs).1.Linked := by
  induction inputs generalizing a with
  | nil => exact h
  | cons input inputs ih => exact ih (h.feed policy input)

/-- Whatever calls follow, the first fault stays. -/
theorem idFault?_feedAll_of_eq_some (h : a.Linked) {fault : Fault}
    (hfault : a.idFault? = some fault) (inputs : List Input) :
    (a.feedAll grammar policy inputs).1.idFault? = some fault := by
  induction inputs generalizing a with
  | nil => exact hfault
  | cons input inputs ih =>
    refine ih (h.feed policy input) ?_
    obtain ⟨n, line, hfeed⟩ := a.feed_eq_apply input
    rw [hfeed, apply_next]
    exact idFault?_advance_of_eq_some (h.atLine n) hfault line

/-- The first report is the first fault of every later assembly. -/
theorem idFault?_feedAll_of_reported (h : a.Linked) (hpolicy : policy.idCheck = .whileReading)
    (hnone : a.idFault? = none) {inputs : List Input} {before after : List (Option Failure)}
    {failure : Failure}
    (houtcomes : (a.feedAll grammar policy inputs).2 = before ++ some failure :: after)
    (hbefore : ∀ outcome ∈ before, ¬ Reports outcome) (hrepeated : failure.fault.IsRepeatedId) :
    (a.feedAll grammar policy inputs).1.idFault? = some failure.fault := by
  induction inputs generalizing a before with
  | nil => cases before <;> cases houtcomes
  | cons input inputs ih =>
    cases before with
    | nil =>
      obtain ⟨hfailure, _⟩ := List.cons.inj houtcomes
      have hnext := idFault?_feed_of_reported hpolicy hnone hfailure hrepeated
      exact idFault?_feedAll_of_eq_some (h.feed policy input) hnext inputs
    | cons outcome before =>
      obtain ⟨houtcome, hrest⟩ := List.cons.inj houtcomes
      have hnext : (a.feed grammar policy input).next.idFault? = none :=
        idFault?_feed grammar_appendOnly hpolicy hnone
          (houtcome ▸ hbefore outcome List.mem_cons_self)
      exact ih (h.feed policy input) hnext hrest
        fun o ho => hbefore o (List.mem_cons_of_mem _ ho)

/-- What the end reports after any calls with the search while reading. Without a report it reports
no repeated id, under all rules that only append. Under the grammar, once a repeated id was
reported, the end finds an open block or the first one that was reported. -/
theorem finish_after_calls (emptyInput : EmptyInput) (inputs : List Input) :
    (∀ {σ : Type} (rules : LineRules σ) (state : σ), rules.AppendOnly →
      (∀ outcome ∈ (({ state } : Assembly σ).feedAll rules ⟨.whileReading, emptyInput⟩ inputs).2,
        ¬ Reports outcome) →
      ∀ failure,
        ((({ state } : Assembly σ).feedAll rules ⟨.whileReading, emptyInput⟩ inputs).1.finish rules
          ⟨.whileReading, emptyInput⟩).result = .error failure → ¬ failure.fault.IsRepeatedId) ∧
    grammar.AppendOnly ∧
    ∀ before line message field id after,
      (start.feedAll grammar ⟨.whileReading, emptyInput⟩ inputs).2 =
        before ++ some ⟨line, .duplicateFieldId message field id⟩ :: after →
      (∀ outcome ∈ before, ¬ Reports outcome) →
      ∃ last fault,
        ((start.feedAll grammar ⟨.whileReading, emptyInput⟩ inputs).1.finish grammar
          ⟨.whileReading, emptyInput⟩).result = .error ⟨last, fault⟩ ∧
        (fault = .unclosedMessage ∨ fault = .duplicateFieldId message field id) := by
  refine ⟨fun rules state hrules hreports failure hfinish => ?_, grammar_appendOnly,
    fun before line message field id after houtcomes hbefore => ?_⟩
  · have hnone := idFault?_feedAll hrules rfl (a := { state }) rfl hreports
    exact finish_of_idFault?_eq_none hnone hfinish
  · have hfault := idFault?_feedAll_of_reported linked_start rfl rfl houtcomes hbefore
      ⟨message, field, id, rfl⟩
    have hlinked := linked_start.feedAll ⟨.whileReading, emptyInput⟩ inputs
    refine ⟨_, _, finish_of_endFault? (endFault?_of_idFault? hlinked hfault), ?_⟩
    split
    · exact .inr rfl
    · exact .inl rfl

/-- A message that is left open without a repeated id, and one that is closed after a report. -/
theorem finish_after_calls_runs :
    (∀ failure,
      ((start.feedAll grammar {} [.text "message A \x7b".toList]).1.finish grammar {}).result =
        .error failure → ¬ failure.fault.IsRepeatedId) ∧
    ∃ last fault,
      ((start.feedAll grammar {}
        [.text "message A \x7b".toList, .text "required int32 a = 1;".toList,
          .code "optional bool b = 1;".toList, .text "\x7d".toList]).1.finish grammar {}).result =
        .error ⟨last, fault⟩ ∧
      (fault = .unclosedMessage ∨ fault = .duplicateFieldId "A" "b" 1) := by
  refine ⟨?_, ?_⟩
  · refine (finish_after_calls .accept _).1 grammar .topLevel grammar_appendOnly ?_
    intro outcome h ⟨failure, hfailure, _⟩
    have hmem : outcome ∈ ([none] : List (Option Failure)) := h
    rw [show outcome = none by simpa using hmem] at hfailure
    cases hfailure
  · refine (finish_after_calls .accept _).2.2 [none, none] 2 "A" "b" 1 [none] (by rfl) ?_
    intro outcome h ⟨failure, hfailure, _⟩
    rw [show outcome = none by simpa using h] at hfailure
    cases hfailure

end Assembly

end ProtoSchema
