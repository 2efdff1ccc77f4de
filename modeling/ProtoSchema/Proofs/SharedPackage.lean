import ProtoSchema.LineRules.Replay
import ProtoSchema.Proofs.Calls

/-!
# The shared package

The first package that is declared is shared by all messages from then on, those included that are
under construction. This holds call by call, after failing calls too, for all rules that leave the
package of a message alone (`LineRules.KeepsPackage`), whatever they signal.

**One call.** A call first takes the package of the signal it obeys and then finishes the message
that the signal closes, so a signal that does both gives the package to that message.

**Runs.** `Shares` is kept by every call: the message under construction is in the shared package,
and the finished ones have none up to some point and the shared one behind it.

Results:
* `package?_feed`, `finished_feed`: what a call makes of the package and of the finished messages;
* `Shares.feed`, `Shares.feedAll`: every call keeps the invariant;
* `package?_feedAll`: the shared package is the first one that was signalled;
* `package_after_calls`: all of it, after any calls.
-/
namespace ProtoSchema

/-- Rules that leave the package of the message under construction as it is, whatever they reply. -/
def LineRules.KeepsPackage {σ : Type} (rules : LineRules σ) : Prop :=
  ∀ state line n current,
    (rules.apply state line n current).current.package? = current.package?

theorem grammar_keepsPackage : grammar.KeepsPackage :=
  fun nesting line n m => (apply_frame nesting line n m).package

theorem replay_keepsPackage : replay.KeepsPackage :=
  fun _ _ _ _ => rfl

namespace Assembly

variable {σ : Type} {rules : LineRules σ} {policy : Policy} {a : Assembly σ}

/-- The signals that the calls of a run obey, in order. -/
def signals (rules : LineRules σ) (policy : Policy) (a : Assembly σ) (inputs : List Input) :
    List Signal :=
  (a.calls rules policy inputs).filterMap fun call => call.1.signal? rules policy call.2

/-- The message under construction is in the shared package. Of the finished ones the first have
none, and the others are in the shared one. -/
structure Shares (a : Assembly σ) : Prop where
  current : a.current.package? = a.package?
  finished : ∃ k l,
    a.finished.map (·.package?) = List.replicate k none ++ List.replicate l a.package?

theorem shares_fresh (state : σ) : ({ state } : Assembly σ).Shares :=
  ⟨rfl, 0, 0, rfl⟩

/-! ## One call -/

theorem replied_current_package? (hrules : rules.KeepsPackage) (a : Assembly σ) (input : Input) :
    (a.replied rules input).current.package? = a.current.package? := by
  unfold replied
  split
  · rw [arrive_current]
  · exact hrules _ _ _ _

theorem feed_next_of_keepsPackage (hrules : rules.KeepsPackage)
    (hcurrent : a.current.package? = a.package?) (input : Input) :
    (a.feed rules policy input).next =
      let b := a.replied rules input
      let signal := (a.signal? rules policy input).getD {}
      let package? := b.package?.or signal.package?
      let current := { b.current with package? }
      if signal.closed then
        { b with current := .blank package?, package?, finished := b.finished ++ [current] }
      else { b with current, package? } := by
  have hreplied : (a.replied rules input).current.package? =
      (a.replied rules input).package? := by
    rw [replied_current_package? hrules, replied_package?, hcurrent]
  rw [feed_next, obey_eq hreplied]

theorem package?_feed (hrules : rules.KeepsPackage) (hcurrent : a.current.package? = a.package?)
    (input : Input) :
    (a.feed rules policy input).next.package? =
      a.package?.or ((a.signal? rules policy input).bind (·.package?)) := by
  have hreplied : (a.replied rules input).package? = a.package? := a.replied_package? input
  rw [feed_next_of_keepsPackage hrules hcurrent, ← hreplied]
  cases a.signal? rules policy input with
  | none => rfl
  | some signal =>
    simp only [Option.getD_some, Option.bind_some]
    split <;> rfl

theorem current_package?_feed (hrules : rules.KeepsPackage)
    (hcurrent : a.current.package? = a.package?) (input : Input) :
    (a.feed rules policy input).next.current.package? =
      (a.feed rules policy input).next.package? := by
  rw [feed_next_of_keepsPackage hrules hcurrent]
  simp only
  split <;> rfl

/-- A message is finished by a signal that closes it, with the package that is shared behind that
very call. -/
theorem finished_feed (hrules : rules.KeepsPackage) (hcurrent : a.current.package? = a.package?)
    (input : Input) :
    (a.feed rules policy input).next.finished =
      a.finished ++
        if (a.signal? rules policy input).any (·.closed) then
          [{ (a.replied rules input).current with
              package? := (a.feed rules policy input).next.package? }]
        else [] := by
  rw [package?_feed hrules hcurrent, feed_next_of_keepsPackage hrules hcurrent]
  cases a.signal? rules policy input with
  | none => simp
  | some signal =>
    simp only [Option.getD_some, Option.any_some, Option.bind_some, replied_package?,
      replied_finished]
    split <;> simp

/-! ## Runs -/

theorem Shares.feed (h : a.Shares) (hrules : rules.KeepsPackage) (policy : Policy)
    (input : Input) : (a.feed rules policy input).next.Shares := by
  refine ⟨current_package?_feed hrules h.current input, ?_⟩
  obtain ⟨k, l, hfinished⟩ := h.finished
  -- While no package is shared, all finished messages have none, and so they count as the first.
  have hbefore : ∃ k l, a.finished.map (·.package?) = List.replicate k none ++
      List.replicate l (a.feed rules policy input).next.package? := by
    rw [package?_feed hrules h.current]
    cases hpackage : a.package? with
    | none => exact ⟨k + l, 0, by rw [hfinished, hpackage, List.replicate_append_replicate]; simp⟩
    | some name => exact ⟨k, l, by rw [hfinished, hpackage, Option.some_or]⟩
  obtain ⟨k, l, hbefore⟩ := hbefore
  rw [finished_feed hrules h.current, List.map_append, hbefore]
  split
  · exact ⟨k, l + 1, by simp [List.replicate_succ']⟩
  · exact ⟨k, l, by simp⟩

theorem Shares.feedAll (h : a.Shares) (hrules : rules.KeepsPackage) (policy : Policy)
    (inputs : List Input) : (a.feedAll rules policy inputs).1.Shares := by
  induction inputs generalizing a with
  | nil => exact h
  | cons input inputs ih => exact ih (h.feed hrules policy input)

theorem package?_feedAll (h : a.Shares) (hrules : rules.KeepsPackage) (inputs : List Input) :
    (a.feedAll rules policy inputs).1.package? =
      a.package?.or ((a.signals rules policy inputs).findSome? (·.package?)) := by
  induction inputs generalizing a with
  | nil => exact Option.or_none.symm
  | cons input inputs ih =>
    rw [Assembly.feedAll, ih (h.feed hrules policy input), package?_feed hrules h.current, signals,
      signals, calls, List.filterMap_cons, Option.or_assoc]
    cases a.signal? rules policy input with
    | none => rfl
    | some signal =>
      rw [List.findSome?_cons]
      cases hsignal : signal.package? <;> simp [hsignal]

theorem eq_finished_of_finish {messages : List Message}
    (h : (a.finish rules policy).result = .ok messages) : messages = a.finished := by
  unfold finish at h
  split at h
  · cases h
  · exact (Except.ok.inj h).symm

/-- After any calls, failing ones included, under rules that keep the package: the message under
construction is in the shared package, which is the first one that an obeyed signal brought and
never changes again. The next call finishes a message only if it obeys a signal that closes it, and
gives it the package that is shared by then. So the finished messages, which are the ones handed out
in the end, have no package up to some point and the shared one behind it. -/
theorem package_after_calls {σ : Type} (rules : LineRules σ) (hrules : rules.KeepsPackage)
    (state : σ) (policy : Policy) (inputs : List Input) :
    let a := (({ state } : Assembly σ).feedAll rules policy inputs).1
    a.current.package? = a.package? ∧
    a.package? = (({ state } : Assembly σ).signals rules policy inputs).findSome? (·.package?) ∧
    (∀ name, a.package? = some name →
      ∀ more, (a.feedAll rules policy more).1.package? = some name) ∧
    (∀ input,
      let b := (a.feed rules policy input).next
      b.finished = a.finished ++
        if (a.signal? rules policy input).any (·.closed) then
          [{ (a.replied rules input).current with package? := b.package? }]
        else []) ∧
    (∃ k l name,
      a.finished.map (·.package?) = List.replicate k none ++ List.replicate l (some name) ∧
      (l ≠ 0 → a.package? = some name)) ∧
    ∀ messages, (a.finish rules policy).result = .ok messages → messages = a.finished := by
  intro a
  have hshares : a.Shares := (shares_fresh state).feedAll hrules policy inputs
  have hpackage : a.package? =
      (({ state } : Assembly σ).signals rules policy inputs).findSome? (·.package?) :=
    package?_feedAll (shares_fresh state) hrules inputs
  refine ⟨hshares.current, hpackage, fun name hname more => ?_,
    finished_feed hrules hshares.current, ?_, fun messages => eq_finished_of_finish⟩
  · rw [package?_feedAll hshares hrules, hname, Option.some_or]
  · obtain ⟨k, l, hfinished⟩ := hshares.finished
    cases hshared : a.package? with
    | none =>
      refine ⟨k + l, 0, "", ?_, fun h => absurd rfl h⟩
      rw [hfinished, hshared, List.replicate_append_replicate]
      simp
    | some name => exact ⟨k, l, name, by rw [hfinished, hshared], fun _ => rfl⟩

/-- A rejected line with a package, a signal that closes a message, and one that closes the next
message and brings a package at the same time. -/
theorem package_after_calls_runs :
    let edits : List Edit :=
      [{ fault? := some .noMessages, signal := { package? := some "o" } },
        { signal := { closed := true } },
        { signal := { closed := true, package? := some "p" } }]
    let a := (({ state := { edits } } : Assembly ReplayState).feedAll replay {}
      [.text ['a'], .code ['b'], .text ['c']]).1
    a.finished.map (·.package?) = [none, some "p"] ∧ a.package? = some "p" ∧
      ∀ more, (a.feedAll replay {} more).1.package? = some "p" := by
  intro edits a
  have h := package_after_calls replay replay_keepsPackage { edits } {}
    [.text ['a'], .code ['b'], .text ['c']]
  have hpackage : a.package? = some "p" := by decide
  exact ⟨by decide, hpackage, h.2.2.1 "p" hpackage⟩

end Assembly

end ProtoSchema
