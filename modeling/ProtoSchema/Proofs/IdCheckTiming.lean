import ProtoSchema.Proofs.Runs

/-!
# When repeated ids are looked for

Looking for repeated field ids while reading and looking for them at the end accept the same texts
with the same messages, and fail alike on every text without a repeated id. On a text with one, the
search while reading stops at the first field that repeats an id. The search at the end reads on,
so that a rejected line behind it or an open block comes first.

**What the text says.** `FirstRepeat` is about the clauses of the text alone: the field, its message
and the fields in front of it, without an assembly.

**The invariant.** `HasRead a clauses`: the assembly has read these clauses and met no repeated id,
and the message under construction is the one that the clauses end in.

Results:
* `HasRead.accept`: an accepted line without a repeated id keeps the invariant;
* `HasRead.repeats`: the first accepted line with one holds the first field that repeats an id;
* `HasRead.complete`: from there on the two searches fit each other;
* `complete_of_idFault?`: what a search at the end comes to behind a repeated id;
* `compileText_idCheck`: the two searches agree.
-/
namespace ProtoSchema

open Text

/-! ## Repeated ids in a text -/

/-- The clauses of a text in source order; lines that say nothing are passed over. -/
def textClauses (text : String) : List Clause :=
  (codeLines 0 (textLines text.toList)).filterMap Clause.ofLine?

/-- The message that a line stands in, as declared so far, with one more clause. -/
def Message.declare (m : Message) : Clause → Message
  | .messageStart name line => { name, line }
  | .field f => { m with fields := m.fields ++ [f] }
  | _ => m

/-- The message that a line behind these clauses stands in, as declared so far. -/
def messageBehind (clauses : List Clause) : Message :=
  clauses.foldl Message.declare {}

/-- Behind these clauses, the field repeats the id of an earlier field of its message. -/
def RepeatsId (clauses : List Clause) (f : Field) : Prop :=
  f.id ∈ (messageBehind clauses).fields.map (·.id)

/-- No field of these clauses repeats the id of an earlier field of its message. -/
def DistinctIds (clauses : List Clause) : Prop :=
  ∀ front f behind, clauses = front ++ .field f :: behind → ¬ RepeatsId front f

/-- The first field of the clauses that repeats an id of its message, and the name of that
message. -/
def FirstRepeat (clauses : List Clause) (message : String) (f : Field) : Prop :=
  ∃ front behind, clauses = front ++ .field f :: behind ∧ DistinctIds front ∧
    RepeatsId front f ∧ (messageBehind front).name = message

theorem messageBehind_concat (clauses : List Clause) (clause : Clause) :
    messageBehind (clauses ++ [clause]) = (messageBehind clauses).declare clause := by
  rw [messageBehind, List.foldl_append]
  rfl

theorem distinctIds_nil : DistinctIds [] := by
  intro front f behind h
  cases front <;> cases h

theorem DistinctIds.concat {clauses : List Clause} {clause : Clause} (h : DistinctIds clauses)
    (hclause : ∀ f, clause = .field f → ¬ RepeatsId clauses f) :
    DistinctIds (clauses ++ [clause]) := by
  intro front f behind heq
  rcases List.eq_nil_or_concat behind with rfl | ⟨init, last, rfl⟩
  · obtain ⟨rfl, hlast⟩ := List.append_inj' heq rfl
    exact hclause f (List.cons.inj hlast).1
  · rw [List.concat_eq_append, ← List.cons_append, ← List.append_assoc] at heq
    obtain ⟨rfl, _⟩ := List.append_inj' heq rfl
    exact h front f init rfl

namespace Grammar.Takes

variable {n : Nat} {nesting : Nesting} {m : Message} {clause : Clause} {accepted : Accepted}

/-- Inside a message its name and its fields follow what the clauses declare. -/
theorem declare {soFar : Message} (h : Takes n nesting m clause accepted)
    (hblank : nesting = .topLevel → m.fields = [])
    (hsoFar : nesting ≠ .topLevel → m.name = soFar.name ∧ m.fields = soFar.fields)
    (hnesting : accepted.nesting ≠ .topLevel) :
    accepted.current.name = (soFar.declare clause).name ∧
      accepted.current.fields = (soFar.declare clause).fields := by
  cases h with
  | messageStart => exact ⟨rfl, hblank rfl⟩
  | messageEnd => exact absurd rfl hnesting
  | enumStart | enumEnd | enumValue => exact hsoFar nofun
  | package | option => exact hsoFar hnesting
  | field =>
    obtain ⟨hname, hfields⟩ := hsoFar nofun
    exact ⟨hname, by rw [Message.declare, hfields]⟩

theorem of_field {f : Field} (h : Takes n nesting m (.field f) accepted) :
    nesting = .inMessage ∧ accepted.current.fields = m.fields ++ [f] := by
  cases h
  exact ⟨rfl, rfl⟩

/-- Behind distinct ids only a field can repeat one. -/
theorem idFault?_eq_some {fault : Fault} (h : Takes n nesting m clause accepted)
    (hm : (m.fields.map (·.id)).Nodup) (hfault : accepted.current.idFault? = some fault) :
    ∃ f, clause = .field f ∧ nesting = .inMessage ∧ f.id ∈ m.fields.map (·.id) ∧
      fault = .duplicateFieldId m.name f.name f.id := by
  have hnone : firstRepeat? [] m.fields = none := by simp [firstRepeat?_eq_none, hm]
  cases h with
  | @field m f =>
    obtain ⟨g, hg, rfl⟩ := Option.map_eq_some_iff.1 hfault
    rw [firstRepeat?_append hnone, List.append_nil, firstRepeat?] at hg
    split at hg
    · next hseen =>
      obtain rfl := Option.some.inj hg
      exact ⟨f, rfl, rfl, hseen, rfl⟩
    · cases hg
  | messageStart | messageEnd | enumStart | enumEnd | enumValue | package | option =>
    rw [Message.idFault?, hnone] at hfault
    cases hfault

end Grammar.Takes

namespace Assembly

variable {a : Assembly Nesting} {clauses : List Clause} {clause : Clause}
  {accepted : Grammar.Accepted}

/-! ## Up to the first repeated id -/

/-- The assembly has read these clauses, which have no repeated id. -/
structure HasRead (a : Assembly Nesting) (clauses : List Clause) : Prop where
  linked : a.Linked
  idFault? : a.idFault? = none
  distinct : DistinctIds clauses
  current : a.state ≠ .topLevel → a.current.name = (messageBehind clauses).name ∧
    a.current.fields = (messageBehind clauses).fields

theorem hasRead_start : start.HasRead [] :=
  ⟨linked_start, rfl, distinctIds_nil, fun h => absurd rfl h⟩

theorem HasRead.atLine (h : a.HasRead clauses) (n : Nat) : (a.atLine n).HasRead clauses :=
  ⟨h.linked.atLine n, h.idFault?, h.distinct, h.current⟩

/-- An accepted line with a repeated id holds the first field that repeats one. -/
theorem HasRead.repeats (h : a.HasRead clauses)
    (htakes : Grammar.Takes a.lineCount a.state a.current clause accepted) {fault : Fault}
    (hfault : (a.accept accepted).idFault? = some fault) :
    ∃ f, clause = .field f ∧ RepeatsId clauses f ∧
      fault = .duplicateFieldId (messageBehind clauses).name f.name f.id := by
  obtain ⟨hfinished, hcurrent⟩ := current_idFault?_of_eq_none h.idFault?
  rw [accept_idFault?, hfinished, Option.none_or] at hfault
  obtain ⟨f, rfl, hstate, hid, rfl⟩ := htakes.idFault?_eq_some hcurrent hfault
  obtain ⟨hname, hfields⟩ := h.current (by rw [hstate]; nofun)
  exact ⟨f, rfl, by rwa [RepeatsId, ← hfields], by rw [hname]⟩

theorem HasRead.accept (h : a.HasRead clauses)
    (htakes : Grammar.Takes a.lineCount a.state a.current clause accepted)
    (hnone : (a.accept accepted).idFault? = none) :
    (a.accept accepted).HasRead (clauses ++ [clause]) := by
  refine ⟨h.linked.accept htakes, hnone, h.distinct.concat fun f hclause hrepeats => ?_,
    fun hstate => ?_⟩
  · subst hclause
    obtain ⟨hstate, hfields⟩ := htakes.of_field
    have hnodup : (accepted.current.fields.map (·.id)).Nodup := by
      rw [accept_idFault?, Option.or_eq_none_iff] at hnone
      exact Message.idFault?_eq_none.1 hnone.2
    rw [RepeatsId, ← (h.current (by rw [hstate]; nofun)).2] at hrepeats
    rw [hfields, List.map_append, List.nodup_append] at hnodup
    exact hnodup.2.2 _ hrepeats _ List.mem_cons_self rfl
  · rw [messageBehind_concat]
    cases hclosed : accepted.signal.closed with
    | true =>
      rw [accept_eq_of_closed htakes hclosed] at hstate
      exact absurd rfl hstate
    | false =>
      rw [h.linked.accept_eq htakes hclosed] at hstate ⊢
      refine htakes.declare (fun htop => ?_) h.current hstate
      rw [h.linked.blank htop]
      rfl

end Assembly

/-! ## Behind the first repeated id -/

/-- What reading on up to line `count` comes to behind line `line`, on which an id was repeated:
the repeated id or an open block at the end, unless a line is rejected first. -/
def LateResult (line count : Nat) (fault : Fault) (result : Except Failure (List Message)) : Prop :=
  result = .error ⟨count, fault⟩ ∨ result = .error ⟨count, .unclosedMessage⟩ ∨
    ∃ later shown reason, line < later ∧ result = .error ⟨later, .unrecognizedLine shown reason⟩

theorem LateResult.mono {line line' count : Nat} {fault : Fault}
    {result : Except Failure (List Message)} (h : LateResult line' count fault result)
    (hline : line ≤ line') : LateResult line count fault result := by
  rcases h with h | h | ⟨later, shown, reason, hlater, h⟩
  · exact .inl h
  · exact .inr (.inl h)
  · exact .inr (.inr ⟨later, shown, reason, Nat.lt_of_le_of_lt hline hlater, h⟩)

theorem LateResult.ne_ok {line count : Nat} {fault : Fault}
    {result : Except Failure (List Message)} (h : LateResult line count fault result)
    (messages : List Message) : result ≠ .ok messages := by
  rcases h with rfl | rfl | ⟨_, _, _, _, rfl⟩ <;> nofun

/-- A repeated id that reading on comes to is the one from before. -/
theorem LateResult.fault_eq {line count last : Nat} {fault fault' : Fault}
    (h : LateResult line count fault (.error ⟨last, fault'⟩)) (hrepeated : fault'.IsRepeatedId) :
    fault' = fault := by
  obtain ⟨message, field, id, rfl⟩ := hrepeated
  rcases h with h | h | ⟨_, _, _, _, h⟩
  · cases h
    rfl
  · cases h
  · cases h

namespace Assembly

variable {a : Assembly Nesting} {clauses : List Clause}

theorem complete_of_idFault? (h : a.Linked) {fault : Fault} (hfault : a.idFault? = some fault)
    (hcount : 0 < a.lineCount) (emptyInput : EmptyInput) (lines : List (List Char)) :
    LateResult a.lineCount (a.lineCount + lines.length) fault
      (a.complete grammar ⟨.atEnd, emptyInput⟩ (lines.map some)).result := by
  induction lines generalizing a with
  | nil =>
    have hline : a.lineNumber = a.lineCount := Nat.max_eq_left hcount
    rw [List.map_nil, complete_nil, finish_of_endFault? (endFault?_of_idFault? h hfault), hline]
    split
    · exact .inl rfl
    · exact .inr (.inl rfl)
  | cons line lines ih =>
    have hnext : a.lineCount + (line :: lines).length = a.lineCount + 1 + lines.length := by
      rw [List.length_cons]
      omega
    rw [List.map_cons, hnext]
    have hlinked := h.atLine (a.lineCount + 1)
    by_cases hline : code line = []
    · rw [complete_blank hline]
      exact (ih hlinked hfault (Nat.succ_pos _)).mono (Nat.le_succ _)
    · cases hstep : Grammar.step a.state (code line) (a.lineCount + 1) a.current with
      | error rejected =>
        obtain ⟨shown, reason, rfl⟩ := Grammar.step_eq_error hstep
        rw [complete_rejected hline hstep]
        exact .inr (.inr ⟨_, shown, reason, Nat.lt_succ_self _, rfl⟩)
      | ok accepted =>
        rw [complete_accepted hline hstep (newIdFault?_atEnd rfl _ _),
          ← advance_of_step_eq_ok (a := a.atLine (a.lineCount + 1)) hline hstep]
        have hlast := ih (hlinked.advance (code line))
          (idFault?_advance_of_eq_some hlinked hfault (code line))
          (by rw [advance_lineCount]; exact Nat.succ_pos a.lineCount)
        rw [advance_lineCount] at hlast
        exact hlast.mono (Nat.le_succ _)

end Assembly

/-! ## Both searches -/

/-- The search while reading found this on the clauses, and the one at the end fits it. -/
def Agrees (clauses : List Clause) (count : Nat) (early late : Except Failure (List Message)) :
    Prop :=
  (early = late ∧ ∀ failure, early = .error failure → ¬ failure.fault.IsRepeatedId) ∨
    ∃ f message, FirstRepeat clauses message f ∧
      early = .error ⟨f.line, .duplicateFieldId message f.name f.id⟩ ∧
      LateResult f.line count (.duplicateFieldId message f.name f.id) late

theorem Agrees.ok_iff {clauses : List Clause} {count : Nat}
    {early late : Except Failure (List Message)} (h : Agrees clauses count early late)
    (messages : List Message) : early = .ok messages ↔ late = .ok messages := by
  rcases h with ⟨rfl, _⟩ | ⟨f, message, _, rfl, hlate⟩
  · exact Iff.rfl
  · exact ⟨nofun, fun hok => absurd hok (hlate.ne_ok messages)⟩

theorem Assembly.HasRead.complete {a : Assembly Nesting} {clauses : List Clause}
    (h : a.HasRead clauses) (emptyInput : EmptyInput) (lines : List (List Char)) :
    Agrees (clauses ++ (codeLines a.lineCount lines).filterMap Clause.ofLine?)
      (a.lineCount + lines.length)
      (a.complete grammar ⟨.whileReading, emptyInput⟩ (lines.map some)).result
      (a.complete grammar ⟨.atEnd, emptyInput⟩ (lines.map some)).result := by
  induction lines generalizing a clauses with
  | nil =>
    refine .inl ⟨?_, fun failure hfailure => finish_of_idFault?_eq_none h.idFault? hfailure⟩
    rw [List.map_nil, complete_nil, complete_nil]
    unfold finish
    rw [endFault?_of_idFault?_eq_none h.idFault?, endFault?_of_idFault?_eq_none h.idFault?]
  | cons line lines ih =>
    have hnext : a.lineCount + (line :: lines).length = a.lineCount + 1 + lines.length := by
      rw [List.length_cons]
      omega
    rw [List.map_cons, hnext, codeLines]
    have hread := h.atLine (a.lineCount + 1)
    by_cases hline : code line = []
    · rw [complete_blank hline, complete_blank hline, if_pos hline]
      exact ih hread
    · rw [if_neg hline]
      cases hstep : Grammar.step a.state (code line) (a.lineCount + 1) a.current with
      | error rejected =>
        rw [complete_rejected hline hstep, complete_rejected hline hstep]
        refine .inl ⟨rfl, fun failure hfailure => ?_⟩
        cases hfailure
        exact Grammar.not_isRepeatedId_of_step_eq_error hstep
      | ok accepted =>
        obtain ⟨clause, hsays, htakes⟩ := Grammar.step_eq_ok.1 hstep
        have hlate :
            (a.complete grammar ⟨.atEnd, emptyInput⟩ (some line :: lines.map some)).result =
              (((a.atLine (a.lineCount + 1)).accept accepted).complete grammar
                ⟨.atEnd, emptyInput⟩ (lines.map some)).result :=
          complete_accepted hline hstep (newIdFault?_atEnd rfl _ _)
        have hnew : newIdFault? ⟨.whileReading, emptyInput⟩ a.current.fields.length
            accepted.current = ((a.atLine (a.lineCount + 1)).accept accepted).idFault? :=
          newIdFault?_whileReading rfl hread.idFault? htakes
        have hcount : ((a.atLine (a.lineCount + 1)).accept accepted).lineCount =
            a.lineCount + 1 := accept_lineCount _ _
        rw [hlate, List.filterMap_cons_some (Clause.ofLine?_eq_some.2 hsays)]
        cases hfault : ((a.atLine (a.lineCount + 1)).accept accepted).idFault? with
        | none =>
          have hlast := ih (hread.accept htakes hfault)
          rw [hcount, List.append_assoc] at hlast
          rw [complete_accepted hline hstep (hnew.trans hfault)]
          exact hlast
        | some fault =>
          obtain ⟨f, rfl, hrepeats, rfl⟩ := hread.repeats htakes hfault
          have hlinked := hread.linked.accept htakes
          have hlast := complete_of_idFault? hlinked hfault
            (by rw [hcount]; exact Nat.succ_pos _) emptyInput lines
          rw [hcount, ← hsays.line_eq] at hlast
          rw [complete_repeated hline hstep (hnew.trans hfault), ← hsays.line_eq]
          exact .inr ⟨f, _, ⟨clauses, _, rfl, h.distinct, hrepeats, rfl⟩, rfl, hlast⟩

theorem agrees_compileText (emptyInput : EmptyInput) (text : String) :
    Agrees (textClauses text) (textLines text.toList).length
      (compileText ⟨.whileReading, emptyInput⟩ text).result
      (compileText ⟨.atEnd, emptyInput⟩ text).result := by
  have hstart := Assembly.hasRead_start.complete emptyInput (textLines text.toList)
  rwa [List.nil_append, show Assembly.start.lineCount = 0 from rfl, Nat.zero_add] at hstart

/-- The two searches accept the same texts with the same messages, and a failure that is no
repeated id is the same for both. A failure that is one names the first repeated id of the text;
the search at the end then fails with it behind the last line, or with an open block there, or
on a later line that is rejected. A repeated id at the end is the one found while reading. -/
theorem compileText_idCheck (emptyInput : EmptyInput) (text : String) :
    (∀ messages, (compileText ⟨.whileReading, emptyInput⟩ text).result = .ok messages ↔
      (compileText ⟨.atEnd, emptyInput⟩ text).result = .ok messages) ∧
    (∀ failure, (compileText ⟨.whileReading, emptyInput⟩ text).result = .error failure →
      ¬ failure.fault.IsRepeatedId →
      (compileText ⟨.atEnd, emptyInput⟩ text).result = .error failure) ∧
    (∀ line message field id, (compileText ⟨.whileReading, emptyInput⟩ text).result =
        .error ⟨line, .duplicateFieldId message field id⟩ →
      (∃ f, FirstRepeat (textClauses text) message f ∧ f.line = line ∧ f.name = field ∧
        f.id = id) ∧
      LateResult line (textLines text.toList).length (.duplicateFieldId message field id)
        (compileText ⟨.atEnd, emptyInput⟩ text).result) ∧
    (∀ line message field id, (compileText ⟨.atEnd, emptyInput⟩ text).result =
        .error ⟨line, .duplicateFieldId message field id⟩ →
      ∃ earlier, (compileText ⟨.whileReading, emptyInput⟩ text).result =
        .error ⟨earlier, .duplicateFieldId message field id⟩) := by
  have h := agrees_compileText emptyInput text
  refine ⟨h.ok_iff, ?_⟩
  rcases h with ⟨heq, hnone⟩ | ⟨f, message, hfirst, hearly, hlate⟩
  · rw [← heq]
    refine ⟨fun failure hfailure _ => hfailure, fun line message field id hfailure => ?_,
      fun line message field id hfailure => ?_⟩
    · exact absurd ⟨message, field, id, rfl⟩ (hnone _ hfailure)
    · exact ⟨line, hfailure⟩
  · rw [hearly]
    refine ⟨fun failure hfailure hother => ?_, fun line message' field id hfailure => ?_,
      fun line message' field id hfailure => ?_⟩
    · cases hfailure
      exact absurd ⟨_, _, _, rfl⟩ hother
    · cases hfailure
      exact ⟨⟨f, hfirst, rfl, rfl, rfl⟩, hlate⟩
    · rw [hfailure] at hlate
      rw [hlate.fault_eq ⟨_, _, _, rfl⟩]
      exact ⟨f.line, rfl⟩

/-- A rejected line behind a repeated id, a message that ends behind one, and a rejected line
alone. -/
theorem compileText_idCheck_runs :
    (∃ f, FirstRepeat (textClauses "message A \x7b\nrequired int32 a = 1;\noptional bool b = 1;\nx")
      "A" f ∧ f.line = 3 ∧ f.name = "b" ∧ f.id = 1) ∧
    LateResult 3 4 (.duplicateFieldId "A" "b" 1) (compileText ⟨.atEnd, .accept⟩
      "message A \x7b\nrequired int32 a = 1;\noptional bool b = 1;\nx").result ∧
    (∃ earlier, (compileText ⟨.whileReading, .accept⟩
      "message A \x7b\nrequired int32 a = 1;\noptional bool b = 1;\n\x7d\n").result =
        .error ⟨earlier, .duplicateFieldId "A" "b" 1⟩) ∧
    (compileText ⟨.atEnd, .reject⟩ "x").result =
      .error ⟨1, .unrecognizedLine "\"x\"" .notAStatement⟩ := by
  have hrepeat := (compileText_idCheck .accept
    "message A \x7b\nrequired int32 a = 1;\noptional bool b = 1;\nx").2.2.1 3 "A" "b" 1 (by rfl)
  refine ⟨hrepeat.1, hrepeat.2, ?_, ?_⟩
  · refine (compileText_idCheck .accept
      "message A \x7b\nrequired int32 a = 1;\noptional bool b = 1;\n\x7d\n").2.2.2 4 "A" "b" 1 ?_
    rfl
  · exact (compileText_idCheck .reject "x").2.1 _ (by rfl) nofun

end ProtoSchema
