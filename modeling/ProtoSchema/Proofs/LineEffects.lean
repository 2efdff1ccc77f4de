import ProtoSchema.Proofs.Runs

/-!
# What a line changes

The grammar rejects a line, or it accepts it with a signal. A rejected line leaves the state and the
message as they were. An accepted line changes one part of the message at most. Nothing here asks
where the message comes from: any message may be under construction in any state.

**The frame.** `Message.Frame` says part by part what a line may change. Lists only grow at their
ends: a message gets a field, or a new enum, or a value for its last enum.

**Runs.** `LineRules.applyAll` gives rules one line after the other, whatever they answer. The frames
of its lines compose to `Message.Extends`: what a message has by then it keeps, in its place.

Results:
* `Takes.frame`: what an accepted line may change;
* `Takes.closed_iff`, `Takes.package?_eq_some`, `Takes.current_of_signal`: what it signals;
* `apply_effects`: all of it, for the answer to any line;
* `applyAll_extends`, `applyAll_heading`: what any lines keep.
-/
namespace ProtoSchema

/-- What the first line of a message says of it: its name and the number of that line. -/
def Message.heading (m : Message) : String × Nat :=
  (m.name, m.line)

/-- How a message `m'` differs from the message `m` in front of an accepted line. -/
structure Message.Frame (n : Nat) (line : List Char) (m m' : Message) : Prop where
  package : m'.package? = m.package?
  /-- Only a line that starts a message names it. -/
  heading : m'.heading = m.heading ∨
    ∃ name, Statement.Written (.messageStart name) line ∧ m'.heading = (name, n)
  /-- At most one field joins the others. -/
  fields : m'.fields = m.fields ∨
    ∃ f, Says (n, line) (.field f) ∧ m'.fields = m.fields ++ [f]
  /-- At most one enum joins the others, without values, or one value those of the last enum. -/
  enums : m'.enums = m.enums ∨
    (∃ name, Statement.Written (.enumStart name) line ∧ m'.enums = m.enums ++ [{ name := name }]) ∨
    ∃ enums e v, Says (n, line) (.enumValue v) ∧ m.enums = enums ++ [e] ∧
      m'.enums = enums ++ [{ e with values := e.values ++ [v] }]
  /-- No two of the three change together. -/
  single : m'.heading = m.heading ∧ m'.fields = m.fields ∨
    m'.heading = m.heading ∧ m'.enums = m.enums ∨ m'.fields = m.fields ∧ m'.enums = m.enums

theorem Message.Frame.refl (n : Nat) (line : List Char) (m : Message) : m.Frame n line m :=
  ⟨rfl, .inl rfl, .inl rfl, .inl rfl, .inl ⟨rfl, rfl⟩⟩

/-! ## Accepted lines -/

namespace Grammar.Takes

variable {n : Nat} {nesting : Nesting} {line : List Char} {m : Message} {clause : Clause}
  {accepted : Accepted}

theorem frame (h : Takes n nesting m clause accepted) (hsaid : Says (n, line) clause) :
    m.Frame n line accepted.current := by
  cases h with
  | messageStart =>
    cases hsaid with
    | messageStart hw =>
      exact
        { package := rfl
          heading := .inr ⟨_, hw, rfl⟩
          fields := .inl rfl
          enums := .inl rfl
          single := .inr (.inr ⟨rfl, rfl⟩) }
  | field =>
    exact
      { package := rfl
        heading := .inl rfl
        fields := .inr ⟨_, hsaid, rfl⟩
        enums := .inl rfl
        single := .inr (.inl ⟨rfl, rfl⟩) }
  | enumStart =>
    cases hsaid with
    | enumStart hw =>
      exact
        { package := rfl
          heading := .inl rfl
          fields := .inl rfl
          enums := .inr (.inl ⟨_, hw, rfl⟩)
          single := .inl ⟨rfl, rfl⟩ }
  | enumValue henums =>
    exact
      { package := rfl
        heading := .inl rfl
        fields := .inl rfl
        enums := .inr (.inr ⟨_, _, _, hsaid, henums, rfl⟩)
        single := .inl ⟨rfl, rfl⟩ }
  | messageEnd | enumEnd | package | option => exact .refl n line _

/-- A line closes a message exactly when it leaves an open message for nothing open. -/
theorem closed_iff (h : Takes n nesting m clause accepted) :
    accepted.signal.closed = true ↔ nesting = .inMessage ∧ accepted.nesting = .topLevel := by
  cases h with
  | messageEnd => simp
  | messageStart | enumStart | enumEnd | field | enumValue => simp
  | package | option =>
    -- the state stays, so it cannot be left
    simp only [Bool.false_eq_true, false_iff, not_and]
    rintro rfl ⟨⟩

theorem package?_eq_some (h : Takes n nesting m clause accepted) {name : String} :
    accepted.signal.package? = some name ↔ clause = .package name := by
  cases h <;> simp

/-- A line that signals anything changes nothing. -/
theorem current_of_signal (h : Takes n nesting m clause accepted) (hsignal : accepted.signal ≠ {}) :
    accepted.current = m := by
  cases h with
  | messageEnd | package | option => rfl
  | messageStart | enumStart | enumEnd | field | enumValue => exact absurd rfl hsignal

end Grammar.Takes

theorem Says.unique {numbered : Nat × List Char} {clause clause' : Clause}
    (h : Says numbered clause) (h' : Says numbered clause') : clause = clause' := by
  rw [← Clause.ofLine?_eq_some] at h h'
  exact Option.some.inj (h.symm.trans h')

/-! ## Answers -/

section Answers

variable {nesting : Nesting} {line : List Char} {n : Nat} {m : Message}

theorem apply_of_step_eq_ok {accepted : Grammar.Accepted}
    (h : Grammar.step nesting line n m = .ok accepted) :
    grammar.apply nesting line n m =
      { state := accepted.nesting, current := accepted.current, result := .ok accepted.signal
        events := accepted.events } := by
  simp only [grammar, h]

theorem apply_of_step_eq_error {fault : Fault} (h : Grammar.step nesting line n m = .error fault) :
    grammar.apply nesting line n m =
      { state := nesting, current := m, result := .error fault } := by
  simp only [grammar, h]

theorem apply_of_takes {clause : Clause} {accepted : Grammar.Accepted}
    (hsaid : Says (n, line) clause) (htakes : Grammar.Takes n nesting m clause accepted) :
    grammar.apply nesting line n m =
      { state := accepted.nesting, current := accepted.current, result := .ok accepted.signal
        events := accepted.events } :=
  apply_of_step_eq_ok (Grammar.step_eq_ok.2 ⟨clause, hsaid, htakes⟩)

/-- An accepted line says a clause that may stand there. -/
theorem takes_of_apply {signal : Signal} (h : (grammar.apply nesting line n m).result = .ok signal) :
    ∃ clause accepted, Says (n, line) clause ∧ Grammar.Takes n nesting m clause accepted ∧
      accepted.nesting = (grammar.apply nesting line n m).state ∧
      accepted.current = (grammar.apply nesting line n m).current ∧ accepted.signal = signal := by
  cases hstep : Grammar.step nesting line n m with
  | error fault =>
    rw [apply_of_step_eq_error hstep] at h
    cases h
  | ok accepted =>
    rw [apply_of_step_eq_ok hstep] at h ⊢
    obtain ⟨clause, hsaid, htakes⟩ := Grammar.step_eq_ok.1 hstep
    exact ⟨clause, accepted, hsaid, htakes, rfl, rfl, Except.ok.inj h⟩

theorem apply_unchanged {fault : Fault}
    (h : (grammar.apply nesting line n m).result = .error fault) :
    (grammar.apply nesting line n m).state = nesting ∧
      (grammar.apply nesting line n m).current = m := by
  cases hstep : Grammar.step nesting line n m with
  | error fault =>
    rw [apply_of_step_eq_error hstep]
    exact ⟨rfl, rfl⟩
  | ok accepted =>
    rw [apply_of_step_eq_ok hstep] at h
    cases h

/-- Accepted or not, a line changes no more than the frame allows. -/
theorem apply_frame (nesting : Nesting) (line : List Char) (n : Nat) (m : Message) :
    m.Frame n line (grammar.apply nesting line n m).current := by
  cases hresult : (grammar.apply nesting line n m).result with
  | error fault =>
    rw [(apply_unchanged hresult).2]
    exact .refl n line m
  | ok signal =>
    obtain ⟨clause, accepted, hsaid, htakes, _, hcurrent, _⟩ := takes_of_apply hresult
    rw [← hcurrent]
    exact htakes.frame hsaid

/-- What a line does to the state and the message under construction, whatever they are. A rejected
line changes neither. An accepted one changes at most one part of the message; it signals a closed
message exactly when it leaves an open message for nothing open, and a package exactly when it
declares one, but not both. -/
theorem apply_effects (nesting : Nesting) (line : List Char) (n : Nat) (m : Message) :
    (∀ fault, (grammar.apply nesting line n m).result = .error fault →
      (grammar.apply nesting line n m).state = nesting ∧
        (grammar.apply nesting line n m).current = m) ∧
    ∀ signal, (grammar.apply nesting line n m).result = .ok signal →
      m.Frame n line (grammar.apply nesting line n m).current ∧
      (signal.closed = true ↔
        nesting = .inMessage ∧ (grammar.apply nesting line n m).state = .topLevel) ∧
      (∀ name, signal.package? = some name ↔ Statement.Written (.package name) line) ∧
      ¬ (signal.closed = true ∧ signal.package? ≠ none) ∧
      (signal ≠ {} → (grammar.apply nesting line n m).current = m) := by
  refine ⟨fun fault h => apply_unchanged h, fun signal h => ?_⟩
  obtain ⟨clause, accepted, hsaid, htakes, hstate, hcurrent, rfl⟩ := takes_of_apply h
  rw [← hstate, ← hcurrent]
  refine ⟨htakes.frame hsaid, htakes.closed_iff, fun name => ?_, fun ⟨hclosed, hpackage⟩ => ?_,
    htakes.current_of_signal⟩
  · rw [htakes.package?_eq_some]
    refine ⟨fun hclause => ?_, fun hw => hsaid.unique (.package hw)⟩
    subst hclause
    cases hsaid with
    | package hw => exact hw
  · exact hpackage (htakes.of_closed hclosed).2.2

/-- A field that joins its message, and a brace that closes nothing. -/
theorem apply_effects_runs :
    ({ name := "A" } : Message).Frame 2 "required int32 a = 1;".toList
      (grammar.apply .inMessage "required int32 a = 1;".toList 2 { name := "A" }).current ∧
    (grammar.apply .topLevel "\x7d".toList 3 { line := 7 }).state = .topLevel ∧
      (grammar.apply .topLevel "\x7d".toList 3 { line := 7 }).current = { line := 7 } :=
  ⟨((apply_effects .inMessage "required int32 a = 1;".toList 2 { name := "A" }).2 {} (by rfl)).1,
    (apply_effects .topLevel "\x7d".toList 3 { line := 7 }).1 _ (by rfl)⟩

end Answers

/-! ## Lines in a row -/

/-- What lines lead to, and the answer to each. -/
structure LineRules.Run (σ : Type) where
  state : σ
  current : Message
  results : List (Except Fault Signal)

/-- Applies lines of code one after the other, each with its number, whatever they are answered. -/
def LineRules.applyAll {σ : Type} (rules : LineRules σ) (state : σ) (current : Message) :
    List (Nat × List Char) → LineRules.Run σ
  | [] => { state, current, results := [] }
  | (n, line) :: lines =>
    let reply := rules.apply state line n current
    let run := rules.applyAll reply.state reply.current lines
    { run with results := reply.result :: run.results }

theorem LineRules.applyAll_append {σ : Type} (rules : LineRules σ) (state : σ) (m : Message)
    (front behind : List (Nat × List Char)) :
    rules.applyAll state m (front ++ behind) =
      let run := rules.applyAll state m front
      let run' := rules.applyAll run.state run.current behind
      { run' with results := run.results ++ run'.results } := by
  induction front generalizing state m with
  | nil => rfl
  | cons entry front ih => simp only [List.cons_append, applyAll, ih]

theorem applyAll_cons_of_takes {nesting : Nesting} {m : Message} {entry : Nat × List Char}
    {clause : Clause} {accepted : Grammar.Accepted} (hsaid : Says entry clause)
    (htakes : Grammar.Takes entry.1 nesting m clause accepted) (lines : List (Nat × List Char)) :
    grammar.applyAll nesting m (entry :: lines) =
      let run := grammar.applyAll accepted.nesting accepted.current lines
      { run with results := .ok accepted.signal :: run.results } := by
  rw [LineRules.applyAll, apply_of_takes hsaid htakes]

/-- What a message keeps of an earlier one. Its name and its line may be new. -/
structure Message.Extends (m m' : Message) : Prop where
  package : m'.package? = m.package?
  fields : m.fields <+: m'.fields
  /-- Each enum keeps its place, its name and its first values. -/
  enums : ∀ (i : Nat) (e : EnumDef), m.enums[i]? = some e →
    ∃ more, m'.enums[i]? = some { e with values := e.values ++ more }

namespace Message

variable {n : Nat} {line : List Char} {m m' m'' : Message}

theorem Extends.refl (m : Message) : m.Extends m :=
  ⟨rfl, List.prefix_refl _, fun _ e h => ⟨[], by rw [h, List.append_nil]⟩⟩

theorem Extends.trans (h : m.Extends m') (h' : m'.Extends m'') : m.Extends m'' where
  package := h'.package.trans h.package
  fields := h.fields.trans h'.fields
  enums i e he := by
    obtain ⟨more, hmore⟩ := h.enums i e he
    obtain ⟨more', hmore'⟩ := h'.enums i _ hmore
    exact ⟨more ++ more', by rw [hmore', List.append_assoc]⟩

theorem Frame.extends (h : m.Frame n line m') : m.Extends m' where
  package := h.package
  fields := by
    rcases h.fields with hfields | ⟨f, _, hfields⟩
    · exact hfields ▸ List.prefix_refl _
    · exact hfields ▸ List.prefix_append _ _
  enums i e he := by
    rcases h.enums with henums | ⟨name, _, henums⟩ | ⟨enums, last, v, _, hm, henums⟩
    · exact ⟨[], by rw [henums, he, List.append_nil]⟩
    · refine ⟨[], ?_⟩
      rw [henums, List.getElem?_append_left (List.getElem?_eq_some_iff.1 he).1, he, List.append_nil]
    · rw [hm] at he
      rcases Nat.lt_or_ge i enums.length with hi | hi
      · rw [List.getElem?_append_left hi] at he
        exact ⟨[], by rw [henums, List.getElem?_append_left hi, he, List.append_nil]⟩
      · -- the last enum is the one that gets the value
        obtain ⟨hlast, rfl⟩ : i - enums.length = 0 ∧ last = e := by
          simpa [List.getElem?_append_right hi, List.getElem?_singleton] using he
        exact ⟨[v], by rw [henums, List.getElem?_append_right hi, hlast]; rfl⟩

theorem Frame.heading_eq (h : m.Frame n line m')
    (hline : ∀ name, ¬ Statement.Written (.messageStart name) line) : m'.heading = m.heading := by
  rcases h.heading with hheading | ⟨name, hw, _⟩
  · exact hheading
  · exact absurd hw (hline name)

end Message

/-- Whatever lines follow, and whatever they are answered, a message keeps what it has. -/
theorem applyAll_extends (nesting : Nesting) (m : Message) (lines : List (Nat × List Char)) :
    m.Extends (grammar.applyAll nesting m lines).current := by
  induction lines generalizing nesting m with
  | nil => exact .refl m
  | cons entry lines ih => exact (apply_frame _ _ _ _).extends.trans (ih _ _)

/-- Unless one of the lines starts a message, the name and the line of the message stay. -/
theorem applyAll_heading (nesting : Nesting) (m : Message) {lines : List (Nat × List Char)}
    (h : ∀ entry ∈ lines, ∀ name, ¬ Statement.Written (.messageStart name) entry.2) :
    (grammar.applyAll nesting m lines).current.heading = m.heading := by
  induction lines generalizing nesting m with
  | nil => rfl
  | cons entry lines ih =>
    obtain ⟨hentry, hlines⟩ := List.forall_mem_cons.1 h
    exact (ih _ _ hlines).trans ((apply_frame _ _ _ _).heading_eq hentry)

end ProtoSchema
