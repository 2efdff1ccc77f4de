import ProtoSchema.Proofs.Flags
import ProtoSchema.Proofs.WrittenFiles

/-!
# Outcomes of commands

A command loads its schema, then writes a file or none, and prints last. So each failure comes
before anything is printed or changed, and what is written is made of the messages that were loaded
before.

Results:
* `run_cases`: the four ways in which a command can go;
* `run_congr`: commands without output differ in nothing but what they print;
* `outcome_of_parse`: the outcome of every accepted command line.
-/
namespace ProtoSchema

/-- The file that an action writes. -/
def Action.output? : Action → Option String
  | .check => none
  | .dump output? => output?

theorem Action.output?_eq_some {action : Action} {path : String} :
    action.output? = some path ↔ action = .dump (some path) := by
  cases action <;> simp [Action.output?]

theorem Action.output?_eq_none {action : Action} :
    action.output? = none ↔ action = .check ∨ action = .dump none := by
  cases action <;> simp [Action.output?]

namespace Command

variable {tree : FileTree} {command other : Command}

theorem run_of_load_error {fault : LoadFault}
    (h : (tree.load command.policy command.input).result = .error fault) :
    command.run tree = { exitCode := 1, stderr := errorText fault.message, tree } := by
  unfold FileTree.load at h
  simp only [run, plan, h, perform]

theorem run_of_load_ok {messages : List Message}
    (h : (tree.load command.policy command.input).result = .ok messages) :
    command.run tree = perform tree (command.planFor messages) := by
  unfold FileTree.load at h
  simp only [run, plan, h]

theorem planFor_cases (command : Command) (messages : List Message) :
    (command.action.output? = none ∧ ∃ text, command.planFor messages = .print text) ∨
      ∃ path text, command.action.output? = some path ∧
        command.planFor messages = .write path (Message.document messages) text := by
  cases haction : command.action with
  | check => exact .inl ⟨rfl, _, by rw [planFor, haction]⟩
  | dump output? =>
    cases output? with
    | none => exact .inl ⟨rfl, _, by rw [planFor, haction]⟩
    | some path => exact .inr ⟨path, _, rfl, by rw [planFor, haction]⟩

/-- How a command can go: its schema cannot be loaded, it prints, it writes its file, or that file
cannot be written. -/
theorem run_cases (tree : FileTree) (command : Command) :
    (∃ fault, (tree.load command.policy command.input).result = .error fault ∧
      command.run tree = { exitCode := 1, stderr := errorText fault.message, tree }) ∨
    ∃ messages, (tree.load command.policy command.input).result = .ok messages ∧
      ((command.action.output? = none ∧
          ∃ text, command.run tree = { exitCode := 0, stdout := text, tree }) ∨
        ∃ path, command.action.output? = some path ∧
          ((∃ text after, tree.write path.toList (Message.document messages).toUTF8 = .ok after ∧
              command.run tree = { exitCode := 0, stdout := text, tree := after }) ∨
            ∃ fault, tree.write path.toList (Message.document messages).toUTF8 = .error fault ∧
              command.run tree =
                { exitCode := 1, stderr := errorText (writeFaultMessage fault.text), tree })) := by
  cases hload : (tree.load command.policy command.input).result with
  | error fault => exact .inl ⟨fault, rfl, run_of_load_error hload⟩
  | ok messages =>
    refine .inr ⟨messages, rfl, ?_⟩
    rw [run_of_load_ok hload]
    rcases command.planFor_cases messages with ⟨houtput, text, hplan⟩ | ⟨path, text, houtput, hplan⟩
    · exact .inl ⟨houtput, text, by rw [hplan, perform]⟩
    · refine .inr ⟨path, houtput, ?_⟩
      cases hwrite : tree.write path.toList (Message.document messages).toUTF8 with
      | ok after => exact .inl ⟨text, after, rfl, by simp only [hplan, perform, hwrite]⟩
      | error fault => exact .inr ⟨fault, rfl, by simp only [hplan, perform, hwrite]⟩

/-- A command succeeds exactly if its schema is loaded and its file, if any, is written. -/
theorem exitCode_run_eq_zero :
    (command.run tree).exitCode = 0 ↔
      ∃ messages, (tree.load command.policy command.input).result = .ok messages ∧
        ∀ path, command.action.output? = some path →
          ∃ after, tree.write path.toList (Message.document messages).toUTF8 = .ok after := by
  rcases run_cases tree command with ⟨fault, hload, hrun⟩ |
    ⟨messages, hload, ⟨houtput, text, hrun⟩ | ⟨path, houtput, ⟨text, after, hwrite, hrun⟩ |
      ⟨fault, hwrite, hrun⟩⟩⟩
  · simp [hrun, hload]
  · simp [hrun, hload, houtput]
  · simpa [hrun, hload, houtput] using ⟨after, hwrite⟩
  · refine iff_of_false (by simp [hrun]) ?_
    rintro ⟨messages', hload', hwritten⟩
    obtain rfl := Except.ok.inj (hload.symm.trans hload')
    obtain ⟨after, hafter⟩ := hwritten path houtput
    cases hwrite.symm.trans hafter

theorem run_of_exitCode_ne_zero (h : (command.run tree).exitCode ≠ 0) :
    (command.run tree).exitCode = 1 ∧ (command.run tree).stdout = "" ∧
      (command.run tree).tree = tree ∧
      ((∃ fault, (tree.load command.policy command.input).result = .error fault ∧
          (command.run tree).stderr = errorText fault.message) ∨
        ∃ messages path fault, (tree.load command.policy command.input).result = .ok messages ∧
          command.action.output? = some path ∧
          tree.write path.toList (Message.document messages).toUTF8 = .error fault ∧
          (command.run tree).stderr = errorText (writeFaultMessage fault.text)) := by
  rcases run_cases tree command with ⟨fault, hload, hrun⟩ |
    ⟨messages, hload, ⟨-, text, hrun⟩ | ⟨path, houtput, ⟨text, after, -, hrun⟩ |
      ⟨fault, hwrite, hrun⟩⟩⟩ <;>
    rw [hrun] at h ⊢
  · exact ⟨rfl, rfl, rfl, .inl ⟨fault, hload, rfl⟩⟩
  · exact absurd rfl h
  · exact absurd rfl h
  · exact ⟨rfl, rfl, rfl, .inr ⟨messages, path, fault, hload, houtput, hwrite, rfl⟩⟩

/-- A command that succeeds reports no error, and its tree is the one behind its write, if any. -/
theorem run_of_exitCode_eq_zero (h : (command.run tree).exitCode = 0) :
    (command.run tree).stderr = "" ∧
      (command.action.output? = none → (command.run tree).tree = tree) ∧
      ∀ path messages, command.action.output? = some path →
        (tree.load command.policy command.input).result = .ok messages →
        tree.write path.toList (Message.document messages).toUTF8 =
          .ok (command.run tree).tree := by
  rcases run_cases tree command with ⟨fault, hload, hrun⟩ |
    ⟨messages, hload, ⟨houtput, text, hrun⟩ | ⟨path, houtput, ⟨text, after, hwrite, hrun⟩ |
      ⟨fault, hwrite, hrun⟩⟩⟩ <;>
    rw [hrun] at h ⊢
  · cases h
  · refine ⟨rfl, fun _ => rfl, fun path messages hpath => ?_⟩
    rw [houtput] at hpath
    cases hpath
  · refine ⟨rfl, fun hnone => ?_, fun path' messages' hpath hload' => ?_⟩
    · rw [houtput] at hnone
      cases hnone
    · obtain rfl := Option.some.inj (houtput.symm.trans hpath)
      obtain rfl := Except.ok.inj (hload.symm.trans hload')
      exact hwrite
  · cases h

/-- Commands without an output that read the same schema in the same way fail alike, and neither
changes a file. -/
theorem run_congr (houtput : command.action.output? = none) (hother : other.action.output? = none)
    (hinput : command.input = other.input) (hpolicy : command.policy = other.policy) :
    (command.run tree).exitCode = (other.run tree).exitCode ∧
      (command.run tree).stderr = (other.run tree).stderr ∧
      (command.run tree).tree = tree ∧ (other.run tree).tree = tree := by
  have hload : tree.load command.policy command.input = tree.load other.policy other.input := by
    rw [hinput, hpolicy]
  rcases run_cases tree command with ⟨fault, hcommand, hrun⟩ |
    ⟨messages, hcommand, ⟨-, text, hrun⟩ | ⟨path, hpath, -⟩⟩
  · rw [hrun, run_of_load_error (hload ▸ hcommand)]
    exact ⟨rfl, rfl, rfl, rfl⟩
  · rcases other.planFor_cases messages with ⟨-, printed, hplan⟩ | ⟨path, -, hpath, -⟩
    · rw [hrun, run_of_load_ok (hload ▸ hcommand), hplan]
      exact ⟨rfl, rfl, rfl, rfl⟩
    · rw [hother] at hpath
      cases hpath
  · rw [houtput] at hpath
    cases hpath

end Command

/-! ## Accepted command lines -/

open Command

/-- Every accepted command line, on every file tree. Its exit code is zero exactly if the schema is
loaded under the policy of its flags and its output, if it names one, is written. Any other exit
code is one: then nothing is printed but the error, and no file changes. If it is zero, there is no
error, and without an output no file changes. With one, the file that the output names holds the
document of the messages that were loaded before, and every other entry is as it was. A check and a
dump without output of the same schema with the same flags fail alike. -/
theorem outcome_of_parse (tree : FileTree) {args : List String} {action : Action} {input : String}
    {policy : Policy}
    (h : Arguments.parse args = some { action, input, policy, verbose := false }) :
    let outcome := Command.run { action, input, policy, verbose := false } tree
    let loaded := (tree.load (Arguments.flagsPolicy args) input).result
    (outcome.exitCode = 0 ↔
      ∃ messages, loaded = .ok messages ∧ ∀ path, action = .dump (some path) →
        ∃ after, tree.write path.toList (Message.document messages).toUTF8 = .ok after) ∧
    (outcome.exitCode ≠ 0 →
      outcome.exitCode = 1 ∧ outcome.stdout = "" ∧ outcome.tree = tree ∧
      ((∃ fault, loaded = .error fault ∧ outcome.stderr = errorText fault.message) ∨
        ∃ messages path fault, loaded = .ok messages ∧ action = .dump (some path) ∧
          tree.write path.toList (Message.document messages).toUTF8 = .error fault ∧
          outcome.stderr = errorText (writeFaultMessage fault.text))) ∧
    (outcome.exitCode = 0 →
      outcome.stderr = "" ∧
      (action = .check ∨ action = .dump none → outcome.tree = tree) ∧
      ∀ path messages, action = .dump (some path) → loaded = .ok messages →
        outcome.tree.lookup path.toList = some (.file (Message.document messages).toUTF8) ∧
        ∃ names, tree.target path.toList = .ok names ∧
          outcome.tree.entry? names = some (.file (Message.document messages).toUTF8) ∧
          (∀ others, others ≠ names → outcome.tree.entry? others = tree.entry? others) ∧
          outcome.tree.workingDirectory = tree.workingDirectory) ∧
    ∀ args' policy',
      Arguments.parse args' =
        some { action := .dump none, input, policy := policy', verbose := false } →
      action = .check → Arguments.flagsPolicy args = Arguments.flagsPolicy args' →
      let dumped :=
        Command.run { action := .dump none, input, policy := policy', verbose := false } tree
      outcome.exitCode = dumped.exitCode ∧ outcome.stderr = dumped.stderr ∧
        outcome.tree = tree ∧ dumped.tree = tree := by
  intro outcome loaded
  have hpolicy : policy = Arguments.flagsPolicy args := Arguments.policy_of_parse h
  have hloaded : (tree.load policy input).result = loaded := by rw [hpolicy]
  refine ⟨?_, ?_, ?_, ?_⟩
  · rw [← hloaded, exitCode_run_eq_zero]
    simp only [Action.output?_eq_some]
  · intro hfails
    have hend := run_of_exitCode_ne_zero hfails
    simp only [hloaded, Action.output?_eq_some] at hend
    exact hend
  · intro hsucceeds
    obtain ⟨hstderr, hsame, hwritten⟩ := run_of_exitCode_eq_zero hsucceeds
    refine ⟨hstderr, fun haction => hsame (Action.output?_eq_none.2 haction), ?_⟩
    intro path messages haction hmessages
    have hwrite := hwritten path messages (Action.output?_eq_some.2 haction)
      (hloaded.trans hmessages)
    exact ⟨FileTree.lookup_write hwrite, FileTree.write_frame hwrite⟩
  · intro args' policy' h' hcheck hflags
    have hpolicy' : policy' = Arguments.flagsPolicy args' := Arguments.policy_of_parse h'
    refine run_congr (Action.output?_eq_none.2 (.inl hcheck)) rfl rfl ?_
    exact hpolicy.trans (hflags.trans hpolicy'.symm)

/-- A dump into the schema that it reads, and one into a directory that is not there. -/
theorem outcome_of_parse_runs :
    let tree := (FileTree.empty [['w']]).plant "a.proto" (.file "message A \x7b\n\x7d".toUTF8)
    let document := (Message.document [{ name := "A", line := 1 }]).toUTF8
    let itself : Command := { action := .dump (some "./a.proto"), input := "a.proto" }
    let nowhere : Command := { action := .dump (some "b/a.json"), input := "a.proto" }
    Arguments.parse ["dump", "-i", "a.proto", "--output=./a.proto"] = some itself ∧
      (itself.run tree).exitCode = 0 ∧ (itself.run tree).stderr = "" ∧
      (itself.run tree).tree.lookup "./a.proto".toList = some (.file document) ∧
    Arguments.parse ["dump", "-ia.proto", "-o", "b/a.json"] = some nowhere ∧
      (nowhere.run tree).exitCode = 1 ∧ (nowhere.run tree).stdout = "" ∧
      (nowhere.run tree).tree = tree := by
  intro tree document itself nowhere
  have hitself : Arguments.parse ["dump", "-i", "a.proto", "--output=./a.proto"] = some itself := by
    decide +kernel
  have hnowhere : Arguments.parse ["dump", "-ia.proto", "-o", "b/a.json"] = some nowhere := by
    decide +kernel
  have hload : (tree.load {} "a.proto").result = .ok [{ name := "A", line := 1 }] := by
    unfold tree
    rfl
  obtain ⟨hzero, -, hsucceeds, -⟩ := outcome_of_parse tree hitself
  obtain ⟨-, hfails, -, -⟩ := outcome_of_parse tree hnowhere
  have hexit : (itself.run tree).exitCode = 0 := by
    refine hzero.2 ⟨_, hload, fun path hpath => ?_⟩
    obtain rfl : "./a.proto" = path := by simpa using hpath
    exact ⟨_, by unfold tree; rfl⟩
  have hstuck : (nowhere.run tree).exitCode ≠ 0 := by
    unfold nowhere tree
    decide +kernel
  obtain ⟨hstderr, -, hwritten⟩ := hsucceeds hexit
  obtain ⟨hone, hstdout, hsame, -⟩ := hfails hstuck
  exact ⟨hitself, hexit, hstderr, (hwritten _ _ rfl hload).1, hnowhere, hone, hstdout, hsame⟩

end ProtoSchema
