import ProtoSchema.Arguments

/-!
# Flags

A flag is an option with a long name only and without a value. There is one way to write it, so an
accepted command line sets a flag exactly if that text is one of its arguments: no value that stands
by itself looks like one, and none is accepted before the word of the command.

Results:
* `mem_names_of_readArgument`: an argument gives a flag exactly if it is its text;
* `mem_names_of_readOptions`: so do all arguments behind the word;
* `readCommand_eq_some`: which options a command is made of, and where its flags stand;
* `policy_of_parse`: the policy of an accepted command line is what its flags denote.
-/
namespace ProtoSchema.Arguments

/-- An option with a long name only and without a value. -/
def OptionName.IsFlag (name : OptionName) : Prop :=
  name.takesValue = false ∧ name.short? = none

/-- The argument that gives an option by its long name. -/
def OptionName.text (name : OptionName) : List Char :=
  '-' :: '-' :: name.long.toList

/-- The names of the options that are set. -/
def names (settings : Settings) : List OptionName :=
  settings.map Prod.fst

/-- The policy that the flags of a command line denote. -/
def flagsPolicy (args : List String) : Policy :=
  { idCheck := if "--deferred-id-check" ∈ args then .atEnd else .whileReading
    emptyInput := if "--require-messages" ∈ args then .reject else .accept }

variable {position : Position} {settings early late : Settings} {reading : Reading}
  {name : OptionName} {arg cs : List Char} {args : List (List Char)}

@[simp] theorem names_nil : names [] = [] := rfl

@[simp] theorem names_cons (setting : OptionName × List Char) :
    names (setting :: settings) = setting.1 :: names settings := rfl

@[simp] theorem names_append (more : Settings) :
    names (settings ++ more) = names settings ++ names more :=
  List.map_append

theorem has_iff_mem_names : has settings name = true ↔ name ∈ names settings := by
  unfold has
  induction settings with
  | nil => simp
  | cons setting settings ih =>
    rw [List.lookup_cons, names_cons, List.mem_cons]
    cases hname : name == setting.1 with
    | true => simp [eq_of_beq hname]
    | false => simpa [beq_eq_false_iff_ne.1 hname] using ih

/-! ## Single arguments -/

theorem long_injective {other : OptionName} (h : name.long = other.long) : name = other := by
  revert h
  cases name <;> cases other <;> decide

theorem takeWhile_long (name : OptionName) :
    name.long.toList.takeWhile (· ≠ '=') = name.long.toList := by
  cases name <;> decide

/-- Short options are options of the position with a short name, and one that waits takes a value.
-/
theorem readShort_eq_some (h : readShort position cs = some reading) :
    (∀ name ∈ names reading.settings, name ∈ position.options ∧ name.short? ≠ none) ∧
      ∀ name, reading.waiting? = some name → name.takesValue = true := by
  induction cs generalizing reading with
  | nil =>
    obtain rfl := Option.some.inj h
    exact ⟨nofun, nofun⟩
  | cons c cs ih =>
    obtain ⟨found, hfound, h⟩ := Option.bind_eq_some_iff.1 h
    have hshort : found.short? = some c := by simpa using List.find?_some hfound
    have hone : found ∈ position.options ∧ found.short? ≠ none :=
      ⟨List.mem_of_find?_eq_some hfound, by rw [hshort]; nofun⟩
    cases hvalue : found.takesValue with
    | true =>
      rw [if_pos hvalue] at h
      split at h <;> obtain rfl := Option.some.inj h
      · exact ⟨nofun, fun name hname => Option.some.inj hname ▸ hvalue⟩
      · exact ⟨by simpa using hone, nofun⟩
      · exact ⟨by simpa using hone, nofun⟩
    | false =>
      rw [if_neg (by simp [hvalue])] at h
      obtain ⟨rest, hrest, h⟩ := Option.bind_eq_some_iff.1 h
      obtain rfl := Option.some.inj h
      obtain ⟨hnames, hwaiting⟩ := ih hrest
      exact ⟨by simpa using ⟨hone, hnames⟩, hwaiting⟩

/-- A long option is the option of the position with that name, whose value may be behind it. -/
theorem readLong_eq_some (h : readLong position cs = some reading) :
    ∃ found ∈ position.options, found.long.toList = cs.takeWhile (· ≠ '=') ∧
      (reading = { waiting? := some found } ∧ found.takesValue = true ∨
        ∃ value, reading = { settings := [(found, value)] } ∧
          (found.takesValue = true ∨ cs.dropWhile (· ≠ '=') = [])) := by
  obtain ⟨found, hfound, h⟩ := Option.bind_eq_some_iff.1 h
  refine ⟨found, List.mem_of_find?_eq_some hfound, by simpa using List.find?_some hfound, ?_⟩
  split at h
  · next hvalue => exact .inl ⟨(Option.some.inj h).symm, hvalue⟩
  · next hrest _ => exact .inr ⟨[], (Option.some.inj h).symm, .inr hrest⟩
  · next value _ hvalue => exact .inr ⟨value, (Option.some.inj h).symm, .inl hvalue⟩
  · cases h

theorem mem_names_of_readLong (hname : name.takesValue = false)
    (h : readLong position cs = some reading) :
    name ∈ names reading.settings ↔ cs = name.long.toList := by
  obtain ⟨found, -, hlong, hcase⟩ := readLong_eq_some h
  -- The text of the flag has no equals sign, so the flag is the option that is found.
  have hfound : cs = name.long.toList → found = name := fun hcs => by
    rw [hcs, takeWhile_long] at hlong
    exact long_injective (String.toList_inj.1 hlong)
  rcases hcase with ⟨rfl, hvalue⟩ | ⟨value, rfl, hvalue⟩
  · refine ⟨nofun, fun hcs => ?_⟩
    rw [hfound hcs, hname] at hvalue
    cases hvalue
  · refine ⟨fun hmem => ?_, fun hcs => by simp [hfound hcs]⟩
    obtain rfl : name = found := by simpa using hmem
    have hrest : cs.dropWhile (· ≠ '=') = [] := hvalue.resolve_left (by simp [hname])
    calc cs = cs.takeWhile (· ≠ '=') ++ cs.dropWhile (· ≠ '=') :=
          (List.takeWhile_append_dropWhile ..).symm
      _ = name.long.toList := by rw [hrest, List.append_nil, hlong]

theorem options_of_readArgument (h : readArgument position arg = some reading) :
    (∀ name ∈ names reading.settings, name ∈ position.options) ∧
      ∀ name, reading.waiting? = some name → name.takesValue = true := by
  unfold readArgument at h
  split at h
  · obtain ⟨found, hfound, -, hcase⟩ := readLong_eq_some h
    rcases hcase with ⟨rfl, hvalue⟩ | ⟨value, rfl, -⟩
    · exact ⟨nofun, fun name hname => Option.some.inj hname ▸ hvalue⟩
    · exact ⟨by simpa using hfound, nofun⟩
  · obtain ⟨hnames, hwaiting⟩ := readShort_eq_some h
    exact ⟨fun name hname => (hnames name hname).1, hwaiting⟩
  · cases h

theorem mem_names_of_readArgument (hname : name.IsFlag)
    (h : readArgument position arg = some reading) :
    name ∈ names reading.settings ↔ arg = name.text := by
  unfold readArgument at h
  unfold OptionName.text
  split at h
  · next cs => simpa using mem_names_of_readLong hname.1 h
  · next c cs hdash =>
    refine ⟨fun hmem => absurd hname.2 ((readShort_eq_some h).1 name hmem).2, fun harg => ?_⟩
    obtain ⟨rfl, hcs⟩ : c = '-' ∧ cs = name.long.toList := by simpa using harg
    exact (hdash rfl).elim
  · cases h

/-! ## The options behind the word -/

theorem addSetting_eq_some {setting : OptionName × List Char} {next : Settings}
    (h : addSetting settings setting = some next) : next = settings ++ [setting] := by
  unfold addSetting at h
  split at h
  · cases h
  · exact (Option.some.inj h).symm

theorem foldlM_addSetting_eq_some {more next : Settings}
    (h : more.foldlM addSetting settings = some next) : next = settings ++ more := by
  induction more generalizing settings with
  | nil => simpa using h.symm
  | cons setting more ih =>
    rw [List.foldlM_cons] at h
    obtain ⟨middle, hmiddle, h⟩ := Option.bind_eq_some_iff.1 h
    rw [ih h, addSetting_eq_some hmiddle, List.append_assoc, List.singleton_append]

theorem text_ne_dashes (name : OptionName) : name.text ≠ ['-', '-'] := by
  cases name <;> decide

theorem text_ne_of_isSeparateValue (h : isSeparateValue arg = true) : name.text ≠ arg := by
  rintro rfl
  simp [isSeparateValue, OptionName.text] at h

/-- The options behind the word set a flag exactly if its text is among them. -/
theorem mem_names_of_readOptions (hname : name.IsFlag) {waiting? : Option OptionName}
    (hwaiting : ∀ other, waiting? = some other → other.takesValue = true)
    (h : readOptions position settings waiting? args = some late) :
    name ∈ names late ↔ name ∈ names settings ∨ name.text ∈ args := by
  induction settings, waiting?, args using readOptions.induct with
  | case1 settings => simp [← Option.some.inj h]
  | case2 | case4 => simp_all [readOptions]
  | case3 settings other value args hvalue ih =>
    -- The argument is a value: it is not the flag, and neither is the option that waits for it.
    rw [readOptions, if_pos hvalue] at h
    obtain ⟨next, hnext, h⟩ := Option.bind_eq_some_iff.1 h
    have hother : name ≠ other := by
      rintro rfl
      simpa [hname.1] using hwaiting name rfl
    have hnextNames : name ∈ names next ↔ name ∈ names settings := by
      simp [addSetting_eq_some hnext, hother]
    rw [ih next nofun h, hnextNames, List.mem_cons,
      or_iff_right (text_ne_of_isSeparateValue hvalue)]
  | case5 settings => simp [← Option.some.inj h, text_ne_dashes]
  | case6 settings args hargs => simp [readOptions, hargs] at h
  | case7 settings arg args harg ih =>
    rw [readOptions, if_neg harg] at h
    obtain ⟨reading, hreading, h⟩ := Option.bind_eq_some_iff.1 h
    obtain ⟨next, hnext, h⟩ := Option.bind_eq_some_iff.1 h
    rw [ih reading next (options_of_readArgument hreading).2 h, foldlM_addSetting_eq_some hnext,
      names_append, List.mem_append, mem_names_of_readArgument hname hreading, List.mem_cons,
      eq_comm (a := arg), or_assoc]

/-! ## Whole command lines -/

theorem text_ne_check (name : OptionName) : name.text ≠ "check".toList := by
  cases name <;> decide

theorem text_ne_dump (name : OptionName) : name.text ≠ "dump".toList := by
  cases name <;> decide

theorem not_mem_beforeWord (hname : name.IsFlag) : name ∉ Position.beforeWord.options := by
  rintro hmem
  obtain rfl : name = .verbose := by simpa [Position.options] using hmem
  cases hname.2

theorem mem_names_behind_word (hword : ∀ name : OptionName, name.text ≠ arg)
    (h : readOptions position [] none args = some late) (hname : name.IsFlag) :
    name ∈ names late ↔ name.text ∈ arg :: args := by
  have hwaiting : ∀ other, (none : Option OptionName) = some other → other.takesValue = true :=
    nofun
  rw [mem_names_of_readOptions hname hwaiting h, names_nil, List.mem_cons]
  simp [hword name]

/-- A command is made of the options before and behind its word, and the flags are behind it. -/
theorem readCommand_eq_some {command : Command} (h : readCommand early args = some command) :
    ∃ front back action, command? front back action = some command ∧
      ∀ name : OptionName, name.IsFlag → (name ∈ names back ↔ name.text ∈ args) := by
  induction args generalizing early with
  | nil => cases h
  | cons arg args ih =>
    rw [readCommand] at h
    split at h
    · next hword =>
      obtain ⟨back, hback, h⟩ := Option.bind_eq_some_iff.1 h
      exact ⟨early, back, .check, h,
        fun _ => mem_names_behind_word (hword ▸ text_ne_check) hback⟩
    · split at h
      · next hword =>
        obtain ⟨back, hback, h⟩ := Option.bind_eq_some_iff.1 h
        exact ⟨early, back, _, h, fun _ => mem_names_behind_word (hword ▸ text_ne_dump) hback⟩
      · obtain ⟨reading, hreading, h⟩ := Option.bind_eq_some_iff.1 h
        obtain ⟨next, -, h⟩ := Option.bind_eq_some_iff.1 h
        obtain ⟨front, back, action, hcommand, hmem⟩ := ih h
        refine ⟨front, back, action, hcommand, fun name hname => ?_⟩
        -- The argument is not the flag, which would not be accepted here.
        have hne : name.text ≠ arg := fun htext => not_mem_beforeWord hname <|
          (options_of_readArgument hreading).1 name
            ((mem_names_of_readArgument hname hreading).2 htext.symm)
        rw [hmem name hname, List.mem_cons, or_iff_right hne]

theorem policy_of_command? {action : Action} {command : Command}
    (h : command? early late action = some command) :
    command.policy =
      { idCheck := if OptionName.deferredIdCheck ∈ names late then .atEnd else .whileReading
        emptyInput := if OptionName.requireMessages ∈ names late then .reject else .accept } := by
  obtain ⟨input, -, h⟩ := Option.bind_eq_some_iff.1 h
  rw [← Option.some.inj h]
  simp only [has_iff_mem_names]

/-- The policy of an accepted command line is the one that its flags denote. -/
theorem policy_of_parse {args : List String} {command : Command} (h : parse args = some command) :
    command.policy = flagsPolicy args := by
  obtain ⟨early, late, action, hcommand, hmem⟩ := readCommand_eq_some h
  have hflag : ∀ name : OptionName, ∀ flag : String, flag.toList = name.text → name.IsFlag →
      (name ∈ names late ↔ flag ∈ args) := fun name flag hflag hname => by
    rw [hmem name hname, ← hflag]
    simp [String.toList_inj]
  have hdeferred := hflag .deferredIdCheck "--deferred-id-check" (by decide) ⟨rfl, rfl⟩
  have hrequire := hflag .requireMessages "--require-messages" (by decide) ⟨rfl, rfl⟩
  rw [policy_of_command? hcommand, flagsPolicy]
  simp only [hdeferred, hrequire]

/-- A text within the value of another option is no flag. -/
example :
    (parse ["check", "-i", "a.proto", "--require-messages"]).map (·.policy) =
        some (flagsPolicy ["--require-messages"]) ∧
      (parse ["dump", "-i", "a.proto", "--output=--require-messages"]).map (·.policy) =
        some (flagsPolicy []) := by
  decide +kernel

end ProtoSchema.Arguments
