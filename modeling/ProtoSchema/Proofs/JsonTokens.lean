import ProtoSchema.Json

/-!
# Tokens of JSON values

A JSON value as the row of its tokens, and the machine that reads such a row.

**The machine.** It reads one token after the other and keeps the lists and objects that are still
open on a stack. What it holds is always what it has read: `State.tokens` says which tokens a state
stands for, and every step adds its own to them (`step_tokens`). So nothing but the tokens of a
value is accepted, and those are (`run_tokens`).

Results:
* `run_tokens`: the machine gets through the tokens of a value, whatever is behind them;
* `ofTokens?_eq_some`: a row of tokens is read as a value exactly if it is the row of that value.
-/
namespace ProtoSchema

inductive Token
  | openBracket
  | closeBracket
  | openBrace
  | closeBrace
  | comma
  | colon
  | null
  | number (value : Int)
  | string (text : String)
  deriving DecidableEq, Repr

/-- Rows of tokens with a comma between any two of them. -/
def separated : List (List Token) → List Token
  | [] => []
  | row :: rows => row ++ rows.flatMap (Token.comma :: ·)

theorem comma_flatMap (rows : List (List Token)) :
    Token.comma :: rows.flatMap (· ++ [.comma]) = rows.flatMap (Token.comma :: ·) ++ [.comma] := by
  induction rows with
  | nil => rfl
  | cons row rows ih => simp [ih]

theorem separated_concat (rows : List (List Token)) (row : List Token) :
    separated (rows ++ [row]) = rows.flatMap (· ++ [.comma]) ++ row := by
  cases rows with
  | nil => simp [separated]
  | cons first rows =>
    calc separated (first :: rows ++ [row])
        = first ++ (rows.flatMap (Token.comma :: ·) ++ [.comma]) ++ row := by simp [separated]
      _ = first ++ (Token.comma :: rows.flatMap (· ++ [.comma])) ++ row := by rw [comma_flatMap]
      _ = (first :: rows).flatMap (· ++ [.comma]) ++ row := by simp

namespace Json

mutual

/-- The tokens of a value. -/
def tokens : Json → List Token
  | .null => [.null]
  | .number value => [.number value]
  | .string text => [.string text]
  | .array items => .openBracket :: (separated (itemTokens items) ++ [.closeBracket])
  | .object entries => .openBrace :: (separated (entryTokens entries) ++ [.closeBrace])
termination_by structural value => value

/-- The tokens of each item of a list. -/
def itemTokens : List Json → List (List Token)
  | [] => []
  | item :: items => item.tokens :: itemTokens items
termination_by structural items => items

/-- The tokens of each entry of an object. -/
def entryTokens : List (String × Json) → List (List Token)
  | [] => []
  | (key, value) :: entries =>
    (.string key :: .colon :: value.tokens) :: entryTokens entries
termination_by structural entries => entries

end

theorem itemTokens_append (front back : List Json) :
    itemTokens (front ++ back) = itemTokens front ++ itemTokens back := by
  induction front with
  | nil => rfl
  | cons item front ih => simp only [List.cons_append, itemTokens, ih]

theorem entryTokens_append (front back : List (String × Json)) :
    entryTokens (front ++ back) = entryTokens front ++ entryTokens back := by
  induction front with
  | nil => rfl
  | cons entry front ih => simp only [List.cons_append, entryTokens, ih]

/-! ## The machine -/

/-- A list or an object that is still open, up to the value that is being read. -/
inductive Frame
  | array (items : List Json)
  | object (entries : List (String × Json)) (key : String)

/-- What the next token has to do with. -/
inductive Focus
  | value
  /-- A value has just ended. -/
  | ended (value : Json)
  /-- A list has just been opened. -/
  | firstItem
  /-- An object has just been opened. -/
  | firstEntry
  | entry (entries : List (String × Json))
  | colon (entries : List (String × Json)) (key : String)

/-- The machine between two tokens; the innermost frame is the first one. -/
structure State where
  focus : Focus := .value
  frames : List Frame := []

/-- Reads the first token of a value. -/
def stepValue (frames : List Frame) : Token → Option State
  | .null => some { focus := .ended .null, frames }
  | .number value => some { focus := .ended (.number value), frames }
  | .string text => some { focus := .ended (.string text), frames }
  | .openBracket => some { focus := .firstItem, frames }
  | .openBrace => some { focus := .firstEntry, frames }
  | _ => none

/-- Reads the token behind a value, which goes on with the innermost frame or closes it. -/
def stepEnded (value : Json) : List Frame → Token → Option State
  | .array items :: frames, .comma =>
    some { focus := .value, frames := .array (items ++ [value]) :: frames }
  | .array items :: frames, .closeBracket =>
    some { focus := .ended (.array (items ++ [value])), frames }
  | .object entries key :: frames, .comma =>
    some { focus := .entry (entries ++ [(key, value)]), frames }
  | .object entries key :: frames, .closeBrace =>
    some { focus := .ended (.object (entries ++ [(key, value)])), frames }
  | _, _ => none

def step : State → Token → Option State
  | { focus := .value, frames }, token => stepValue frames token
  | { focus := .ended value, frames }, token => stepEnded value frames token
  | { focus := .firstItem, frames }, .closeBracket => some { focus := .ended (.array []), frames }
  | { focus := .firstItem, frames }, token => stepValue (.array [] :: frames) token
  | { focus := .firstEntry, frames }, .closeBrace => some { focus := .ended (.object []), frames }
  | { focus := .firstEntry, frames }, .string key => some { focus := .colon [] key, frames }
  | { focus := .entry entries, frames }, .string key => some { focus := .colon entries key, frames }
  | { focus := .colon entries key, frames }, .colon =>
    some { focus := .value, frames := .object entries key :: frames }
  | _, _ => none

def run : State → List Token → Option State
  | s, [] => some s
  | s, token :: row => (step s token).bind (run · row)

/-- The value that has been read, if nothing is open any more. -/
def State.value? : State → Option Json
  | { focus := .ended value, frames := [] } => some value
  | _ => none

/-- The value with these tokens. -/
def ofTokens? (row : List Token) : Option Json :=
  (run {} row).bind State.value?

/-! ## What is accepted -/

/-- The tokens of an open list or object, which go on with a value. -/
def Frame.tokens : Frame → List Token
  | .array items => .openBracket :: (itemTokens items).flatMap (· ++ [.comma])
  | .object entries key =>
    .openBrace :: ((entryTokens entries).flatMap (· ++ [.comma]) ++ [.string key, .colon])

def Focus.tokens : Focus → List Token
  | .value => []
  | .ended done => done.tokens
  | .firstItem => [.openBracket]
  | .firstEntry => [.openBrace]
  | .entry entries => .openBrace :: (entryTokens entries).flatMap (· ++ [.comma])
  | .colon entries key =>
    .openBrace :: ((entryTokens entries).flatMap (· ++ [.comma]) ++ [.string key])

/-- The tokens that a state stands for. -/
def State.tokens (s : State) : List Token :=
  s.frames.reverse.flatMap Frame.tokens ++ s.focus.tokens

theorem tokens_array_concat (items : List Json) (item : Json) :
    (Json.array (items ++ [item])).tokens =
      (Frame.array items).tokens ++ (item.tokens ++ [.closeBracket]) := by
  rw [tokens, itemTokens_append]
  simp [itemTokens, separated_concat, Frame.tokens]

theorem tokens_object_concat (entries : List (String × Json)) (key : String) (value : Json) :
    (Json.object (entries ++ [(key, value)])).tokens =
      (Frame.object entries key).tokens ++ (value.tokens ++ [.closeBrace]) := by
  rw [tokens, entryTokens_append]
  simp [entryTokens, separated_concat, Frame.tokens]

theorem stepValue_tokens {frames : List Frame} {token : Token} {next : State}
    (h : stepValue frames token = some next) :
    next.tokens = State.tokens { focus := .value, frames } ++ [token] := by
  cases token <;> cases h <;> simp [State.tokens, Focus.tokens, tokens]

theorem stepEnded_tokens {value : Json} {frames : List Frame} {token : Token} {next : State}
    (h : stepEnded value frames token = some next) :
    next.tokens = State.tokens { focus := .ended value, frames } ++ [token] := by
  unfold stepEnded at h
  split at h
  · obtain rfl := Option.some.inj h
    simp [State.tokens, Focus.tokens, Frame.tokens, itemTokens_append, itemTokens]
  · obtain rfl := Option.some.inj h
    simp [State.tokens, Focus.tokens, tokens_array_concat]
  · obtain rfl := Option.some.inj h
    simp [State.tokens, Focus.tokens, Frame.tokens, entryTokens_append, entryTokens]
  · obtain rfl := Option.some.inj h
    simp [State.tokens, Focus.tokens, tokens_object_concat]
  · cases h

/-- A step adds the token that it reads. -/
theorem step_tokens {s next : State} {token : Token} (h : step s token = some next) :
    next.tokens = s.tokens ++ [token] := by
  unfold step at h
  split at h
  · exact stepValue_tokens h
  · exact stepEnded_tokens h
  · obtain rfl := Option.some.inj h
    simp [State.tokens, Focus.tokens, tokens, itemTokens, separated]
  · rw [stepValue_tokens h]
    simp [State.tokens, Focus.tokens, Frame.tokens, itemTokens]
  · obtain rfl := Option.some.inj h
    simp [State.tokens, Focus.tokens, tokens, entryTokens, separated]
  · obtain rfl := Option.some.inj h
    simp [State.tokens, Focus.tokens, entryTokens]
  · obtain rfl := Option.some.inj h
    simp [State.tokens, Focus.tokens]
  · obtain rfl := Option.some.inj h
    simp [State.tokens, Focus.tokens, Frame.tokens]
  · cases h

theorem tokens_run {s last : State} {row : List Token} (h : run s row = some last) :
    last.tokens = s.tokens ++ row := by
  induction row generalizing s with
  | nil => simp [← Option.some.inj h]
  | cons token row ih =>
    obtain ⟨next, hnext, h⟩ := Option.bind_eq_some_iff.1 h
    rw [ih h, step_tokens hnext, List.append_assoc, List.singleton_append]

theorem State.value?_eq_some {s : State} {value : Json} (h : s.value? = some value) :
    s = { focus := .ended value, frames := [] } := by
  unfold State.value? at h
  split at h
  · rw [Option.some.inj h]
  · cases h

/-! ## Every value is read -/

theorem exists_tokens_eq_cons (value : Json) :
    ∃ token row, value.tokens = token :: row ∧ token ≠ .closeBracket := by
  cases value <;> exact ⟨_, _, rfl, nofun⟩

theorem run_firstItem (frames : List Frame) (item : Json) (row : List Token) :
    run { focus := .firstItem, frames } (item.tokens ++ row) =
      run { focus := .value, frames := .array [] :: frames } (item.tokens ++ row) := by
  obtain ⟨token, rest, htokens, htoken⟩ := item.exists_tokens_eq_cons
  rw [htokens, List.cons_append, run, run]
  cases token with
  | closeBracket => exact absurd rfl htoken
  | _ => rfl

mutual

/-- The machine gets through the tokens of a value, whatever is open and whatever is behind them. -/
theorem run_tokens (frames : List Frame) (row : List Token) :
    ∀ value : Json, run { focus := .value, frames } (value.tokens ++ row) =
      run { focus := .ended value, frames } row
  | .null | .number _ | .string _ => rfl
  | .array [] | .object [] => rfl
  | .array (item :: items) => by
    simp only [tokens, itemTokens, separated, List.cons_append, List.append_assoc]
    change run { focus := .firstItem, frames } _ = _
    rw [run_firstItem, run_tokens _ _ item]
    exact run_itemTokens frames [] item row items
  | .object ((key, value) :: entries) => by
    simp only [tokens, entryTokens, separated, List.cons_append, List.append_assoc]
    change run { focus := .value, frames := .object [] key :: frames } _ = _
    rw [run_tokens _ _ value]
    exact run_entryTokens frames [] key value row entries

theorem run_itemTokens (frames : List Frame) (front : List Json) (item : Json) (row : List Token) :
    ∀ items : List Json,
      run { focus := .ended item, frames := .array front :: frames }
          ((itemTokens items).flatMap (Token.comma :: ·) ++ ([.closeBracket] ++ row)) =
        run { focus := .ended (.array (front ++ item :: items)), frames } row
  | [] => rfl
  | next :: items => by
    simp only [itemTokens, List.flatMap_cons, List.cons_append, List.append_assoc]
    change run { focus := .value, frames := .array (front ++ [item]) :: frames } _ = _
    rw [run_tokens _ _ next]
    have hitems := run_itemTokens frames (front ++ [item]) next row items
    rwa [List.append_assoc, List.singleton_append] at hitems

theorem run_entryTokens (frames : List Frame) (front : List (String × Json)) (key : String)
    (value : Json) (row : List Token) :
    ∀ entries : List (String × Json),
      run { focus := .ended value, frames := .object front key :: frames }
          ((entryTokens entries).flatMap (Token.comma :: ·) ++ ([.closeBrace] ++ row)) =
        run { focus := .ended (.object (front ++ (key, value) :: entries)), frames } row
  | [] => rfl
  | (key', next) :: entries => by
    simp only [entryTokens, List.flatMap_cons, List.cons_append, List.append_assoc]
    change run { focus := .value, frames := .object (front ++ [(key, value)]) key' :: frames } _ = _
    rw [run_tokens _ _ next]
    have hentries := run_entryTokens frames (front ++ [(key, value)]) key' next row entries
    rwa [List.append_assoc, List.singleton_append] at hentries

end

/-- A row of tokens is read as a value exactly if it is the row of that value. -/
theorem ofTokens?_eq_some {row : List Token} {value : Json} :
    ofTokens? row = some value ↔ value.tokens = row := by
  constructor
  · intro h
    obtain ⟨last, hlast, hvalue⟩ := Option.bind_eq_some_iff.1 h
    have hrow := tokens_run hlast
    rw [State.value?_eq_some hvalue] at hrow
    exact hrow
  · rintro rfl
    have hrun := run_tokens [] [] value
    rw [List.append_nil] at hrun
    rw [ofTokens?, hrun]
    rfl

end Json

end ProtoSchema
