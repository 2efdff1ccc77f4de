import ProtoSchema.Proofs.JsonTokens
import ProtoSchema.Proofs.Reading

/-!
# JSON texts

How the tokens of JSON are spelled, and the reader of such texts. White space may stand in front of
each token and at the end. The escapes of surrogate pairs are left out: a character beyond U+FFFF
stands for itself.

**Where tokens end.** Each token ends by itself but for a number, which goes on as long as there are
digits. So none may follow it.

Results:
* `readText_eq_some`, `readToken_eq_some`: what the readers of strings and of tokens accept;
* `readTokens_eq_some`: a text is read as a row of tokens exactly if it spells that row;
* `read?_eq_some`: a text is read as a value exactly if it spells its tokens, so it is the text of
  at most one value.
-/
namespace ProtoSchema.Json

open Text

/-! ## Spelling -/

/-- The white space of JSON. -/
def isSpace (c : Char) : Bool :=
  c = ' ' ∨ c = '\t' ∨ c = '\n' ∨ c = '\r'

/-- The letters that may stand behind a backslash, and what they stand for. -/
def escapes : List (Char × Char) :=
  [('"', '"'), ('\\', '\\'), ('/', '/'), ('b', '\x08'), ('f', '\x0c'), ('n', '\n'), ('r', '\r'),
    ('t', '\t')]

def hexValue? (c : Char) : Option Nat :=
  if c.isDigit then some (c.toNat - '0'.toNat)
  else if 'a' ≤ c ∧ c ≤ 'f' then some (c.toNat - 'a'.toNat + 10)
  else if 'A' ≤ c ∧ c ≤ 'F' then some (c.toNat - 'A'.toNat + 10)
  else none

/-- The character with a code of four hexadecimal digits. -/
def codeChar? (p q r s : Char) : Option Char := do
  let code := 0x1000 * (← hexValue? p) + 0x100 * (← hexValue? q) + 0x10 * (← hexValue? r) +
    (← hexValue? s)
  if code.isValidChar then some (Char.ofNat code) else none

/-- Characters that stand for themselves between quotes. -/
def isPlain (c : Char) : Bool :=
  c ≠ '"' ∧ c ≠ '\\' ∧ 0x20 ≤ c.toNat

/-- How a character is spelled between quotes. -/
inductive CharSpelling : Char → List Char → Prop
  | plain {c : Char} (h : isPlain c = true) : CharSpelling c [c]
  | short {letter c : Char} (h : (letter, c) ∈ escapes) : CharSpelling c ['\\', letter]
  | code {c p q r s : Char} (h : codeChar? p q r s = some c) :
    CharSpelling c ['\\', 'u', p, q, r, s]

inductive TextSpelling : List Char → List Char → Prop
  | nil : TextSpelling [] []
  | cons {c : Char} {cs piece rest : List Char} (hc : CharSpelling c piece)
    (hcs : TextSpelling cs rest) : TextSpelling (c :: cs) (piece ++ rest)

/-- Digits that a number may have: at least one, and no zero in front of another. -/
def isNumeral (digits : List Char) : Bool :=
  digits ≠ [] ∧ (digits.head? = some '0' → digits = ['0'])

def symbols : List (Char × Token) :=
  [('[', .openBracket), (']', .closeBracket), ('\x7b', .openBrace), ('\x7d', .closeBrace),
    (',', .comma), (':', .colon)]

/-- How a token is spelled. -/
inductive TokenSpelling : Token → List Char → Prop
  | symbol {c : Char} {token : Token} (h : (c, token) ∈ symbols) : TokenSpelling token [c]
  | null : TokenSpelling .null "null".toList
  | number {digits : List Char} (hdigits : ∀ c ∈ digits, c.isDigit = true)
    (hnumeral : isNumeral digits = true) :
    TokenSpelling (.number (Nat.ofDigitChars 10 digits 0)) digits
  | negative {digits : List Char} (hdigits : ∀ c ∈ digits, c.isDigit = true)
    (hnumeral : isNumeral digits = true) :
    TokenSpelling (.number (-Nat.ofDigitChars 10 digits 0)) ('-' :: digits)
  | string {cs piece : List Char} (h : TextSpelling cs piece) :
    TokenSpelling (.string (String.ofList cs)) ('"' :: (piece ++ ['"']))

/-- The token ends where this text follows. -/
def EndsAt (token : Token) (rest : List Char) : Prop :=
  ∀ value, token = .number value → NotAhead Char.isDigit rest

/-- How a row of tokens is spelled. -/
inductive Spelling : List Token → List Char → Prop
  | nil : Spelling [] []
  | space {c : Char} {row : List Token} {cs : List Char} (hc : isSpace c = true)
    (h : Spelling row cs) : Spelling row (c :: cs)
  | token {token : Token} {row : List Token} {piece cs : List Char}
    (htoken : TokenSpelling token piece) (hend : EndsAt token cs) (h : Spelling row cs) :
    Spelling (token :: row) (piece ++ cs)

/-! ## Readers -/

/-- A string behind its opening quote. -/
def readText : Reader (List Char)
  | '"' :: rest => some ([], rest)
  | '\\' :: 'u' :: p :: q :: r :: s :: rest =>
    (codeChar? p q r s).bind fun c => (readText rest).map (Prod.map (c :: ·) id)
  | '\\' :: letter :: rest =>
    (escapes.lookup letter).bind fun c => (readText rest).map (Prod.map (c :: ·) id)
  | c :: rest =>
    if isPlain c then (readText rest).map (Prod.map (c :: ·) id) else none
  | [] => none

def readNumber : Reader Int := do
  let negative ← Reader.sign
  let digits ← Reader.run Char.isDigit isNumeral
  let value : Int := Nat.ofDigitChars 10 digits 0
  return if negative then -value else value

def readToken : Reader Token
  | [] => none
  | c :: rest =>
    match symbols.lookup c with
    | some token => some (token, rest)
    | none =>
      if c = '"' then (readText rest).map (Prod.map (.string ∘ String.ofList) id)
      else if c = 'n' then (Reader.token "null" >>= fun () => pure Token.null) (c :: rest)
      else (readNumber >>= fun value => pure (Token.number value)) (c :: rest)

/-! ## Strings -/

theorem mem_of_lookup_eq_some {α β : Type} [BEq α] [LawfulBEq α] {key : α} {value : β}
    {pairs : List (α × β)} (h : pairs.lookup key = some value) : (key, value) ∈ pairs := by
  obtain ⟨front, back, rfl, -⟩ := List.lookup_eq_some_iff.1 h
  simp

theorem lookup_escapes {letter c : Char} (h : (letter, c) ∈ escapes) :
    escapes.lookup letter = some c := by
  have hall : ∀ pair ∈ escapes, escapes.lookup pair.1 = some pair.2 := by decide
  exact hall _ h

theorem map_cons_eq_some {c : Char} {read : Option (List Char × List Char)} {cs rest : List Char} :
    read.map (Prod.map (c :: ·) id) = some (cs, rest) ↔
      ∃ tail, cs = c :: tail ∧ read = some (tail, rest) := by
  rw [Option.map_eq_some_iff]
  constructor
  · rintro ⟨⟨tail, rest⟩, hread, h⟩
    cases h
    exact ⟨tail, rfl, hread⟩
  · rintro ⟨tail, rfl, hread⟩
    exact ⟨(tail, rest), hread, rfl⟩

theorem textSpelling_of_readText {cs content rest : List Char}
    (h : readText cs = some (content, rest)) :
    ∃ piece, TextSpelling content piece ∧ cs = piece ++ '"' :: rest := by
  induction cs using readText.induct generalizing content with
  | case1 behind =>
    rw [readText] at h
    cases h
    exact ⟨[], .nil, rfl⟩
  | case2 p q r s behind ih =>
    rw [readText] at h
    obtain ⟨c, hc, h⟩ := Option.bind_eq_some_iff.1 h
    obtain ⟨tail, rfl, htail⟩ := map_cons_eq_some.1 h
    obtain ⟨piece, hpiece, rfl⟩ := ih htail
    exact ⟨_, .cons (.code hc) hpiece, rfl⟩
  | case3 letter behind hcode ih =>
    rw [readText.eq_3 _ _ hcode] at h
    obtain ⟨c, hc, h⟩ := Option.bind_eq_some_iff.1 h
    obtain ⟨tail, rfl, htail⟩ := map_cons_eq_some.1 h
    obtain ⟨piece, hpiece, rfl⟩ := ih htail
    exact ⟨_, .cons (.short (mem_of_lookup_eq_some hc)) hpiece, rfl⟩
  | case4 c behind hquote hcode hshort hplain ih =>
    rw [readText.eq_4 _ _ hquote hcode hshort, if_pos hplain] at h
    obtain ⟨tail, rfl, htail⟩ := map_cons_eq_some.1 h
    obtain ⟨piece, hpiece, rfl⟩ := ih htail
    exact ⟨_, .cons (.plain hplain) hpiece, rfl⟩
  | case5 c behind hquote hcode hshort hplain =>
    rw [readText.eq_4 _ _ hquote hcode hshort, if_neg hplain] at h
    cases h
  | case6 => cases h

theorem readText_charSpelling {c : Char} {piece : List Char} (h : CharSpelling c piece)
    (cs : List Char) : readText (piece ++ cs) = (readText cs).map (Prod.map (c :: ·) id) := by
  cases h with
  | plain h =>
    obtain ⟨hquote, hslash, -⟩ : c ≠ '"' ∧ c ≠ '\\' ∧ 0x20 ≤ c.toNat := by simpa [isPlain] using h
    rw [List.singleton_append, readText.eq_4 _ _ hquote (fun _ _ _ _ _ hc => absurd hc hslash)
      (fun _ _ hc => absurd hc hslash), if_pos h]
  | @short letter _ h =>
    have hletter : letter ≠ 'u' := by
      rintro rfl
      have hnone : escapes.lookup 'u' = none := by decide
      rw [lookup_escapes h] at hnone
      cases hnone
    rw [List.cons_append, List.singleton_append,
      readText.eq_3 _ _ fun _ _ _ _ _ hu => absurd hu hletter, lookup_escapes h]
    rfl
  | code h =>
    simp only [List.cons_append, List.nil_append]
    rw [readText, h]
    rfl

theorem readText_eq_some {cs content rest : List Char} :
    readText cs = some (content, rest) ↔
      ∃ piece, TextSpelling content piece ∧ cs = piece ++ '"' :: rest := by
  refine ⟨textSpelling_of_readText, ?_⟩
  rintro ⟨piece, hpiece, rfl⟩
  induction hpiece with
  | nil => rw [List.nil_append, readText]
  | cons hc _ ih =>
    rw [List.append_assoc, readText_charSpelling hc, ih]
    rfl

/-! ## Numbers -/

theorem exists_cons_of_isNumeral {digits : List Char} (h : isNumeral digits = true)
    (hdigits : ∀ c ∈ digits, c.isDigit = true) :
    ∃ c cs, digits = c :: cs ∧ c.isDigit = true := by
  cases digits with
  | nil => cases h
  | cons c cs => exact ⟨c, cs, rfl, hdigits c List.mem_cons_self⟩

theorem head?_ne_minus {digits : List Char} (h : isNumeral digits = true)
    (hdigits : ∀ c ∈ digits, c.isDigit = true) (rest : List Char) :
    (digits ++ rest).head? ≠ some '-' := by
  obtain ⟨c, cs, rfl, hc⟩ := exists_cons_of_isNumeral h hdigits
  intro hminus
  obtain rfl : c = '-' := Option.some.inj hminus
  cases hc

/-- A number is read exactly if it is spelled, up to a character that is no digit. -/
theorem readNumber_eq_some {cs rest : List Char} {value : Int} :
    readNumber cs = some (value, rest) ↔
      ∃ piece, TokenSpelling (.number value) piece ∧ cs = piece ++ rest ∧
        NotAhead Char.isDigit rest := by
  simp only [readNumber, Reader.bind_eq_some, Reader.pure_eq_some, Reader.sign_eq_some,
    Reader.run_eq_some]
  constructor
  · rintro ⟨negative, behind, hsign, digits, _, ⟨rfl, hnumeral, hdigits, hrest⟩, rfl, rfl⟩
    rcases hsign with ⟨rfl, rfl⟩ | ⟨rfl, rfl, -⟩
    · exact ⟨_, .negative hdigits hnumeral, rfl, hrest⟩
    · exact ⟨_, .number hdigits hnumeral, rfl, hrest⟩
  · rintro ⟨piece, hpiece, rfl, hrest⟩
    cases hpiece with
    | symbol h => simp [symbols] at h
    | number hdigits hnumeral =>
      exact ⟨false, _, .inr ⟨rfl, rfl, head?_ne_minus hnumeral hdigits rest⟩, piece, rest,
        ⟨rfl, hnumeral, hdigits, hrest⟩, rfl, rfl⟩
    | @negative digits hdigits hnumeral =>
      exact ⟨true, digits ++ rest, .inl ⟨rfl, rfl⟩, digits, rest,
        ⟨rfl, hnumeral, hdigits, hrest⟩, rfl, rfl⟩

/-! ## Tokens -/

theorem lookup_symbols {c : Char} {token : Token} (h : (c, token) ∈ symbols) :
    symbols.lookup c = some token := by
  have hall : ∀ pair ∈ symbols, symbols.lookup pair.1 = some pair.2 := by decide
  exact hall _ h

theorem lookup_symbols_of_isDigit {c : Char} (h : c.isDigit = true) :
    symbols.lookup c = none := by
  have hall : ∀ pair ∈ symbols, pair.1.isDigit = false := by decide
  refine List.lookup_eq_none_iff.2 fun pair hpair => ?_
  refine bne_iff_ne.2 fun hc => ?_
  rw [hc, hall pair hpair] at h
  cases h

theorem endsAt_of_mem_symbols {c : Char} {token : Token} (h : (c, token) ∈ symbols)
    (rest : List Char) : EndsAt token rest := by
  rintro value rfl
  simp [symbols] at h

theorem readToken_of_readNumber {c : Char} {cs rest : List Char} {value : Int}
    (hsymbol : symbols.lookup c = none) (hquote : c ≠ '"') (hnull : c ≠ 'n')
    (h : readNumber (c :: cs) = some (value, rest)) :
    readToken (c :: cs) = some (.number value, rest) := by
  simp only [readToken, hsymbol, if_neg hquote, if_neg hnull]
  exact Reader.bind_eq_some.2 ⟨value, rest, h, rfl⟩

theorem readToken_eq_some {cs rest : List Char} {token : Token} :
    readToken cs = some (token, rest) ↔
      ∃ piece, TokenSpelling token piece ∧ EndsAt token rest ∧ cs = piece ++ rest := by
  constructor
  · intro h
    cases cs with
    | nil => cases h
    | cons c behind =>
      rw [readToken] at h
      split at h
      · next symbol hsymbol =>
        cases h
        have hmem := mem_of_lookup_eq_some hsymbol
        exact ⟨[c], .symbol hmem, endsAt_of_mem_symbols hmem rest, rfl⟩
      · split at h
        · next hquote =>
          obtain ⟨⟨content, left⟩, htext, h⟩ := Option.map_eq_some_iff.1 h
          cases h
          obtain ⟨piece, hpiece, rfl⟩ := readText_eq_some.1 htext
          exact ⟨_, .string hpiece, nofun, by simp [hquote]⟩
        · split at h
          · obtain ⟨_, left, hnull, h⟩ := Reader.bind_eq_some.1 h
            obtain ⟨rfl, rfl⟩ := Reader.pure_eq_some.1 h
            exact ⟨_, .null, nofun, Reader.token_eq_some.1 hnull⟩
          · obtain ⟨value, left, hnumber, h⟩ := Reader.bind_eq_some.1 h
            obtain ⟨rfl, rfl⟩ := Reader.pure_eq_some.1 h
            obtain ⟨piece, hpiece, hcs, hrest⟩ := readNumber_eq_some.1 hnumber
            exact ⟨piece, hpiece, fun _ _ => hrest, hcs⟩
  · rintro ⟨piece, hpiece, hend, rfl⟩
    cases hpiece with
    | symbol h => simp only [List.singleton_append, readToken, lookup_symbols h]
    | null =>
      have hsymbol : symbols.lookup 'n' = none := by decide
      change readToken ('n' :: ("ull".toList ++ rest)) = _
      simp only [readToken, hsymbol, if_pos, if_neg (show ¬ 'n' = '"' by decide)]
      exact Reader.bind_eq_some.2 ⟨(), rest, Reader.token_eq_some.2 rfl, rfl⟩
    | number hdigits hnumeral =>
      have hnumber := readNumber_eq_some.2 ⟨_, .number hdigits hnumeral, rfl, hend _ rfl⟩
      obtain ⟨c, cs, rfl, hc⟩ := exists_cons_of_isNumeral hnumeral hdigits
      refine readToken_of_readNumber (lookup_symbols_of_isDigit hc) ?_ ?_ hnumber <;>
        · rintro rfl
          cases hc
    | negative hdigits hnumeral =>
      have hnumber := readNumber_eq_some.2 ⟨_, .negative hdigits hnumeral, rfl, hend _ rfl⟩
      exact readToken_of_readNumber (by decide) (by decide) (by decide) hnumber
    | @string content piece h =>
      have hsymbol : symbols.lookup '"' = none := by decide
      have htext : readText (piece ++ ['"'] ++ rest) = some (content, rest) :=
        readText_eq_some.2 ⟨piece, h, by simp⟩
      simp only [List.cons_append, readToken, hsymbol, if_true, htext]
      rfl

theorem isSpace_of_isDigit {c : Char} (h : c.isDigit = true) : isSpace c = false := by
  refine eq_false_of_ne_true fun hspace => ?_
  rcases of_decide_eq_true hspace with rfl | rfl | rfl | rfl <;> cases h

/-- No token starts with white space. -/
theorem TokenSpelling.exists_cons {token : Token} {piece : List Char}
    (h : TokenSpelling token piece) : ∃ c cs, piece = c :: cs ∧ isSpace c = false := by
  cases h with
  | @symbol c _ h =>
    have hall : ∀ pair ∈ symbols, isSpace pair.1 = false := by decide
    exact ⟨c, [], rfl, hall _ h⟩
  | null => exact ⟨'n', "ull".toList, rfl, by decide⟩
  | number hdigits hnumeral =>
    obtain ⟨c, cs, rfl, hc⟩ := exists_cons_of_isNumeral hnumeral hdigits
    exact ⟨c, cs, rfl, isSpace_of_isDigit hc⟩
  | negative => exact ⟨_, _, rfl, by decide⟩
  | string => exact ⟨_, _, rfl, by decide⟩

/-! ## Rows of tokens -/

/-- The tokens of a text. -/
def readTokens : List Char → Option (List Token)
  | [] => some []
  | c :: cs =>
    if isSpace c then readTokens cs
    else
      match _h : readToken (c :: cs) with
      | none => none
      | some (token, rest) => (readTokens rest).map (token :: ·)
termination_by cs => cs.length
decreasing_by
  · exact Nat.lt_succ_self _
  · obtain ⟨piece, hpiece, -, hcs⟩ := readToken_eq_some.1 _h
    obtain ⟨_, _, rfl, -⟩ := hpiece.exists_cons
    rw [hcs, List.length_append, List.length_cons]
    omega

theorem readTokens_cons {c : Char} (hc : ¬ isSpace c = true) (cs : List Char) :
    readTokens (c :: cs) =
      (readToken (c :: cs)).bind fun (token, rest) => (readTokens rest).map (token :: ·) := by
  rw [readTokens, if_neg hc]
  split
  · next h => rw [h, Option.bind_none]
  · next h => rw [h, Option.bind_some]

/-- A text is read as a row of tokens exactly if it spells that row. -/
theorem readTokens_eq_some {cs : List Char} {row : List Token} :
    readTokens cs = some row ↔ Spelling row cs := by
  constructor
  · intro h
    induction cs using readTokens.induct generalizing row with
    | case1 =>
      rw [readTokens] at h
      cases h
      exact .nil
    | case2 c cs hc ih =>
      rw [readTokens, if_pos hc] at h
      exact .space hc (ih h)
    | case3 c cs hc hread =>
      rw [readTokens_cons hc, hread] at h
      cases h
    | case4 c cs hc token rest hread ih =>
      rw [readTokens_cons hc, hread] at h
      obtain ⟨behind, hbehind, rfl⟩ := Option.map_eq_some_iff.1 h
      obtain ⟨piece, hpiece, hend, hcs⟩ := readToken_eq_some.1 hread
      exact hcs ▸ .token hpiece hend (ih hbehind)
  · intro h
    induction h with
    | nil => rw [readTokens]
    | space hc _ ih => rw [readTokens, if_pos hc, ih]
    | token htoken hend _ ih =>
      have hread := readToken_eq_some.2 ⟨_, htoken, hend, rfl⟩
      obtain ⟨c, behind, rfl, hc⟩ := htoken.exists_cons
      rw [List.cons_append] at hread ⊢
      rw [readTokens_cons (by simp [hc]), hread]
      exact Option.map_eq_some_iff.2 ⟨_, ih, rfl⟩

/-! ## Values -/

/-- The value that a text is the JSON text of. -/
def read? (text : String) : Option Json :=
  (readTokens text.toList).bind ofTokens?

/-- A text is read as a value exactly if it spells the tokens of that value. -/
theorem read?_eq_some {text : String} {value : Json} :
    read? text = some value ↔ Spelling value.tokens text.toList := by
  simp only [read?, Option.bind_eq_some_iff, readTokens_eq_some, ofTokens?_eq_some]
  exact ⟨fun ⟨_, hrow, htokens⟩ => htokens ▸ hrow, fun h => ⟨_, h, rfl⟩⟩

end ProtoSchema.Json
