import Mathlib.Data.List.Forall2
import ProtoSchema.Proofs.JsonText

/-!
# The layout of JSON values

What is written for a value is a JSON text of that value.

**Pieces.** A layout is put together from pieces. Each piece is spelled whatever stands behind it,
as long as that does not start with a digit (`Spells`), and pieces have a comma, a line end, a colon
or a closing bracket behind them.

Results:
* `charSpelling_escape`, `tokenSpelling_quoted`: strings as they are written are spelled;
* `tokenSpelling_signedDecimal`: so are numbers, which get no leading zeros;
* `spells_layout`: the layout of a value spells its tokens, at each level;
* `spelling_render`: the document of a value is a JSON text of it.
-/
namespace ProtoSchema.Json

open Text

/-! ## Strings -/

theorem hexValue?_digitChar : ∀ d < 16, hexValue? (Nat.digitChar d) = some d := by
  decide

theorem codeChar?_control {c : Char} (h : c.toNat < 0x20) :
    codeChar? '0' '0' (Nat.digitChar (c.toNat / 16)) (Nat.digitChar (c.toNat % 16)) = some c := by
  have hzero : hexValue? '0' = some 0 := by decide
  have hcode : 0x1000 * 0 + 0x100 * 0 + 0x10 * (c.toNat / 16) + c.toNat % 16 = c.toNat := by omega
  have hvalid : c.toNat.isValidChar := .inl (by omega)
  simp only [codeChar?, hzero, hexValue?_digitChar _ (show c.toNat / 16 < 16 by omega),
    hexValue?_digitChar _ (show c.toNat % 16 < 16 by omega), Option.bind_eq_bind, Option.bind_some,
    hcode, if_pos hvalid, Char.ofNat_toNat]

theorem charSpelling_escape (c : Char) : CharSpelling c (escape c) := by
  unfold escape
  iterate 7
    split
    · next hc =>
      subst hc
      exact .short (by decide)
  -- Neither the quote nor the backslash nor a control character with a short escape is left.
  split
  · next hcontrol => exact .code (codeChar?_control hcontrol)
  · next hquote hslash _ _ _ _ _ hcontrol =>
    exact .plain (by simpa [isPlain, hquote, hslash] using hcontrol)

theorem tokenSpelling_quoted (content : String) :
    TokenSpelling (.string content) (quoted content.toList) := by
  have htext : ∀ cs, TextSpelling cs (cs.flatMap escape) := fun cs => by
    induction cs with
    | nil => exact .nil
    | cons c cs ih => exact .cons (charSpelling_escape c) ih
  have hstring := TokenSpelling.string (htext content.toList)
  rwa [String.ofList_toList] at hstring

/-! ## Numbers -/

theorem head?_decimal_ne_zero {n : Nat} (h : 0 < n) : (decimal n).head? ≠ some '0' := by
  induction n using Nat.strongRecOn with
  | ind n ih =>
    unfold decimal at ih ⊢
    by_cases hn : n < 10
    · rw [Nat.toDigits_of_lt_base hn, List.head?_cons, ne_eq, Option.some.injEq,
        Nat.digitChar_eq_zero]
      omega
    · have hne : Nat.toDigits 10 (n / 10) ≠ [] := Nat.toDigits_ne_nil
      rw [Nat.toDigits_of_base_le (by decide) (by omega), List.head?_append_of_ne_nil _ hne]
      exact ih (n / 10) (by omega) (by omega)

theorem isNumeral_decimal (n : Nat) : isNumeral (decimal n) = true := by
  refine decide_eq_true ⟨Nat.toDigits_ne_nil, fun hzero => ?_⟩
  cases n with
  | zero => exact Nat.toDigits_zero 10
  | succ n => exact absurd hzero (head?_decimal_ne_zero (Nat.succ_pos n))

theorem tokenSpelling_signedDecimal (value : Int) :
    TokenSpelling (.number value) (signedDecimal value) := by
  have hdigits : ∀ n, ∀ c ∈ decimal n, c.isDigit = true := fun n c hc =>
    Nat.isDigit_of_mem_toDigits (by decide) (by decide) hc
  have hread : ∀ n, Nat.ofDigitChars 10 (decimal n) 0 = n := fun n => Nat.ofDigitChars_ten_toDigits
  cases value with
  | ofNat n =>
    have hnumber := TokenSpelling.number (hdigits n) (isNumeral_decimal n)
    rwa [hread] at hnumber
  | negSucc n =>
    have hnumber := TokenSpelling.negative (hdigits (n + 1)) (isNumeral_decimal (n + 1))
    rwa [hread] at hnumber

/-! ## Pieces -/

/-- The piece spells the row, whatever stands behind it that does not start with a digit. -/
def Spells (row : List Token) (piece : List Char) : Prop :=
  ∀ {behind : List Token} {cs : List Char}, NotAhead Char.isDigit cs → Spelling behind cs →
    Spelling (row ++ behind) (piece ++ cs)

theorem TokenSpelling.spells {token : Token} {piece : List Char} (h : TokenSpelling token piece) :
    Spells [token] piece :=
  fun hcs hbehind => .token h (fun _ _ => hcs) hbehind

theorem Spelling.symbol {c : Char} {token : Token} {row : List Token} {cs : List Char}
    (hc : (c, token) ∈ symbols) (h : Spelling row cs) : Spelling (token :: row) (c :: cs) :=
  .token (.symbol hc) (endsAt_of_mem_symbols hc cs) h

theorem Spelling.newline {row : List Token} {cs : List Char} (level : Nat) (h : Spelling row cs) :
    Spelling row (newline level ++ cs) := by
  refine .space (by decide) ?_
  induction 2 * level with
  | zero => exact h
  | succ n ih => exact .space (by decide) ih

/-- Pieces behind the first one: a comma and a line end are in front of each. -/
theorem Spelling.pieces {rows : List (List Token)} {texts : List (List Char)} {behind : List Token}
    {cs : List Char} (level : Nat) (htexts : List.Forall₂ Spells rows texts)
    (hcs : NotAhead Char.isDigit cs) (h : Spelling behind cs) :
    Spelling (rows.flatMap (Token.comma :: ·) ++ behind)
        (texts.flatMap (fun text => ',' :: (Json.newline level ++ text)) ++ cs) ∧
      NotAhead Char.isDigit
        (texts.flatMap (fun text => ',' :: (Json.newline level ++ text)) ++ cs) := by
  induction htexts with
  | nil => exact ⟨h, hcs⟩
  | cons htext _ ih =>
    obtain ⟨hspelling, hahead⟩ := ih
    refine ⟨?_, notAhead_cons.2 (by decide)⟩
    simp only [List.flatMap_cons, List.cons_append, List.append_assoc]
    exact .symbol (by decide) (.newline level (htext hahead hspelling))

theorem spells_bracketed {opening closing : Char} {openToken closeToken : Token}
    (hopening : (opening, openToken) ∈ symbols) (hclosing : (closing, closeToken) ∈ symbols)
    (level : Nat) {rows : List (List Token)} {texts : List (List Char)}
    (htexts : List.Forall₂ Spells rows texts) :
    Spells (openToken :: (separated rows ++ [closeToken]))
      (bracketed opening closing level texts) := by
  intro behind cs hcs h
  cases htexts with
  | nil => exact .symbol hopening (.symbol hclosing h)
  | cons htext hrest =>
    have hend : Spelling (closeToken :: behind) (newline level ++ closing :: cs) :=
      .newline level (.symbol hclosing h)
    obtain ⟨hspelling, hahead⟩ :=
      Spelling.pieces (level + 1) hrest (notAhead_cons.2 (by decide)) hend
    simp only [separated, bracketed, List.cons_append, List.append_assoc, List.nil_append]
    exact .symbol hopening (.newline (level + 1) (htext hahead hspelling))

/-! ## Values -/

mutual

/-- The layout of a value spells its tokens. -/
theorem spells_layout (level : Nat) : ∀ value : Json, Spells value.tokens (value.layout level)
  | .null => TokenSpelling.null.spells
  | .number value => (tokenSpelling_signedDecimal value).spells
  | .string content => (tokenSpelling_quoted content).spells
  | .array items => spells_bracketed (by decide) (by decide) level (spells_items (level + 1) items)
  | .object entries =>
    spells_bracketed (by decide) (by decide) level (spells_entries (level + 1) entries)

theorem spells_items (level : Nat) :
    ∀ items : List Json, List.Forall₂ Spells (itemTokens items) (layoutItems level items)
  | [] => .nil
  | item :: items => .cons (spells_layout level item) (spells_items level items)

theorem spells_entries (level : Nat) :
    ∀ entries : List (String × Json),
      List.Forall₂ Spells (entryTokens entries) (layoutEntries level entries)
  | [] => .nil
  | (key, value) :: entries => by
    refine .cons (fun hcs h => ?_) (spells_entries level entries)
    simp only [List.append_assoc, List.cons_append]
    exact .token (tokenSpelling_quoted key) nofun
      (.symbol (by decide) (.space (by decide) (spells_layout level value hcs h)))

end

/-- The document of a value is a JSON text of that value. -/
theorem spelling_render (value : Json) : Spelling value.tokens value.render.toList := by
  have hlayout := spells_layout 0 value (notAhead_nil _) .nil
  rw [List.append_nil, List.append_nil] at hlayout
  rwa [render, String.toList_ofList]

end ProtoSchema.Json
