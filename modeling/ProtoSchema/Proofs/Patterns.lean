import Mathlib.Computability.Language
import ProtoSchema.Proofs.Written

/-!
# Patterns of statements

For each kind of statement there is a regular language of the lines that hold one. The languages are
put together from classes of characters and fixed texts; nothing in them says what is read first or
how far a run goes. The reader of a kind accepts the lines of its language and no others, so the
laws of the readers are laws of the patterns.

**No overlap.** A line is in the language of one kind at most. It also is in the language of lines
that start with the keyword of a scope (`scopePrefix`) if it holds a field, and otherwise only if it
holds an enum value whose label is such a keyword.

Results:
* `mem_identifier`, `mem_dotted`, `mem_typePath`, `mem_optionName`, `mem_literal`, `mem_fieldEnd`:
  the parts of the patterns;
* `mem_mul_word`, `mem_mul_spaces`, `mem_mul_spaces1_mul`, `mem_mul_equals`, `mem_mul_digits`: the
  pieces at the end of a row of parts;
* `mem_pattern`: a line is in the language of a kind when a statement of the kind is written there;
* `isSome_whole?_iff`, `startsLikeField_iff_mem`: readers accept exactly what the patterns match;
* `kind_unique`, `mem_scopePrefix_iff`: which patterns share lines.
-/
namespace ProtoSchema

open Text
open scoped Computability

namespace Pattern

/-! ## Pieces -/

/-- One character of a class. -/
def one (cls : Char → Bool) : Language Char :=
  {w | ∃ c, cls c = true ∧ w = [c]}

/-- Any number of characters of a class. -/
def many (cls : Char → Bool) : Language Char :=
  (one cls)∗

/-- At least one character of a class. -/
def many1 (cls : Char → Bool) : Language Char :=
  one cls * many cls

/-- This text and no other. -/
def word (text : String) : Language Char :=
  {text.toList}

def spaces : Language Char :=
  many isBlank

def spaces1 : Language Char :=
  many1 isBlank

def digits : Language Char :=
  many1 isDecimalDigit

def identifier : Language Char :=
  one isNameStart * many isNameChar

def dotted : Language Char :=
  identifier * (word "." * identifier)∗

def typePath : Language Char :=
  (1 + word ".") * dotted

def optionName : Language Char :=
  one isOptionStart * many isOptionChar

def scope : Language Char :=
  word "required" + word "optional" + word "repeated"

/-- A keyword and a name behind it, with blanks around both. -/
def heading (keyword : String) (name : Language Char) : Language Char :=
  spaces * word keyword * spaces1 * name * spaces

/-- Any text of one line that is not empty, between blanks. -/
def literal : Language Char :=
  spaces * many1 (· ≠ '\n') * spaces

/-- The end of a field: perhaps a default in brackets, and a semicolon. -/
def fieldEnd : Language Char :=
  (1 + word "[" * spaces * word "default" * spaces * word "=" * literal * word "]" * spaces) *
    word ";"

/-- What may stand behind a word: nothing, or anything that starts with no word character. -/
def wordEnd : Language Char :=
  1 + one (fun c => !isWord c) * many fun _ => true

/-- The lines that start with the keyword of a scope, as a word of its own. -/
def scopePrefix : Language Char :=
  spaces * scope * wordEnd

theorem mem_word {text : String} {w : List Char} : w ∈ word text ↔ w = text.toList :=
  Iff.rfl

theorem mem_many {cls : Char → Bool} {w : List Char} :
    w ∈ many cls ↔ ∀ c ∈ w, cls c = true := by
  rw [many, Language.mem_kstar]
  constructor
  · rintro ⟨pieces, rfl, hpieces⟩ c hc
    obtain ⟨piece, hpiece, hc⟩ := List.mem_flatten.1 hc
    obtain ⟨d, hd, rfl⟩ := hpieces piece hpiece
    rwa [List.mem_singleton.1 hc]
  · intro h
    refine ⟨w.map ([·]), by rw [← List.flatMap_def, List.flatMap_singleton'], ?_⟩
    intro piece hpiece
    obtain ⟨c, hc, rfl⟩ := List.mem_map.1 hpiece
    exact ⟨c, h c hc, rfl⟩

theorem mem_one_mul {cls : Char → Bool} {l : Language Char} {w : List Char} :
    w ∈ one cls * l ↔ ∃ c rest, w = c :: rest ∧ cls c = true ∧ rest ∈ l := by
  rw [Language.mem_mul]
  constructor
  · rintro ⟨_, ⟨c, hc, rfl⟩, rest, hrest, rfl⟩
    exact ⟨c, rest, rfl, hc, hrest⟩
  · rintro ⟨c, rest, rfl, hc, hrest⟩
    exact ⟨[c], ⟨c, hc, rfl⟩, rest, hrest, rfl⟩

theorem mem_many1 {cls : Char → Bool} {w : List Char} :
    w ∈ many1 cls ↔ w ≠ [] ∧ ∀ c ∈ w, cls c = true := by
  rw [many1, mem_one_mul]
  cases w with
  | nil => simp
  | cons c cs => simp [mem_many]

theorem mem_spaces {w : List Char} : w ∈ spaces ↔ AllBlank w :=
  mem_many

theorem mem_spaces1 {w : List Char} : w ∈ spaces1 ↔ AllBlank w ∧ w ≠ [] :=
  mem_many1.trans and_comm

theorem mem_digits {w : List Char} :
    w ∈ digits ↔ w ≠ [] ∧ ∀ d ∈ w, isDecimalDigit d = true :=
  mem_many1

/-! ## Names -/

theorem mem_identifier {w : List Char} : w ∈ identifier ↔ isIdentifier w = true := by
  rw [identifier, mem_one_mul, isIdentifier_iff]
  simp only [mem_many]

theorem mem_optionName {w : List Char} : w ∈ optionName ↔ isOptionName w = true := by
  rw [optionName, mem_one_mul]
  cases w with
  | nil => simp [isOptionName]
  | cons c cs => simp [isOptionName, mem_many]

theorem mem_dotted {w : List Char} : w ∈ dotted ↔ IsDotted w := by
  rw [dotted, Language.mem_mul]
  constructor
  · rintro ⟨first, hfirst, _, ⟨pieces, rfl, hpieces⟩, rfl⟩
    have hpiece : ∀ piece ∈ pieces, ∃ part, isIdentifier part = true ∧ '.' :: part = piece := by
      intro piece hmem
      obtain ⟨_, rfl, part, hpart, rfl⟩ := Language.mem_mul.1 (hpieces piece hmem)
      exact ⟨part, mem_identifier.1 hpart, rfl⟩
    refine ⟨first, pieces.map List.tail, mem_identifier.1 hfirst, ?_, ?_⟩
    · intro part hpart
      obtain ⟨piece, hmem, rfl⟩ := List.mem_map.1 hpart
      obtain ⟨_, hidentifier, rfl⟩ := hpiece piece hmem
      exact hidentifier
    · rw [List.flatMap_map, List.flatMap_def]
      congr 2
      refine (List.map_id _).symm.trans (List.map_congr_left fun piece hmem => ?_)
      obtain ⟨part, -, rfl⟩ := hpiece piece hmem
      rfl
  · rintro ⟨first, parts, hfirst, hparts, rfl⟩
    refine ⟨first, mem_identifier.2 hfirst, _, ⟨parts.map ('.' :: ·), rfl, ?_⟩, rfl⟩
    intro piece hpiece
    obtain ⟨part, hpart, rfl⟩ := List.mem_map.1 hpiece
    exact Language.append_mem_mul (mem_word.2 rfl) (mem_identifier.2 (hparts part hpart))

theorem mem_typePath {w : List Char} : w ∈ typePath ↔ IsTypePath w := by
  rw [typePath, Language.mem_mul]
  constructor
  · rintro ⟨_, rfl | rfl, name, hname, rfl⟩
    · exact ⟨name, mem_dotted.1 hname, .inl rfl⟩
    · exact ⟨name, mem_dotted.1 hname, .inr rfl⟩
  · rintro ⟨name, hname, rfl | rfl⟩
    · exact ⟨[], .inl rfl, _, mem_dotted.2 hname, rfl⟩
    · exact ⟨['.'], .inr rfl, _, mem_dotted.2 hname, rfl⟩

theorem mem_scope {w : List Char} : w ∈ scope ↔ ∃ s : Scope, w = s.keyword.toList := by
  constructor
  · rintro ((rfl | rfl) | rfl)
    · exact ⟨.required, rfl⟩
    · exact ⟨.optional, rfl⟩
    · exact ⟨.repeated, rfl⟩
  · rintro ⟨s, rfl⟩
    cases s
    · exact .inl (.inl rfl)
    · exact .inl (.inr rfl)
    · exact .inr rfl

theorem mem_minus {w : List Char} :
    w ∈ 1 + word "-" ↔ ∃ negative : Bool, w = if negative then "-".toList else [] := by
  constructor
  · rintro (rfl | rfl)
    · exact ⟨false, rfl⟩
    · exact ⟨true, rfl⟩
  · rintro ⟨negative, rfl⟩
    cases negative
    · exact .inl rfl
    · exact .inr rfl

theorem mem_wordEnd {w : List Char} : w ∈ wordEnd ↔ NotAhead isWord w := by
  rw [wordEnd, Language.mem_add, Language.mem_one, mem_one_mul]
  cases w with
  | nil => simp [notAhead_nil]
  | cons c cs => simp [notAhead_cons, mem_many]

/-! ## Rows of pieces

A pattern is a row of pieces, and a text is in its language if it is cut into texts of theirs. The
lemmas below take the pieces at the end of a row off it, those together that stand together in a
statement. -/

variable {l name : Language Char} {line : List Char}

theorem mem_mul_word {text : String} :
    line ∈ l * word text ↔ ∃ front, front ∈ l ∧ line = front ++ text.toList := by
  rw [Language.mem_mul]
  constructor
  · rintro ⟨front, hfront, _, rfl, rfl⟩
    exact ⟨front, hfront, rfl⟩
  · rintro ⟨front, hfront, rfl⟩
    exact ⟨front, hfront, _, rfl, rfl⟩

theorem mem_mul_spaces :
    line ∈ l * spaces ↔ ∃ front w, front ∈ l ∧ AllBlank w ∧ line = front ++ w := by
  rw [Language.mem_mul]
  constructor
  · rintro ⟨front, hfront, w, hw, rfl⟩
    exact ⟨front, w, hfront, mem_spaces.1 hw, rfl⟩
  · rintro ⟨front, w, hfront, hw, rfl⟩
    exact ⟨front, hfront, w, mem_spaces.2 hw, rfl⟩

theorem mem_spaces_mul :
    line ∈ spaces * l ↔ ∃ u rest, AllBlank u ∧ rest ∈ l ∧ line = u ++ rest := by
  rw [Language.mem_mul]
  constructor
  · rintro ⟨u, hu, rest, hrest, rfl⟩
    exact ⟨u, rest, mem_spaces.1 hu, hrest, rfl⟩
  · rintro ⟨u, rest, hu, hrest, rfl⟩
    exact ⟨u, mem_spaces.2 hu, rest, hrest, rfl⟩

/-- Blanks and a name. -/
theorem mem_mul_spaces1_mul :
    line ∈ l * spaces1 * name ↔ ∃ front v n, front ∈ l ∧ AllBlank v ∧ v ≠ [] ∧ n ∈ name ∧
      line = front ++ v ++ n := by
  constructor
  · intro h
    obtain ⟨spaced, hspaced, n, hn, rfl⟩ := Language.mem_mul.1 h
    obtain ⟨front, hfront, v, hv, rfl⟩ := Language.mem_mul.1 hspaced
    obtain ⟨hblank, hne⟩ := mem_spaces1.1 hv
    exact ⟨front, v, n, hfront, hblank, hne, hn, rfl⟩
  · rintro ⟨front, v, n, hfront, hv, hne, hn, rfl⟩
    have hspaced : front ++ v ∈ l * spaces1 :=
      Language.append_mem_mul hfront (mem_spaces1.2 ⟨hv, hne⟩)
    exact Language.append_mem_mul hspaced hn

/-- A sign of equality between blanks. -/
theorem mem_mul_equals :
    line ∈ l * spaces * word "=" * spaces ↔ ∃ front x y, front ∈ l ∧ AllBlank x ∧ AllBlank y ∧
      line = front ++ x ++ "=".toList ++ y := by
  constructor
  · intro h
    obtain ⟨signed, y, hsigned, hy, rfl⟩ := mem_mul_spaces.1 h
    obtain ⟨spaced, hspaced, rfl⟩ := mem_mul_word.1 hsigned
    obtain ⟨front, x, hfront, hx, rfl⟩ := mem_mul_spaces.1 hspaced
    exact ⟨front, x, y, hfront, hx, hy, rfl⟩
  · rintro ⟨front, x, y, hfront, hx, hy, rfl⟩
    refine mem_mul_spaces.2 ⟨_, y, ?_, hy, rfl⟩
    refine mem_mul_word.2 ⟨_, ?_, rfl⟩
    exact mem_mul_spaces.2 ⟨front, x, hfront, hx, rfl⟩

/-- A numeral with blanks behind it. -/
theorem mem_mul_digits :
    line ∈ l * digits * spaces ↔ ∃ front numeral z, front ∈ l ∧ numeral ≠ [] ∧
      (∀ d ∈ numeral, isDecimalDigit d = true) ∧ AllBlank z ∧ line = front ++ numeral ++ z := by
  constructor
  · intro h
    obtain ⟨numbered, z, hnumbered, hz, rfl⟩ := mem_mul_spaces.1 h
    obtain ⟨front, hfront, numeral, hnumeral, rfl⟩ := Language.mem_mul.1 hnumbered
    obtain ⟨hne, hall⟩ := mem_digits.1 hnumeral
    exact ⟨front, numeral, z, hfront, hne, hall, hz, rfl⟩
  · rintro ⟨front, numeral, z, hfront, hne, hall, hz, rfl⟩
    have hnumbered : front ++ numeral ∈ l * digits :=
      Language.append_mem_mul hfront (mem_digits.2 ⟨hne, hall⟩)
    exact mem_mul_spaces.2 ⟨_, z, hnumbered, hz, rfl⟩

theorem mem_heading {keyword : String} :
    line ∈ heading keyword name ↔
      ∃ u v n x, AllBlank u ∧ AllBlank v ∧ v ≠ [] ∧ n ∈ name ∧ AllBlank x ∧
        line = u ++ keyword.toList ++ v ++ n ++ x := by
  constructor
  · intro h
    obtain ⟨named, x, hnamed, hx, rfl⟩ := mem_mul_spaces.1 h
    obtain ⟨front, v, n, hfront, hv, hne, hn, rfl⟩ := mem_mul_spaces1_mul.1 hnamed
    obtain ⟨u, hu, rfl⟩ := mem_mul_word.1 hfront
    exact ⟨u, v, n, x, mem_spaces.1 hu, hv, hne, hn, hx, rfl⟩
  · rintro ⟨u, v, n, x, hu, hv, hne, hn, hx, rfl⟩
    refine mem_mul_spaces.2 ⟨_, x, ?_, hx, rfl⟩
    refine mem_mul_spaces1_mul.2 ⟨_, v, n, ?_, hv, hne, hn, rfl⟩
    exact mem_mul_word.2 ⟨u, mem_spaces.2 hu, rfl⟩

/-! ## Literals -/

/-- There is a literal between two delimiters exactly when some piece between the blanks there is on
one line. -/
theorem mem_literal {inner : List Char} :
    inner ∈ literal ↔ ∃ found, IsLiteral inner found := by
  constructor
  · intro h
    obtain ⟨front, w, hfront, hw, rfl⟩ := mem_mul_spaces.1 h
    obtain ⟨v, text, hv, htext, rfl⟩ := mem_spaces_mul.1 hfront
    obtain ⟨hne, hline⟩ := mem_many1.1 htext
    by_cases hblank : AllBlank text
    · -- of nothing but blanks the last one that ends no line counts, and `text` has one
      obtain ⟨c, hc⟩ := List.exists_mem_of_ne_nil text hne
      have hkept : (v ++ text ++ w).filter (· ≠ '\n') ≠ [] :=
        List.ne_nil_of_mem (List.mem_filter.2 ⟨by simp [hc], hline c hc⟩)
      obtain ⟨d, hlast⟩ := Option.isSome_iff_exists.1 (List.getLast?_isSome.2 hkept)
      obtain ⟨before, after, hcut, hd, hafter⟩ := getLast?_filter_eq_some.1 hlast
      have hall : AllBlank (before ++ d :: after) := hcut ▸ (hv.append hblank).append hw
      obtain ⟨hbefore, hrest⟩ := hall.of_append
      refine ⟨[d], ?_⟩
      rw [hcut]
      exact .blank hbefore (allBlank_cons.1 hrest).1 (by simpa using hd) (by simpa using hafter)
    · obtain ⟨a, b, ha, hb, htrim, hstart, hend⟩ := exists_trim text
      have hkept : trim text ≠ [] := fun hnil => hblank (allBlank_of_trim_eq_nil hnil)
      have hinner : '\n' ∉ trim text := by
        intro hmem
        have htext : '\n' ∈ text := by
          rw [htrim]
          exact List.mem_append_left _ (List.mem_append_right _ hmem)
        simpa using hline _ htext
      have hfound : IsLiteral (v ++ a ++ trim text ++ (b ++ w)) (trim text) :=
        .trimmed (hv.append ha) (hb.append hw) hkept hinner hstart hend
      have hcut : v ++ a ++ trim text ++ (b ++ w) = v ++ text ++ w := by
        rw [List.append_assoc v, List.append_assoc v, ← List.append_assoc _ b, ← htrim,
          List.append_assoc]
      exact ⟨_, hcut ▸ hfound⟩
  · rintro ⟨found, h⟩
    cases h with
    | trimmed hv hw hne hline =>
      have htext : ∀ c ∈ found, decide (c ≠ '\n') = true :=
        fun c hc => decide_eq_true fun heq => hline (heq ▸ hc)
      refine mem_mul_spaces.2 ⟨_, _, ?_, hw, rfl⟩
      exact mem_spaces_mul.2 ⟨_, _, hv, mem_many1.2 ⟨hne, htext⟩, rfl⟩
    | @blank before after c hbefore hc hne hafter =>
      have htext : ∀ d ∈ [c], decide (d ≠ '\n') = true := by simpa using hne
      have hrest : AllBlank after := by
        intro d hd
        rw [hafter d hd]
        decide
      refine mem_mul_spaces.2 ⟨before ++ [c], after, ?_, hrest, by simp⟩
      exact mem_spaces_mul.2 ⟨before, [c], hbefore, mem_many1.2 ⟨by simp, htext⟩, rfl⟩

/-- A default in brackets, with blanks behind it. -/
theorem mem_default :
    line ∈ word "[" * spaces * word "default" * spaces * word "=" * literal * word "]" * spaces ↔
      ∃ v w inner x found, AllBlank v ∧ AllBlank w ∧ IsLiteral inner found ∧ AllBlank x ∧
        line = "[".toList ++ v ++ "default".toList ++ w ++ "=".toList ++ inner ++ "]".toList ++
          x := by
  constructor
  · intro h
    obtain ⟨closed, x, hclosed, hx, rfl⟩ := mem_mul_spaces.1 h
    obtain ⟨filled, hfilled, rfl⟩ := mem_mul_word.1 hclosed
    obtain ⟨signed, hsigned, inner, hinner, rfl⟩ := Language.mem_mul.1 hfilled
    obtain ⟨spaced, hspaced, rfl⟩ := mem_mul_word.1 hsigned
    obtain ⟨named, w, hnamed, hw, rfl⟩ := mem_mul_spaces.1 hspaced
    obtain ⟨opened, hopened, rfl⟩ := mem_mul_word.1 hnamed
    obtain ⟨bracket, v, hbracket, hv, rfl⟩ := mem_mul_spaces.1 hopened
    obtain rfl := mem_word.1 hbracket
    obtain ⟨found, hfound⟩ := mem_literal.1 hinner
    exact ⟨v, w, inner, x, found, hv, hw, hfound, hx, rfl⟩
  · rintro ⟨v, w, inner, x, found, hv, hw, hfound, hx, rfl⟩
    refine mem_mul_spaces.2 ⟨_, x, ?_, hx, rfl⟩
    refine mem_mul_word.2 ⟨_, ?_, rfl⟩
    refine Language.append_mem_mul ?_ (mem_literal.2 ⟨found, hfound⟩)
    refine mem_mul_word.2 ⟨_, ?_, rfl⟩
    refine mem_mul_spaces.2 ⟨_, w, ?_, hw, rfl⟩
    refine mem_mul_word.2 ⟨_, ?_, rfl⟩
    exact mem_mul_spaces.2 ⟨_, v, mem_word.2 rfl, hv, rfl⟩

theorem mem_fieldEnd {tail : List Char} :
    tail ∈ fieldEnd ↔ ∃ literal?, Statement.FieldEnd tail literal? := by
  rw [fieldEnd, mem_mul_word]
  constructor
  · rintro ⟨front, hfront, rfl⟩
    rcases (Language.mem_add _ _ _).1 hfront with hempty | hdefault
    · obtain rfl := (Language.mem_one _).1 hempty
      exact ⟨none, .plain⟩
    · obtain ⟨v, w, inner, x, found, hv, hw, hfound, hx, rfl⟩ := mem_default.1 hdefault
      exact ⟨some found, .default hv hw hfound hx⟩
  · rintro ⟨literal?, h⟩
    cases h with
    | plain => exact ⟨[], .inl rfl, rfl⟩
    | @default v w inner x found hv hw hfound hx =>
      exact ⟨_, .inr (mem_default.2 ⟨v, w, inner, x, found, hv, hw, hfound, hx, rfl⟩), rfl⟩

end Pattern

namespace Statement

open Pattern

/-! ## Lines -/

/-- The lines that hold a statement of the kind. -/
def Kind.pattern : Kind → Language Char
  | .blockEnd => spaces * word "\x7d"
  | .package => heading "package" dotted * word ";"
  | .messageStart => heading "message" identifier * word "\x7b"
  | .enumStart => heading "enum" identifier * word "\x7b"
  | .field =>
    spaces * Pattern.scope * spaces1 * typePath * spaces1 * identifier * spaces * word "=" *
      spaces * digits * spaces * fieldEnd
  | .enumValue =>
    spaces * identifier * spaces * word "=" * spaces * (1 + word "-") * digits * spaces * word ";"
  | .option => heading "option" optionName * word "=" * literal * word ";"

theorem exists_written_of_mem_pattern {k : Kind} {line : List Char} (h : line ∈ k.pattern) :
    ∃ s, Written s line ∧ s.kind = k := by
  cases k with
  | blockEnd =>
    obtain ⟨u, hu, rfl⟩ := mem_mul_word.1 h
    exact ⟨_, .blockEnd (mem_spaces.1 hu), rfl⟩
  | package =>
    obtain ⟨front, hfront, rfl⟩ := mem_mul_word.1 h
    obtain ⟨u, v, name, w, hu, hv, hne, hname, hw, rfl⟩ := mem_heading.1 hfront
    exact ⟨_, .package hu hv hne (mem_dotted.1 hname) hw, rfl⟩
  | messageStart =>
    obtain ⟨front, hfront, rfl⟩ := mem_mul_word.1 h
    obtain ⟨u, v, name, w, hu, hv, hne, hname, hw, rfl⟩ := mem_heading.1 hfront
    exact ⟨_, .messageStart hu hv hne (mem_identifier.1 hname) hw, rfl⟩
  | enumStart =>
    obtain ⟨front, hfront, rfl⟩ := mem_mul_word.1 h
    obtain ⟨u, v, name, w, hu, hv, hne, hname, hw, rfl⟩ := mem_heading.1 hfront
    exact ⟨_, .enumStart hu hv hne (mem_identifier.1 hname) hw, rfl⟩
  | field =>
    obtain ⟨numbered, hnumbered, tail, htail, rfl⟩ := Language.mem_mul.1 h
    obtain ⟨signed, numeral, z, hsigned, hne, hall, hz, rfl⟩ := mem_mul_digits.1 hnumbered
    obtain ⟨named, x, y, hnamed, hx, hy, rfl⟩ := mem_mul_equals.1 hsigned
    obtain ⟨typed, w, name, htyped, hw, hwne, hname, rfl⟩ := mem_mul_spaces1_mul.1 hnamed
    obtain ⟨front, v, type, hfront, hv, hvne, htype, rfl⟩ := mem_mul_spaces1_mul.1 htyped
    obtain ⟨u, keyword, hu, hkeyword, rfl⟩ := mem_spaces_mul.1 hfront
    obtain ⟨scope, rfl⟩ := mem_scope.1 hkeyword
    obtain ⟨_, hend⟩ := mem_fieldEnd.1 htail
    exact ⟨_, .field hu hv hvne (mem_typePath.1 htype) hw hwne (mem_identifier.1 hname) hx hy hne
      hall hz hend, rfl⟩
  | enumValue =>
    obtain ⟨numbered, hnumbered, rfl⟩ := mem_mul_word.1 h
    obtain ⟨front, numeral, x, hfront, hne, hall, hx, rfl⟩ := mem_mul_digits.1 hnumbered
    obtain ⟨signed, hsigned, minus, hminus, rfl⟩ := Language.mem_mul.1 hfront
    obtain ⟨labelled, v, w, hlabelled, hv, hw, rfl⟩ := mem_mul_equals.1 hsigned
    obtain ⟨u, label, hu, hlabel, rfl⟩ := mem_spaces_mul.1 hlabelled
    obtain ⟨negative, rfl⟩ := mem_minus.1 hminus
    exact ⟨_, .enumValue hu (mem_identifier.1 hlabel) hv hw hne hall hx, rfl⟩
  | option =>
    obtain ⟨filled, hfilled, rfl⟩ := mem_mul_word.1 h
    obtain ⟨signed, hsigned, inner, hinner, rfl⟩ := Language.mem_mul.1 hfilled
    obtain ⟨front, hfront, rfl⟩ := mem_mul_word.1 hsigned
    obtain ⟨u, v, name, w, hu, hv, hne, hname, hw, rfl⟩ := mem_heading.1 hfront
    obtain ⟨found, hfound⟩ := mem_literal.1 hinner
    exact ⟨_, .option hu hv hne (mem_optionName.1 hname) hw hfound, rfl⟩

theorem mem_pattern_of_written {line : List Char} {s : Statement} (h : Written s line) :
    line ∈ s.kind.pattern := by
  cases h with
  | blockEnd hu => exact mem_mul_word.2 ⟨_, mem_spaces.2 hu, rfl⟩
  | package hu hv hne hname hw =>
    refine mem_mul_word.2 ⟨_, ?_, rfl⟩
    exact mem_heading.2 ⟨_, _, _, _, hu, hv, hne, mem_dotted.2 hname, hw, rfl⟩
  | messageStart hu hv hne hname hw =>
    refine mem_mul_word.2 ⟨_, ?_, rfl⟩
    exact mem_heading.2 ⟨_, _, _, _, hu, hv, hne, mem_identifier.2 hname, hw, rfl⟩
  | enumStart hu hv hne hname hw =>
    refine mem_mul_word.2 ⟨_, ?_, rfl⟩
    exact mem_heading.2 ⟨_, _, _, _, hu, hv, hne, mem_identifier.2 hname, hw, rfl⟩
  | field hu hv hvne htype hw hwne hname hx hy hne hall hz hend =>
    refine Language.append_mem_mul ?_ (mem_fieldEnd.2 ⟨_, hend⟩)
    refine mem_mul_digits.2 ⟨_, _, _, ?_, hne, hall, hz, rfl⟩
    refine mem_mul_equals.2 ⟨_, _, _, ?_, hx, hy, rfl⟩
    refine mem_mul_spaces1_mul.2 ⟨_, _, _, ?_, hw, hwne, mem_identifier.2 hname, rfl⟩
    refine mem_mul_spaces1_mul.2 ⟨_, _, _, ?_, hv, hvne, mem_typePath.2 htype, rfl⟩
    exact mem_spaces_mul.2 ⟨_, _, hu, mem_scope.2 ⟨_, rfl⟩, rfl⟩
  | enumValue hu hlabel hv hw hne hall hx =>
    refine mem_mul_word.2 ⟨_, ?_, rfl⟩
    refine mem_mul_digits.2 ⟨_, _, _, ?_, hne, hall, hx, rfl⟩
    refine Language.append_mem_mul ?_ (mem_minus.2 ⟨_, rfl⟩)
    refine mem_mul_equals.2 ⟨_, _, _, ?_, hv, hw, rfl⟩
    exact mem_spaces_mul.2 ⟨_, _, hu, mem_identifier.2 hlabel, rfl⟩
  | option hu hv hne hname hw hfound =>
    refine mem_mul_word.2 ⟨_, ?_, rfl⟩
    refine Language.append_mem_mul ?_ (mem_literal.2 ⟨_, hfound⟩)
    refine mem_mul_word.2 ⟨_, ?_, rfl⟩
    exact mem_heading.2 ⟨_, _, _, _, hu, hv, hne, mem_optionName.2 hname, hw, rfl⟩

theorem mem_pattern {k : Kind} {line : List Char} :
    line ∈ k.pattern ↔ ∃ s, Written s line ∧ s.kind = k := by
  constructor
  · exact exists_written_of_mem_pattern
  · rintro ⟨s, h, rfl⟩
    exact mem_pattern_of_written h

/-- The reader of a kind accepts the lines of its language and no others. -/
theorem isSome_whole?_iff {k : Kind} {line : List Char} :
    (k.reader.whole? line).isSome = true ↔ line ∈ k.pattern := by
  rw [mem_pattern, Option.isSome_iff_exists]
  constructor
  · rintro ⟨s, h⟩
    exact ⟨s, written_of_whole? h⟩
  · rintro ⟨s, h, rfl⟩
    exact ⟨s, whole?_of_written h⟩

theorem startsLikeField_iff_mem {line : List Char} :
    startsLikeField line = true ↔ line ∈ scopePrefix := by
  rw [startsLikeField_iff]
  constructor
  · rintro ⟨u, scope, rest, hu, rfl, hrest⟩
    rw [← List.append_assoc]
    refine Language.append_mem_mul ?_ (mem_wordEnd.2 hrest)
    exact mem_spaces_mul.2 ⟨u, _, hu, mem_scope.2 ⟨scope, rfl⟩, rfl⟩
  · intro h
    obtain ⟨front, hfront, rest, hrest, rfl⟩ := Language.mem_mul.1 h
    obtain ⟨u, keyword, hu, hkeyword, rfl⟩ := mem_spaces_mul.1 hfront
    obtain ⟨scope, rfl⟩ := mem_scope.1 hkeyword
    exact ⟨u, scope, rest, hu, List.append_assoc _ _ _, mem_wordEnd.1 hrest⟩

/-! ## Lines of several patterns -/

theorem kind_unique {k k' : Kind} {line : List Char} (h : line ∈ k.pattern)
    (h' : line ∈ k'.pattern) : k = k' := by
  obtain ⟨s, hs, rfl⟩ := mem_pattern.1 h
  obtain ⟨t, ht, rfl⟩ := mem_pattern.1 h'
  rw [hs.unique ht]

/-- Of the lines that hold a statement, those with a field start with the keyword of a scope, and
else only those with an enum value whose label is such a keyword. -/
theorem mem_scopePrefix_iff {k : Kind} {line : List Char} (h : line ∈ k.pattern) :
    line ∈ scopePrefix ↔ k = .field ∨ ∃ (scope : Scope) (negative : Bool) (numeral : List Char),
      enumValue?.whole? line = some (.enumValue scope.keyword negative numeral) := by
  obtain ⟨s, hs, rfl⟩ := mem_pattern.1 h
  rw [← startsLikeField_iff_mem, startsLikeField_iff_of_written hs]
  refine or_congr_right ?_
  constructor
  · rintro ⟨scope, negative, numeral, rfl⟩
    exact ⟨scope, negative, numeral, whole?_of_written hs⟩
  · rintro ⟨scope, negative, numeral, hread⟩
    have hvalue : Written (.enumValue scope.keyword negative numeral) line :=
      (written_of_whole? (k := .enumValue) hread).1
    exact ⟨scope, negative, numeral, hs.unique hvalue⟩

end Statement

end ProtoSchema
