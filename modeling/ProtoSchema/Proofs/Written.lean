import ProtoSchema.Proofs.Names
import ProtoSchema.Statement

/-!
# Statements as they are written

`Written s line` lists the ways in which a statement may stand on a line: its tokens in order, with
blanks between them. Nothing in it says how a line is read, and no run of characters has to be the
longest one.

Results:
* `ofLine_eq_ok`: reading a line gives a statement exactly when the statement is written there,
  save that the label of an enum value must not be the keyword of a scope;
* `ofLine_eq_error`: on which lines no statement is read, and the reason that is given;
* `exists_of_heading`, `heading_bind`: how a keyword with a name behind it is read;
* `Written.unique`: at most one statement is written on a line;
* `Written.kind_eq`: the first word of a line and the character behind it tell the kind of the
  statement, so no two kinds share a line;
* `startsLikeField_iff_of_written`: which of these lines start like a field.
-/
namespace ProtoSchema

open Text Text.Reader

/-- The literal that stands between two delimiters with `inner` between them. -/
inductive IsLiteral : List Char → List Char → Prop
  /-- The blanks around a literal do not belong to it. -/
  | trimmed {before literal after : List Char} : AllBlank before → AllBlank after →
      literal ≠ [] → '\n' ∉ literal → NotAhead isBlank literal → NotAhead isBlank literal.reverse →
      IsLiteral (before ++ literal ++ after) literal
  /-- Of nothing but blanks, the last one that ends no line is the literal. -/
  | blank {before after : List Char} {c : Char} : AllBlank before → isBlank c = true → c ≠ '\n' →
      (∀ d ∈ after, d = '\n') → IsLiteral (before ++ c :: after) [c]

namespace Statement

/-- What may stand behind the id of a field: a semicolon, or a default in brackets and one. -/
inductive FieldEnd : List Char → Option (List Char) → Prop
  | plain : FieldEnd ";".toList none
  | default {v w inner x literal : List Char} : AllBlank v → AllBlank w → IsLiteral inner literal →
      AllBlank x →
      FieldEnd ("[".toList ++ v ++ "default".toList ++ w ++ "=".toList ++ inner ++ "]".toList ++ x ++
        ";".toList) (some literal)

/-- The ways in which a statement may stand on a line. -/
inductive Written : Statement → List Char → Prop
  | blockEnd {u : List Char} : AllBlank u → Written .blockEnd (u ++ "\x7d".toList)
  | package {u v name w : List Char} : AllBlank u → AllBlank v → v ≠ [] → IsDotted name →
      AllBlank w →
      Written (.package (String.ofList name))
        (u ++ "package".toList ++ v ++ name ++ w ++ ";".toList)
  | messageStart {u v name w : List Char} : AllBlank u → AllBlank v → v ≠ [] →
      isIdentifier name = true → AllBlank w →
      Written (.messageStart (String.ofList name))
        (u ++ "message".toList ++ v ++ name ++ w ++ "\x7b".toList)
  | enumStart {u v name w : List Char} : AllBlank u → AllBlank v → v ≠ [] →
      isIdentifier name = true → AllBlank w →
      Written (.enumStart (String.ofList name))
        (u ++ "enum".toList ++ v ++ name ++ w ++ "\x7b".toList)
  | field {u v type w name x y digits z tail : List Char} {scope : Scope}
      {literal? : Option (List Char)} : AllBlank u → AllBlank v → v ≠ [] → IsTypePath type →
      AllBlank w → w ≠ [] → isIdentifier name = true → AllBlank x → AllBlank y → digits ≠ [] →
      (∀ d ∈ digits, isDecimalDigit d = true) → AllBlank z → FieldEnd tail literal? →
      Written (.field
          { scope
            type := FieldType.ofToken (String.ofList type)
            name := String.ofList name
            digits
            default? := literal?.map String.ofList })
        (u ++ scope.keyword.toList ++ v ++ type ++ w ++ name ++ x ++ "=".toList ++ y ++ digits ++
          z ++ tail)
  | enumValue {u label v w digits x : List Char} {negative : Bool} : AllBlank u →
      isIdentifier label = true → AllBlank v → AllBlank w → digits ≠ [] →
      (∀ d ∈ digits, isDecimalDigit d = true) → AllBlank x →
      Written (.enumValue (String.ofList label) negative digits)
        (u ++ label ++ v ++ "=".toList ++ w ++ (if negative then "-".toList else []) ++ digits ++
          x ++ ";".toList)
  | option {u v name w inner literal : List Char} : AllBlank u → AllBlank v → v ≠ [] →
      isOptionName name = true → AllBlank w → IsLiteral inner literal →
      Written (.option (String.ofList name) (String.ofList literal))
        (u ++ "option".toList ++ v ++ name ++ w ++ "=".toList ++ inner ++ ";".toList)

/-! ## Literals -/

theorem literal?_eq_some {inner literal : List Char} :
    literal? inner = some literal ↔ IsLiteral inner literal := by
  refine ⟨fun h => ?_, fun h => ?_⟩
  · unfold literal? at h
    split at h
    · next htrim =>
      have hall := allBlank_of_trim_eq_nil htrim
      obtain ⟨c, hc, rfl⟩ := Option.map_eq_some_iff.1 h
      obtain ⟨before, after, rfl, hne, hafter⟩ := getLast?_filter_eq_some.1 hc
      obtain ⟨hbefore, hrest⟩ := hall.of_append
      exact .blank hbefore (allBlank_cons.1 hrest).1 (by simpa using hne) (by simpa using hafter)
    · next htrim =>
      split at h
      · cases h
      · next hline =>
        obtain rfl := Option.some.inj h
        obtain ⟨v, w, hv, hw, hcs, hstart, hend⟩ := exists_trim inner
        have hlit := IsLiteral.trimmed hv hw htrim hline hstart hend
        rwa [← hcs] at hlit
  · unfold literal?
    cases h with
    | trimmed hv hw hne hline hstart hend =>
      rw [trim_eq hv hw hstart hend, if_neg hne, if_neg hline]
    | @blank before after c hbefore hc hne hafter =>
      have hblank : AllBlank (before ++ c :: after) := by
        refine hbefore.append (allBlank_cons.2 ⟨hc, fun d hd => ?_⟩)
        rw [hafter d hd]; decide
      rw [if_pos (trim_eq_nil hblank), Option.map_eq_some_iff]
      exact ⟨c, getLast?_filter_eq_some.2 ⟨before, after, rfl, by simpa using hne,
        by simpa using hafter⟩, rfl⟩

theorem dropEnd?_eq_some {c : Char} {cs body : List Char} :
    dropEnd? c cs = some body ↔ cs = body ++ [c] := by
  unfold dropEnd?
  refine ⟨fun h => ?_, fun h => ?_⟩
  · split at h
    · next hlast =>
      obtain rfl := Option.some.inj h
      obtain ⟨init, rfl⟩ := List.getLast?_eq_some_iff.1 hlast
      simp
    · cases h
  · rw [h]; simp

/-! ## Readers of statements -/

theorem FieldEnd.notAhead {cls : Char → Bool} {tail : List Char} {literal? : Option (List Char)}
    (h : FieldEnd tail literal?) (hsemicolon : cls ';' = false) (hbracket : cls '[' = false) :
    NotAhead cls tail := by
  cases h with
  | plain => exact notAhead_cons.2 hsemicolon
  | default => simp only [List.append_assoc]; exact notAhead_cons.2 hbracket

theorem sign_append {negative : Bool} {digits rest : List Char} (hdigits : digits ≠ [])
    (hall : ∀ d ∈ digits, isDecimalDigit d = true) :
    sign ((if negative then "-".toList else []) ++ (digits ++ rest)) =
      some (negative, digits ++ rest) := by
  have hhead : (digits ++ rest).head? ≠ some '-' := by
    obtain ⟨d, ds, rfl⟩ := List.exists_cons_of_ne_nil hdigits
    intro h
    obtain rfl := Option.some.inj h
    exact absurd (hall '-' List.mem_cons_self) (by decide)
  rw [sign_eq_some]
  cases negative
  · exact .inr ⟨rfl, rfl, hhead⟩
  · exact .inl ⟨rfl, rfl⟩

theorem scope?_eq_some {cs rest : List Char} {scope : Scope} :
    scope? cs = some (scope, rest) ↔ cs = scope.keyword.toList ++ rest := by
  refine ⟨fun h => ?_, fun h => ?_⟩
  · obtain ⟨s, -, hs⟩ := List.exists_of_findSome?_eq_some h
    obtain ⟨⟨u, tail⟩, htoken, heq⟩ := Option.map_eq_some_iff.1 hs
    obtain ⟨rfl, rfl⟩ := Prod.mk.inj heq
    exact token_eq_some.1 htoken
  · subst h
    cases scope <;> rfl

/-- Between its brackets a default is read in one way, so that its text decides. -/
theorem default?_eq {v w inner x : List Char} (hv : AllBlank v) (hw : AllBlank w)
    (hx : AllBlank x) :
    default? ("[".toList ++ v ++ "default".toList ++ w ++ "=".toList ++ inner ++ "]".toList ++ x ++
      ";".toList) = (literal? inner).map (·, []) := by
  have htrim : trimEnd (inner ++ ("]".toList ++ x)) = inner ++ "]".toList := by
    rw [← List.append_assoc]
    exact trimEnd_append hx (by rw [List.reverse_append]; exact notAhead_cons.2 (by decide))
  have hsemicolon : dropEnd? ';' (inner ++ ("]".toList ++ (x ++ ";".toList))) =
      some (inner ++ ("]".toList ++ x)) := dropEnd?_eq_some.2 (by simp)
  have hbracket : dropEnd? ']' (trimEnd (inner ++ ("]".toList ++ x))) = some inner :=
    dropEnd?_eq_some.2 htrim
  simp only [List.append_assoc]
  rw [default?, token_bind, blanks_bind hv, token_bind, blanks_bind hw, token_bind,
    bind_of_eq_some (rest_eq_some.2 ⟨rfl, rfl⟩), bind_of_eq_some (lift_eq_some.2 ⟨hsemicolon, rfl⟩),
    bind_of_eq_some (lift_eq_some.2 ⟨hbracket, rfl⟩)]
  · cases literal? inner <;> rfl
  · exact notAhead_cons.2 (by decide)
  · exact notAhead_cons.2 (by decide)

theorem default?_eq_some {cs literal rest : List Char} :
    default? cs = some (literal, rest) ↔ rest = [] ∧ FieldEnd cs (some literal) := by
  refine ⟨fun h => ?_, fun ⟨hrest, h⟩ => ?_⟩
  · simp only [default?, bind_eq_some, token_eq_some, blanks_eq_some, rest_eq_some, lift_eq_some,
      dropEnd?_eq_some, literal?_eq_some] at h
    obtain ⟨-, cs, rfl, h⟩ := h
    obtain ⟨-, cs, ⟨v, hv, rfl, -⟩, h⟩ := h
    obtain ⟨-, cs, rfl, h⟩ := h
    obtain ⟨-, cs, ⟨w, hw, rfl, -⟩, h⟩ := h
    obtain ⟨-, cs, rfl, h⟩ := h
    obtain ⟨_, _, ⟨rfl, rfl⟩, h⟩ := h
    obtain ⟨bracketed, _, ⟨rfl, rfl⟩, h⟩ := h
    obtain ⟨inner, _, ⟨htrim, rfl⟩, hlit, rfl⟩ := h
    obtain ⟨x, hx, hbracketed, -⟩ := exists_trimEnd bracketed
    rw [htrim] at hbracketed
    subst hbracketed
    exact ⟨rfl, by simpa using FieldEnd.default hv hw hlit hx⟩
  · subst hrest
    cases h with
    | default hv hw hlit hx => rw [default?_eq hv hw hx, literal?_eq_some.2 hlit]; rfl

theorem fieldEnd?_eq_some {cs rest : List Char} {literal? : Option (List Char)} :
    fieldEnd? cs = some (literal?, rest) ↔ rest = [] ∧ FieldEnd cs literal? := by
  unfold fieldEnd?
  split
  · next hcs =>
    subst hcs
    refine ⟨fun h => ?_, fun ⟨hrest, h⟩ => ?_⟩
    · obtain ⟨rfl, rfl⟩ := Prod.mk.inj (Option.some.inj h)
      exact ⟨rfl, .plain⟩
    · subst hrest
      generalize hcs : [';'] = cs at h
      cases h with
      | plain => rfl
      | default => cases hcs
  · next hne =>
    have hmap : (some <$> default? : Reader (Option (List Char))) cs = some (literal?, rest) ↔
        ∃ literal, default? cs = some (literal, rest) ∧ literal? = some literal := by
      simp only [Functor.map, StateT.map, bind, pure, Option.bind_eq_some_iff, Option.some.injEq,
        Prod.mk.injEq, Prod.exists]
      refine ⟨fun ⟨a, b, h, ha, hb⟩ => ⟨a, hb ▸ h, ha.symm⟩,
        fun ⟨a, h, ha⟩ => ⟨a, rest, h, ha.symm, rfl⟩⟩
    simp only [hmap, default?_eq_some]
    refine ⟨fun ⟨literal, ⟨hrest, h⟩, hliteral⟩ => ⟨hrest, hliteral ▸ h⟩, fun ⟨hrest, h⟩ => ?_⟩
    cases h with
    | plain => exact absurd rfl hne
    | default hv hw hlit hx => exact ⟨_, ⟨hrest, .default hv hw hlit hx⟩, rfl⟩

/-- The kinds of statements. -/
inductive Kind
  | blockEnd
  | package
  | messageStart
  | enumStart
  | field
  | enumValue
  | option
  deriving DecidableEq, Repr

def kind : Statement → Kind
  | .blockEnd => .blockEnd
  | .package _ => .package
  | .messageStart _ => .messageStart
  | .enumStart _ => .enumStart
  | .field _ => .field
  | .enumValue .. => .enumValue
  | .option .. => .option

/-- The reader of the statements of a kind. -/
def Kind.reader : Kind → Reader Statement
  | .blockEnd => blockEnd?
  | .package => package?
  | .messageStart => messageStart?
  | .enumStart => enumStart?
  | .field => field?
  | .enumValue => enumValue?
  | .option => option?

/-! ## Headings -/

section Heading

variable {keyword : String} {cls : Char → Bool} {ok : List Char → Bool}
  {g : List Char → Reader Statement}

/-- The pieces of a line that starts with a keyword and a name, if a reader of such lines accepts
it. -/
theorem exists_of_heading {line left : List Char} {s : Statement}
    (h : (do blanks; token keyword; blanks1; let name ← run cls ok; blanks; g name :
      Reader Statement) line = some (s, left)) :
    ∃ u v name w rest, AllBlank u ∧ AllBlank v ∧ v ≠ [] ∧ ok name = true ∧ AllBlank w ∧
      line = u ++ keyword.toList ++ v ++ name ++ w ++ rest ∧ g name rest = some (s, left) := by
  simp only [bind_eq_some, blanks_eq_some, blanks1_eq_some, token_eq_some, run_eq_some] at h
  obtain ⟨-, rest, ⟨u, hu, rfl, -⟩, h⟩ := h
  obtain ⟨-, rest, rfl, h⟩ := h
  obtain ⟨-, rest, ⟨v, hv, hne, rfl, -⟩, h⟩ := h
  obtain ⟨name, rest, ⟨rfl, hname, -, -⟩, h⟩ := h
  obtain ⟨-, rest, ⟨w, hw, rfl, -⟩, h⟩ := h
  exact ⟨u, v, name, w, rest, hu, hv, hne, hname, hw, by simp, h⟩

theorem heading_bind {u v name w rest : List Char} (hu : AllBlank u) (hv : AllBlank v)
    (hne : v ≠ []) (hok : ok name = true) (hname : ∀ c ∈ name, cls c = true) (hw : AllBlank w)
    (hcls : ∀ {c : Char}, isBlank c = true → cls c = false)
    (hkeyword : NotAhead isBlank (keyword.toList ++ (v ++ (name ++ (w ++ rest)))))
    (hstart : NotAhead isBlank (name ++ (w ++ rest))) (hblank : NotAhead isBlank rest)
    (hrest : NotAhead cls rest) :
    (do blanks; token keyword; blanks1; let name ← run cls ok; blanks; g name :
      Reader Statement) (u ++ keyword.toList ++ v ++ name ++ w ++ rest) = g name rest := by
  simp only [List.append_assoc]
  rw [blanks_bind hu hkeyword, token_bind, blanks1_bind hv hne hstart,
    run_bind hok hname (hw.notAhead_append hcls hrest), blanks_bind hw hblank]

theorem eq_of_token_pure {text : String} {line : List Char} {s s' : Statement}
    (h : (do token text; return s : Reader Statement) line = some (s', [])) :
    line = text.toList ∧ s' = s := by
  simp only [bind_eq_some, token_eq_some, pure_eq_some] at h
  obtain ⟨-, _, rfl, rfl, rfl⟩ := h
  exact ⟨List.append_nil _, rfl⟩

end Heading

/-! ## Readers and what is written -/

/-- A reader takes a whole line only if a statement of its kind is written there. -/
theorem written_of_whole? {k : Kind} {line : List Char} {s : Statement}
    (h : k.reader.whole? line = some s) : Written s line ∧ s.kind = k := by
  rw [whole?_eq_some] at h
  cases k with
  | blockEnd =>
    simp only [Kind.reader, blockEnd?, bind_eq_some, blanks_eq_some, token_eq_some,
      pure_eq_some] at h
    obtain ⟨-, line, ⟨u, hu, rfl, -⟩, h⟩ := h
    obtain ⟨-, line, rfl, rfl, rfl⟩ := h
    exact ⟨.blockEnd hu, rfl⟩
  | package =>
    obtain ⟨u, v, name, w, rest, hu, hv, hne, hname, hw, hline, h⟩ := exists_of_heading h
    obtain ⟨hrest, rfl⟩ := eq_of_token_pure h
    rw [hline, hrest]
    exact ⟨.package hu hv hne (isDottedName_iff.1 hname) hw, rfl⟩
  | messageStart =>
    obtain ⟨u, v, name, w, rest, hu, hv, hne, hname, hw, hline, h⟩ := exists_of_heading h
    obtain ⟨hrest, rfl⟩ := eq_of_token_pure h
    rw [hline, hrest]
    exact ⟨.messageStart hu hv hne hname hw, rfl⟩
  | enumStart =>
    obtain ⟨u, v, name, w, rest, hu, hv, hne, hname, hw, hline, h⟩ := exists_of_heading h
    obtain ⟨hrest, rfl⟩ := eq_of_token_pure h
    rw [hline, hrest]
    exact ⟨.enumStart hu hv hne hname hw, rfl⟩
  | field =>
    simp only [Kind.reader, field?, identifier, typeName, digits, bind_eq_some, blanks_eq_some,
      blanks1_eq_some, token_eq_some, run_eq_some, scope?_eq_some, isTypeName_iff,
      fieldEnd?_eq_some, pure_eq_some] at h
    obtain ⟨-, line, ⟨u, hu, rfl, -⟩, h⟩ := h
    obtain ⟨scope, line, rfl, h⟩ := h
    obtain ⟨-, line, ⟨v, hv, hvne, rfl, -⟩, h⟩ := h
    obtain ⟨type, line, ⟨rfl, htype, -, -⟩, h⟩ := h
    obtain ⟨-, line, ⟨w, hw, hwne, rfl, -⟩, h⟩ := h
    obtain ⟨name, line, ⟨rfl, hname, -, -⟩, h⟩ := h
    obtain ⟨-, line, ⟨x, hx, rfl, -⟩, h⟩ := h
    obtain ⟨-, line, rfl, h⟩ := h
    obtain ⟨-, line, ⟨y, hy, rfl, -⟩, h⟩ := h
    obtain ⟨digits, line, ⟨rfl, hdigits, hall, -⟩, h⟩ := h
    obtain ⟨-, tail, ⟨z, hz, rfl, -⟩, h⟩ := h
    obtain ⟨literal?, _, ⟨rfl, htail⟩, rfl, -⟩ := h
    have hwritten := @Written.field u v type w name x y digits z tail scope literal? hu hv hvne
      htype hw hwne hname hx hy (by simpa using hdigits) hall hz htail
    exact ⟨by simpa using hwritten, rfl⟩
  | enumValue =>
    simp only [Kind.reader, enumValue?, identifier, digits, bind_eq_some, blanks_eq_some,
      token_eq_some, run_eq_some, sign_eq_some, pure_eq_some] at h
    obtain ⟨-, line, ⟨u, hu, rfl, -⟩, h⟩ := h
    obtain ⟨label, line, ⟨rfl, hlabel, -, -⟩, h⟩ := h
    obtain ⟨-, line, ⟨v, hv, rfl, -⟩, h⟩ := h
    obtain ⟨-, line, rfl, h⟩ := h
    obtain ⟨-, line, ⟨w, hw, rfl, -⟩, h⟩ := h
    obtain ⟨negative, line, hsign, h⟩ := h
    obtain ⟨digits, line, ⟨rfl, hdigits, hall, -⟩, h⟩ := h
    obtain ⟨-, line, ⟨x, hx, rfl, -⟩, h⟩ := h
    obtain ⟨-, line, rfl, rfl, rfl⟩ := h
    have hwritten : Written (.enumValue (String.ofList label) negative digits) _ :=
      .enumValue hu hlabel hv hw (by simpa using hdigits) hall hx
    refine ⟨?_, rfl⟩
    rcases hsign with ⟨rfl, rfl⟩ | ⟨rfl, rfl, -⟩
    · simpa using hwritten
    · simpa using hwritten
  | option =>
    obtain ⟨u, v, name, w, rest, hu, hv, hne, hname, hw, hline, h⟩ := exists_of_heading h
    simp only [bind_eq_some, token_eq_some, rest_eq_some, lift_eq_some, dropEnd?_eq_some,
      literal?_eq_some, pure_eq_some] at h
    obtain ⟨-, _, hrest, h⟩ := h
    obtain ⟨_, _, ⟨rfl, rfl⟩, h⟩ := h
    obtain ⟨inner, _, ⟨rfl, rfl⟩, h⟩ := h
    obtain ⟨literal, _, ⟨hlit, -⟩, rfl, -⟩ := h
    rw [hline, hrest, ← List.append_assoc, ← List.append_assoc]
    exact ⟨.option hu hv hne hname hw hlit, rfl⟩

/-- Up to its end a field is read in one way, so that its end decides. -/
theorem field?_eq {u v type w name x y digits z tail : List Char} {scope : Scope} (hu : AllBlank u)
    (hv : AllBlank v) (hvne : v ≠ []) (htype : IsTypePath type) (hw : AllBlank w) (hwne : w ≠ [])
    (hname : isIdentifier name = true) (hx : AllBlank x) (hy : AllBlank y) (hdigits : digits ≠ [])
    (hall : ∀ d ∈ digits, isDecimalDigit d = true) (hz : AllBlank z) (hblank : NotAhead isBlank tail)
    (hdigit : NotAhead isDecimalDigit tail) :
    field? (u ++ scope.keyword.toList ++ v ++ type ++ w ++ name ++ x ++ "=".toList ++ y ++ digits ++
        z ++ tail) =
      (fieldEnd? tail).map fun (literal?, rest) =>
        (.field
          { scope
            type := FieldType.ofToken (String.ofList type)
            name := String.ofList name
            digits
            default? := literal?.map String.ofList }, rest) := by
  simp only [List.append_assoc]
  rw [field?, blanks_bind hu, bind_of_eq_some (scope?_eq_some.2 rfl),
    blanks1_bind hv hvne, typeName,
    run_bind (isTypeName_iff.2 htype) (isDottedChar_of_mem_typePath htype),
    blanks1_bind hw hwne, identifier, run_bind hname (isNameChar_of_mem_identifier hname),
    blanks_bind hx, token_bind, blanks_bind hy, Reader.digits,
    run_bind (by simpa using hdigits) hall, blanks_bind hz hblank]
  · cases hend : fieldEnd? tail with
    | none => simp [bind, StateT.bind, hend]
    | some entry => rw [bind_of_eq_some hend]; rfl
  · exact hz.notAhead_append not_isDecimalDigit_of_isBlank hdigit
  · exact notAhead_append_of_ne_nil (notAhead_of_forall not_isDecimalDigit_of_isBlank hall)
      hdigits
  · exact notAhead_cons.2 (by decide)
  · exact hx.notAhead_append not_isNameChar_of_isBlank (notAhead_cons.2 (by decide))
  · exact notAhead_identifier hname
  · exact notAhead_append_of_ne_nil (hw.notAhead not_isDottedChar_of_isBlank) hwne
  · exact notAhead_typePath htype
  · cases scope <;> exact notAhead_cons.2 (by decide)

/-- A statement that is written on a line is what the reader of its kind takes from it. -/
theorem whole?_of_written {line : List Char} {s : Statement} (h : Written s line) :
    s.kind.reader.whole? line = some s := by
  rw [whole?_eq_some]
  -- each rewriting below leaves the question whether the piece ends where the next one starts
  cases h with
  | @blockEnd u hu =>
    rw [kind, Kind.reader, blockEnd?, blanks_bind hu]
    · rfl
    · exact notAhead_cons.2 (by decide)
  | package hu hv hne hname hw =>
    exact heading_bind hu hv hne (isDottedName_iff.2 hname) (isDottedChar_of_mem_dotted hname) hw
      not_isDottedChar_of_isBlank (notAhead_cons.2 (by decide)) (notAhead_typePath hname.isTypePath)
      (notAhead_cons.2 (by decide)) (notAhead_cons.2 (by decide))
  | messageStart hu hv hne hname hw =>
    exact heading_bind hu hv hne hname (isNameChar_of_mem_identifier hname) hw
      not_isNameChar_of_isBlank (notAhead_cons.2 (by decide)) (notAhead_identifier hname)
      (notAhead_cons.2 (by decide)) (notAhead_cons.2 (by decide))
  | enumStart hu hv hne hname hw =>
    exact heading_bind hu hv hne hname (isNameChar_of_mem_identifier hname) hw
      not_isNameChar_of_isBlank (notAhead_cons.2 (by decide)) (notAhead_identifier hname)
      (notAhead_cons.2 (by decide)) (notAhead_cons.2 (by decide))
  | field hu hv hvne htype hw hwne hname hx hy hdigits hall hz htail =>
    rw [kind, Kind.reader, field?_eq hu hv hvne htype hw hwne hname hx hy hdigits hall hz
      (htail.notAhead (by decide) (by decide)) (htail.notAhead (by decide) (by decide)),
      fieldEnd?_eq_some.2 ⟨rfl, htail⟩]
    rfl
  | @enumValue u label v w digits x negative hu hlabel hv hw hdigits hall hx =>
    have hdigit := notAhead_append_of_ne_nil (w := x ++ ";".toList)
      (notAhead_of_forall not_isDecimalDigit_of_isBlank hall) hdigits
    simp only [List.append_assoc]
    rw [kind, Kind.reader, enumValue?, blanks_bind hu, identifier,
      run_bind hlabel (isNameChar_of_mem_identifier hlabel), blanks_bind hv, token_bind,
      blanks_bind hw, bind_of_eq_some (sign_append hdigits hall), Reader.digits,
      run_bind (by simpa using hdigits) hall, blanks_bind hx]
    · rfl
    · exact notAhead_cons.2 (by decide)
    · exact hx.notAhead_append not_isDecimalDigit_of_isBlank (notAhead_cons.2 (by decide))
    · cases negative
      · exact hdigit
      · exact notAhead_cons.2 (by decide)
    · exact notAhead_cons.2 (by decide)
    · exact hv.notAhead_append not_isNameChar_of_isBlank (notAhead_cons.2 (by decide))
    · exact notAhead_identifier hlabel
  | @option u v name w inner literal hu hv hne hname hw hlit =>
    have hend : dropEnd? ';' (inner ++ ";".toList) = some inner := dropEnd?_eq_some.2 rfl
    rw [List.append_assoc _ inner, List.append_assoc _ "=".toList, kind, Kind.reader, option?,
      optionName, heading_bind hu hv hne hname (isOptionChar_of_mem_optionName hname) hw
        not_isOptionChar_of_isBlank,
      token_bind, bind_of_eq_some (rest_eq_some.2 ⟨rfl, rfl⟩),
      bind_of_eq_some (lift_eq_some.2 ⟨hend, rfl⟩),
      bind_of_eq_some (lift_eq_some.2 ⟨literal?_eq_some.2 hlit, rfl⟩)]
    · rfl
    · exact notAhead_cons.2 (by decide)
    · exact notAhead_optionName hname
    · exact notAhead_cons.2 (by decide)
    · exact notAhead_cons.2 (by decide)

/-! ## Kinds of lines -/

/-- The first word of a line, and the first character behind it and the blanks that follow. -/
def opening (line : List Char) : List Char × Option Char :=
  ((trimStart line).takeWhile isNameChar, (trimStart ((trimStart line).dropWhile isNameChar)).head?)

/-- The kind of statement that starts with this word and goes on with a name. -/
def keywordKind (word : List Char) : Kind :=
  if word = "package".toList then .package
  else if word = "message".toList then .messageStart
  else if word = "enum".toList then .enumStart
  else if word = "option".toList then .option
  else .field

/-- The kind of statement that a line can hold, judged by its opening. -/
def kindOf (line : List Char) : Kind :=
  if (opening line).1 = [] then .blockEnd
  else if (opening line).2 = some '=' then .enumValue
  else keywordKind (opening line).1

theorem opening_eq {u word v rest : List Char} (hu : AllBlank u) (hne : word ≠ [])
    (hword : ∀ c ∈ word, isNameChar c = true) (hv : AllBlank v) (hrest : NotAhead isBlank rest)
    (hend : NotAhead isNameChar (v ++ rest)) :
    opening (u ++ (word ++ (v ++ rest))) = (word, rest.head?) := by
  have hstart : NotAhead isBlank (word ++ (v ++ rest)) :=
    notAhead_append_of_ne_nil (notAhead_of_forall not_isNameChar_of_isBlank hword) hne
  rw [opening, trimStart_append hu hstart, takeWhile_eq hword hend, dropWhile_eq hword hend,
    trimStart_append hv hrest]

theorem all_isNameChar_keyword (scope : Scope) : scope.keyword.toList.all isNameChar = true := by
  cases scope <;> decide

/-- A line that starts with a word and a name behind it is of the kind that the word tells. -/
theorem kindOf_keyword {cls : Char → Bool} {u word v name rest : List Char} (hu : AllBlank u)
    (hne : word ≠ []) (hword : word.all isNameChar = true) (hv : AllBlank v) (hvne : v ≠ [])
    (hname : name ≠ []) (hall : ∀ c ∈ name, cls c = true)
    (hcls : ∀ {c}, isBlank c = true → cls c = false) (heq : cls '=' = false) :
    kindOf (u ++ (word ++ (v ++ (name ++ rest)))) = keywordKind word := by
  have hopen : opening (u ++ (word ++ (v ++ (name ++ rest)))) = (word, (name ++ rest).head?) := by
    rw [opening_eq hu hne (List.all_eq_true.1 hword) hv]
    · exact notAhead_append_of_ne_nil (notAhead_of_forall hcls hall) hname
    · exact notAhead_append_of_ne_nil (hv.notAhead not_isNameChar_of_isBlank) hvne
  have hnext : (name ++ rest).head? ≠ some '=' := by
    obtain ⟨c, cs, rfl⟩ := List.exists_cons_of_ne_nil hname
    intro h
    obtain rfl := Option.some.inj h
    rw [hall '=' List.mem_cons_self] at heq
    cases heq
  rw [kindOf, hopen, if_neg hne, if_neg hnext]

theorem Written.opening_eq {line digits : List Char} {label : String} {negative : Bool}
    (h : Written (.enumValue label negative digits) line) :
    opening line = (label.toList, some '=') := by
  cases h with
  | @enumValue u label v w digits x negative hu hlabel hv =>
    simp only [List.append_assoc]
    rw [Statement.opening_eq hu (identifier_ne_nil hlabel) (isNameChar_of_mem_identifier hlabel) hv]
    · exact Prod.ext String.toList_ofList.symm rfl
    · exact notAhead_cons.2 (by decide)
    · exact hv.notAhead_append not_isNameChar_of_isBlank (notAhead_cons.2 (by decide))

theorem Written.isIdentifier_label {line digits : List Char} {label : String} {negative : Bool}
    (h : Written (.enumValue label negative digits) line) : isIdentifier label.toList = true := by
  cases h with
  | enumValue hu hlabel => rwa [String.toList_ofList]

/-- The opening of a line tells the kind of the statement on it. -/
theorem Written.kind_eq {line : List Char} {s : Statement} (h : Written s line) :
    kindOf line = s.kind := by
  cases h with
  | @blockEnd u hu =>
    have htrim : trimStart (u ++ "\x7d".toList) = "\x7d".toList :=
      trimStart_append hu (notAhead_cons.2 (by decide))
    have hopen : opening (u ++ "\x7d".toList) = ([], some '\x7d') := by rw [opening, htrim]; rfl
    rw [kindOf, hopen, if_pos rfl, kind]
  | @package u v name w hu hv hne hname hw =>
    simp only [List.append_assoc]
    rw [kindOf_keyword hu (by decide) (by decide) hv hne (typePath_ne_nil hname.isTypePath)
      (isDottedChar_of_mem_dotted hname) not_isDottedChar_of_isBlank (by decide), kind]
    decide
  | @messageStart u v name w hu hv hne hname hw =>
    simp only [List.append_assoc]
    rw [kindOf_keyword hu (by decide) (by decide) hv hne (identifier_ne_nil hname)
      (isNameChar_of_mem_identifier hname) not_isNameChar_of_isBlank (by decide), kind]
    decide
  | @enumStart u v name w hu hv hne hname hw =>
    simp only [List.append_assoc]
    rw [kindOf_keyword hu (by decide) (by decide) hv hne (identifier_ne_nil hname)
      (isNameChar_of_mem_identifier hname) not_isNameChar_of_isBlank (by decide), kind]
    decide
  | @field u v type w name x y digits z tail scope literal? hu hv hvne htype =>
    simp only [List.append_assoc]
    rw [kindOf_keyword hu (by cases scope <;> decide) (all_isNameChar_keyword scope) hv hvne
      (typePath_ne_nil htype) (isDottedChar_of_mem_typePath htype) not_isDottedChar_of_isBlank
      (by decide), kind]
    cases scope <;> decide
  | @enumValue u label v w digits x negative hu hlabel hv hw hdigits hall hx =>
    have hs := @Written.enumValue u label v w digits x negative hu hlabel hv hw hdigits hall hx
    rw [kindOf, hs.opening_eq, if_neg (identifier_ne_nil hs.isIdentifier_label), if_pos rfl, kind]
  | @option u v name w inner literal hu hv hne hname =>
    simp only [List.append_assoc]
    rw [kindOf_keyword hu (by decide) (by decide) hv hne (optionName_ne_nil hname)
      (isOptionChar_of_mem_optionName hname) not_isOptionChar_of_isBlank (by decide), kind]
    decide

theorem Written.unique {line : List Char} {s t : Statement} (hs : Written s line)
    (ht : Written t line) : s = t := by
  have hkind : s.kind = t.kind := hs.kind_eq.symm.trans ht.kind_eq
  have hread := whole?_of_written ht
  rw [← hkind, whole?_of_written hs] at hread
  exact Option.some.inj hread

/-! ## Statements of lines -/

/-- An enum value whose label is spelled like the keyword of a scope. -/
def HasScopeLabel (s : Statement) : Prop :=
  ∃ (scope : Scope) (negative : Bool) (digits : List Char),
    s = .enumValue scope.keyword negative digits

theorem startsLikeField_iff {line : List Char} :
    startsLikeField line = true ↔ ∃ (u : List Char) (scope : Scope) (rest : List Char),
      AllBlank u ∧ line = u ++ (scope.keyword.toList ++ rest) ∧ NotAhead isWord rest := by
  have hend : ∀ rest, atWordEnd rest = true ↔ NotAhead isWord rest := by
    intro rest
    cases rest <;> simp [atWordEnd, NotAhead]
  unfold startsLikeField
  refine ⟨fun h => ?_, fun h => ?_⟩
  · split at h
    · next scope rest hread =>
      obtain ⟨_, _, hblanks, hscope⟩ := bind_eq_some.1 hread
      obtain ⟨u, hu, rfl, -⟩ := blanks_eq_some.1 hblanks
      exact ⟨u, scope, rest, hu, by rw [scope?_eq_some.1 hscope], (hend rest).1 h⟩
    · cases h
  · obtain ⟨u, scope, rest, hu, hline, hrest⟩ := h
    rw [hline, blanks_bind hu (by cases scope <;> exact notAhead_cons.2 (by decide)),
      scope?_eq_some.2 rfl]
    exact (hend rest).2 hrest

/-- A line that starts like a field has the keyword of a scope for its first word. -/
theorem opening_of_startsLikeField {line : List Char} (h : startsLikeField line = true) :
    ∃ scope : Scope, (opening line).1 = scope.keyword.toList := by
  obtain ⟨u, scope, rest, hu, rfl, hrest⟩ := startsLikeField_iff.1 h
  have hstart : NotAhead isBlank (scope.keyword.toList ++ rest) := by
    cases scope <;> exact notAhead_cons.2 (by decide)
  have hname : NotAhead isNameChar rest := by
    intro c hc
    rw [← Bool.not_eq_true]
    intro hcls
    have hword := hrest c hc
    rw [isWord_of_isNameChar hcls] at hword
    cases hword
  refine ⟨scope, ?_⟩
  rw [opening, trimStart_append hu hstart]
  exact takeWhile_eq (List.all_eq_true.1 (all_isNameChar_keyword scope)) hname

theorem startsLikeField_of_hasScopeLabel {line : List Char} {s : Statement} (h : Written s line)
    (hlabel : s.HasScopeLabel) : startsLikeField line = true := by
  obtain ⟨scope, negative, digits, rfl⟩ := hlabel
  generalize hkeyword : scope.keyword = label at h
  cases h with
  | @enumValue u label v w digits x negative hu hlabel hv =>
    refine startsLikeField_iff.2 ⟨u, scope, v ++ ("=".toList ++ (w ++
      ((if negative then "-".toList else []) ++ (digits ++ (x ++ ";".toList))))), hu, ?_, ?_⟩
    · simp only [hkeyword, String.toList_ofList, List.append_assoc]
    · exact hv.notAhead_append not_isWord_of_isBlank (notAhead_cons.2 (by decide +kernel))

/-- A line with a field starts like one, as a blank stands behind its scope. -/
theorem startsLikeField_of_kind_eq_field {line : List Char} {s : Statement} (h : Written s line)
    (hkind : s.kind = .field) : startsLikeField line = true := by
  cases h with
  | @field u v type w name x y digits z tail scope literal? hu hv hvne =>
    refine startsLikeField_iff.2 ⟨u, scope, v ++ (type ++ (w ++ (name ++ (x ++ ("=".toList ++ (y ++
      (digits ++ (z ++ tail)))))))), hu, by simp only [List.append_assoc], ?_⟩
    exact notAhead_append_of_ne_nil (hv.notAhead not_isWord_of_isBlank) hvne
  | _ => cases hkind

theorem hasScopeLabel_of_startsLikeField {line : List Char} {s : Statement} (hs : Written s line)
    (hkind : s.kind ≠ .field) (hfield : startsLikeField line = true) : s.HasScopeLabel := by
  obtain ⟨scope, hscope⟩ := opening_of_startsLikeField hfield
  have hline := hs.kind_eq
  rw [kindOf, hscope, if_neg (by cases scope <;> decide)] at hline
  split at hline
  · cases s with
    | enumValue label negative digits =>
      rw [hs.opening_eq] at hscope
      exact ⟨scope, negative, digits, by rw [String.toList_inj.1 hscope]⟩
    | _ => cases hline
  · refine absurd hline.symm fun hline => hkind (hline.trans ?_)
    cases scope <;> decide

/-- A line starts like a field if a field is written on it, and else only if an enum value is whose
label is spelled like a scope. -/
theorem startsLikeField_iff_of_written {line : List Char} {s : Statement} (h : Written s line) :
    startsLikeField line = true ↔ s.kind = .field ∨ s.HasScopeLabel := by
  constructor
  · intro hfield
    by_cases hkind : s.kind = .field
    · exact .inl hkind
    · exact .inr (hasScopeLabel_of_startsLikeField h hkind hfield)
  · rintro (hkind | hlabel)
    · exact startsLikeField_of_kind_eq_field h hkind
    · exact startsLikeField_of_hasScopeLabel h hlabel

theorem findSome?_whole?_eq_some (kinds : List Kind) {line : List Char} {s : Statement} :
    kinds.findSome? (·.reader.whole? line) = some s ↔ Written s line ∧ s.kind ∈ kinds := by
  refine ⟨fun h => ?_, fun ⟨hs, hmem⟩ => ?_⟩
  · obtain ⟨k, hk, hread⟩ := List.exists_of_findSome?_eq_some h
    obtain ⟨hs, rfl⟩ := written_of_whole? hread
    exact ⟨hs, hk⟩
  · cases hfind : kinds.findSome? (·.reader.whole? line) with
    | none =>
      have hnone := List.findSome?_eq_none_iff.1 hfind s.kind hmem
      rw [whole?_of_written hs] at hnone
      cases hnone
    | some t =>
      obtain ⟨k, -, hread⟩ := List.exists_of_findSome?_eq_some hfind
      rw [hs.unique (written_of_whole? hread).1]

/-- Reading a line gives the statement that is written there. Only an enum value whose label is
spelled like a scope is not read, as its line starts like a field. -/
theorem ofLine_eq_ok {line : List Char} {s : Statement} :
    ofLine line = .ok s ↔ Written s line ∧ ¬ s.HasScopeLabel := by
  have hearly (t : Statement) : [blockEnd?, package?, messageStart?, enumStart?, field?].findSome?
      (·.whole? line) = some t ↔ _ := findSome?_whole?_eq_some
        [.blockEnd, .package, .messageStart, .enumStart, .field]
  have hlate (t : Statement) : [enumValue?, option?].findSome? (·.whole? line) = some t ↔ _ :=
    findSome?_whole?_eq_some [.enumValue, .option]
  unfold ofLine
  refine ⟨fun h => ?_, fun ⟨hs, hlabel⟩ => ?_⟩
  · split at h
    · next t hread =>
      obtain rfl := Except.ok.inj h
      obtain ⟨hs, hkind⟩ := (hearly t).1 hread
      refine ⟨hs, fun ⟨scope, negative, digits, heq⟩ => ?_⟩
      rw [heq, kind] at hkind
      exact absurd hkind (by decide)
    · split at h
      · cases h
      · next hfield =>
        split at h
        · next t hread =>
          obtain rfl := Except.ok.inj h
          obtain ⟨hs, -⟩ := (hlate t).1 hread
          exact ⟨hs, fun hlabel => hfield (startsLikeField_of_hasScopeLabel hs hlabel)⟩
        · cases h
  · split
    · next t hread => rw [((hearly t).1 hread).1.unique hs]
    · next hnone =>
      -- no earlier reader takes the line, so it holds an enum value or an option
      have hkind : s.kind = .enumValue ∨ s.kind = .option := by
        have hearly := mt (hearly s).2 (by rw [hnone]; exact fun h => by cases h)
        cases hk : s.kind <;> simp_all
      split
      · next hfield =>
        have hnot : s.kind ≠ .field := by rcases hkind with h | h <;> rw [h] <;> decide
        exact absurd (hasScopeLabel_of_startsLikeField hs hnot hfield) hlabel
      · split
        · next t hread => rw [((hlate t).1 hread).1.unique hs]
        · next hnone =>
          have hread := (hlate s).2 ⟨hs, by rcases hkind with h | h <;> rw [h] <;> decide⟩
          rw [hnone] at hread
          cases hread

theorem ofLine_of_written {line : List Char} {s : Statement} (h : Written s line)
    (hkind : s.kind ≠ .enumValue) : ofLine line = .ok s := by
  refine ofLine_eq_ok.2 ⟨h, fun ⟨scope, negative, digits, heq⟩ => hkind ?_⟩
  rw [heq, kind]

theorem reason_of_ofLine {line : List Char} {reason : Reason} (h : ofLine line = .error reason) :
    reason = if startsLikeField line then .malformedField else .notAStatement := by
  unfold ofLine at h
  split at h
  · cases h
  · split at h
    · next hfield => rw [if_pos hfield, Except.error.inj h]
    · next hfield =>
      split at h
      · cases h
      · rw [if_neg hfield, Except.error.inj h]

/-- Of a line on which no statement can be read, the first word tells what was expected there. -/
theorem ofLine_eq_error {line : List Char} {reason : Reason} :
    ofLine line = .error reason ↔
      (∀ s, Written s line → s.HasScopeLabel) ∧
        reason = if startsLikeField line then .malformedField else .notAStatement := by
  refine ⟨fun h => ⟨fun s hs => ?_, reason_of_ofLine h⟩, fun ⟨hnone, hreason⟩ => ?_⟩
  · refine Classical.byContradiction fun hlabel => ?_
    rw [ofLine_eq_ok.2 ⟨hs, hlabel⟩] at h
    cases h
  · cases hread : ofLine line with
    | ok s =>
      obtain ⟨hs, hlabel⟩ := ofLine_eq_ok.1 hread
      exact absurd (hnone s hs) hlabel
    | error reason' => rw [reason_of_ofLine hread, hreason]

end Statement

end ProtoSchema
