import ProtoSchema.Proofs.Reading
import ProtoSchema.Text.Word

/-!
# Names and the characters around them

What a name is made of tells where it ends: a blank and the punctuation behind a name are no part of
it. Dotted names are described here by their parts.

Results:
* `isDottedName_iff`, `isTypeName_iff`: a dotted name is an identifier and any number of further
  ones, each behind a dot; the name of a type may have one more dot in front;
* `not_isNameChar_of_isBlank` and its companions: blanks are in no other class of characters;
* `isWord_of_isNameChar`: names are made of word characters.
-/
namespace ProtoSchema.Text

/-! ## Classes of characters -/

/-- No code point lies in a range of both tables. -/
def CodeRanges.Disjoint (a b : CodeRanges) : Prop :=
  ∀ r ∈ a, ∀ s ∈ b, r.2 < s.1 ∨ s.2 < r.1

instance (a b : CodeRanges) : Decidable (a.Disjoint b) :=
  inferInstanceAs (Decidable (∀ r ∈ a, ∀ s ∈ b, r.2 < s.1 ∨ s.2 < r.1))

theorem CodeRanges.Disjoint.not_contains {a b : CodeRanges} (h : a.Disjoint b) {c : Char}
    (hc : a.contains c = true) : b.contains c = false := by
  obtain ⟨r, hr, hlow, hhigh⟩ := CodeRanges.contains_iff.1 hc
  rw [← Bool.not_eq_true]
  intro hb
  obtain ⟨s, hs, hlow', hhigh'⟩ := CodeRanges.contains_iff.1 hb
  have := h r hr s hs
  omega

/-- The code points of letters, digits and underscore. -/
def nameRanges : CodeRanges :=
  [(0x30, 0x39), (0x41, 0x5A), (0x5F, 0x5F), (0x61, 0x7A)]

theorem isNameChar_eq_contains (c : Char) : isNameChar c = nameRanges.contains c := by
  have hunder : c = '_' ↔ c.toNat = 95 := by
    rw [← Char.toNat_inj]
    rfl
  have hletter : c.isAlpha = (decide (c.val ≥ 65 ∧ c.val ≤ 90) ||
      (decide (c.val ≥ 97) && decide (c.val ≤ 122))) := rfl
  rw [Bool.eq_iff_iff]
  simp only [isNameChar, Char.isAlphanum, hletter, Char.isDigit,
    CodeRanges.contains, nameRanges, List.any_cons, List.any_nil, Bool.or_eq_true,
    Bool.and_eq_true, decide_eq_true_eq, beq_iff_eq, UInt32.le_iff_toNat_le, ge_iff_le, hunder,
    Bool.false_eq_true, or_false]
  change (((65 ≤ c.toNat ∧ c.toNat ≤ 90) ∨ (97 ≤ c.toNat ∧ c.toNat ≤ 122)) ∨
    (48 ≤ c.toNat ∧ c.toNat ≤ 57)) ∨ c.toNat = 95 ↔ _
  omega

theorem not_isNameChar_of_isBlank {c : Char} (h : isBlank c = true) : isNameChar c = false := by
  rw [isNameChar_eq_contains]
  exact CodeRanges.Disjoint.not_contains (by decide) h

theorem not_isDecimalDigit_of_isBlank {c : Char} (h : isBlank c = true) :
    isDecimalDigit c = false :=
  CodeRanges.Disjoint.not_contains (by decide) h

theorem not_isWord_of_isBlank {c : Char} (h : isBlank c = true) : isWord c = false :=
  CodeRanges.Disjoint.not_contains (by decide +kernel) h

theorem isBlank_ne {c d : Char} (h : isBlank c = true) (hd : isBlank d = false) : c ≠ d := by
  intro heq
  rw [heq, hd] at h
  cases h

theorem not_isDottedChar_of_isBlank {c : Char} (h : isBlank c = true) :
    isDottedChar c = false := by
  simp [isDottedChar, not_isNameChar_of_isBlank h, isBlank_ne h (d := '.') (by decide)]

theorem not_isOptionChar_of_isBlank {c : Char} (h : isBlank c = true) :
    isOptionChar c = false := by
  simp [isOptionChar, not_isDottedChar_of_isBlank h, isBlank_ne h (d := '(') (by decide),
    isBlank_ne h (d := ')') (by decide)]

theorem notAhead_of_forall {cls : Char → Bool} {cs : List Char}
    (hcls : ∀ {c}, isBlank c = true → cls c = false) (h : ∀ c ∈ cs, cls c = true) :
    NotAhead isBlank cs := by
  intro c hc
  rw [← Bool.not_eq_true]
  intro hb
  have hmem := h c (List.mem_of_head? hc)
  rw [hcls hb] at hmem
  cases hmem

theorem AllBlank.notAhead {cls : Char → Bool} {w : List Char} (hw : AllBlank w)
    (hcls : ∀ {c}, isBlank c = true → cls c = false) : NotAhead cls w :=
  fun c hc => hcls (hw c (List.mem_of_head? hc))

theorem AllBlank.notAhead_append {cls : Char → Bool} {w rest : List Char} (hw : AllBlank w)
    (hcls : ∀ {c}, isBlank c = true → cls c = false) (hrest : NotAhead cls rest) :
    NotAhead cls (w ++ rest) :=
  Text.notAhead_append (hw.notAhead hcls) hrest

theorem isNameChar_of_isNameStart {c : Char} (h : isNameStart c = true) : isNameChar c = true := by
  simp only [isNameStart, isNameChar, Char.isAlphanum, Bool.or_eq_true] at h ⊢
  rcases h with h | h
  · exact .inl (.inl h)
  · exact .inr h

theorem isWord_of_isNameChar {c : Char} (h : isNameChar c = true) : isWord c = true := by
  rw [isNameChar_eq_contains] at h
  obtain ⟨r, hr, hlow, hhigh⟩ := CodeRanges.contains_iff.1 h
  have hmem : ∀ r ∈ nameRanges, r ∈ wordRanges := by decide
  exact CodeRanges.contains_iff.2 ⟨r, hmem r hr, hlow, hhigh⟩

/-! ## Identifiers -/

theorem isIdentifier_iff {cs : List Char} :
    isIdentifier cs = true ↔
      ∃ c rest, cs = c :: rest ∧ isNameStart c = true ∧ ∀ d ∈ rest, isNameChar d = true := by
  cases cs with
  | nil => simp [isIdentifier]
  | cons c cs =>
    simp only [isIdentifier, Bool.and_eq_true, List.all_eq_true]
    refine ⟨fun h => ⟨c, cs, rfl, h.1, h.2⟩, fun h => ?_⟩
    obtain ⟨d, rest, hcs, hd, hrest⟩ := h
    obtain ⟨rfl, rfl⟩ := List.cons.inj hcs
    exact ⟨hd, hrest⟩

theorem isNameChar_of_mem_identifier {cs : List Char} (h : isIdentifier cs = true) :
    ∀ c ∈ cs, isNameChar c = true := by
  obtain ⟨c, rest, rfl, hc, hrest⟩ := isIdentifier_iff.1 h
  intro d hd
  rcases List.mem_cons.1 hd with rfl | hd
  · exact isNameChar_of_isNameStart hc
  · exact hrest d hd

theorem identifier_ne_nil {cs : List Char} (h : isIdentifier cs = true) : cs ≠ [] := by
  intro hnil
  subst hnil
  cases h

theorem notAhead_identifier {cs rest : List Char} (h : isIdentifier cs = true) :
    NotAhead isBlank (cs ++ rest) :=
  notAhead_append_of_ne_nil
    (notAhead_of_forall not_isNameChar_of_isBlank (isNameChar_of_mem_identifier h))
    (identifier_ne_nil h)

/-! ## Dotted names -/

/-- An identifier and any number of further ones, each behind a dot. -/
def IsDotted (cs : List Char) : Prop :=
  ∃ (first : List Char) (parts : List (List Char)), isIdentifier first = true ∧
    (∀ p ∈ parts, isIdentifier p = true) ∧ cs = first ++ parts.flatMap ('.' :: ·)

/-- A dotted name, perhaps behind one dot. -/
def IsTypePath (cs : List Char) : Prop :=
  ∃ name, IsDotted name ∧ (cs = name ∨ cs = '.' :: name)

/-- A dotted name without the first character of its first identifier. -/
def IsDottedTail (cs : List Char) : Prop :=
  ∃ (more : List Char) (parts : List (List Char)), (∀ c ∈ more, isNameChar c = true) ∧
    (∀ p ∈ parts, isIdentifier p = true) ∧ cs = more ++ parts.flatMap ('.' :: ·)

theorem not_isDotted_nil : ¬ IsDotted [] := by
  intro ⟨first, parts, hfirst, _, h⟩
  exact identifier_ne_nil hfirst (List.append_eq_nil_iff.1 h.symm).1

theorem isDotted_cons {c : Char} {cs : List Char} :
    IsDotted (c :: cs) ↔ isNameStart c = true ∧ IsDottedTail cs := by
  refine ⟨fun h => ?_, fun ⟨hc, h⟩ => ?_⟩
  · obtain ⟨first, parts, hfirst, hparts, hcs⟩ := h
    obtain ⟨d, more, rfl, hd, hmore⟩ := isIdentifier_iff.1 hfirst
    obtain ⟨rfl, rfl⟩ := List.cons.inj hcs
    exact ⟨hd, more, parts, hmore, hparts, rfl⟩
  · obtain ⟨more, parts, hmore, hparts, rfl⟩ := h
    exact ⟨c :: more, parts, isIdentifier_iff.2 ⟨c, more, rfl, hc, hmore⟩, hparts, rfl⟩

theorem isDottedTail_nil : IsDottedTail [] :=
  ⟨[], [], nofun, nofun, rfl⟩

theorem isDottedTail_dot {cs : List Char} : IsDottedTail ('.' :: cs) ↔ IsDotted cs := by
  refine ⟨fun h => ?_, fun h => ?_⟩
  · obtain ⟨more, parts, hmore, hparts, hcs⟩ := h
    cases more with
    | cons d more =>
      obtain ⟨rfl, _⟩ := List.cons.inj hcs
      exact absurd (hmore '.' List.mem_cons_self) (by decide)
    | nil =>
      cases parts with
      | nil => cases hcs
      | cons first parts =>
        obtain ⟨hfirst, hparts⟩ := List.forall_mem_cons.1 hparts
        exact ⟨first, parts, hfirst, hparts, by simpa using hcs⟩
  · obtain ⟨first, parts, hfirst, hparts, rfl⟩ := h
    exact ⟨[], first :: parts, nofun, List.forall_mem_cons.2 ⟨hfirst, hparts⟩, by simp⟩

theorem isDottedTail_cons {c : Char} {cs : List Char} (hdot : c ≠ '.') :
    IsDottedTail (c :: cs) ↔ isNameChar c = true ∧ IsDottedTail cs := by
  refine ⟨fun h => ?_, fun ⟨hc, h⟩ => ?_⟩
  · obtain ⟨more, parts, hmore, hparts, hcs⟩ := h
    cases more with
    | nil =>
      cases parts with
      | nil => cases hcs
      | cons first parts => exact absurd (List.cons.inj hcs).1 hdot
    | cons d more =>
      obtain ⟨rfl, rfl⟩ := List.cons.inj hcs
      obtain ⟨hc, hmore⟩ := List.forall_mem_cons.1 hmore
      exact ⟨hc, more, parts, hmore, hparts, rfl⟩
  · obtain ⟨more, parts, hmore, hparts, rfl⟩ := h
    exact ⟨c :: more, parts, List.forall_mem_cons.2 ⟨hc, hmore⟩, hparts, rfl⟩

/-- The scan of a dotted name, at the start of an identifier and inside one. -/
theorem isDottedRest_iff (cs : List Char) :
    (isDottedRest true cs = true ↔ IsDotted cs) ∧
      (isDottedRest false cs = true ↔ IsDottedTail cs) := by
  induction cs with
  | nil => simp [isDottedRest, not_isDotted_nil, isDottedTail_nil]
  | cons c cs ih =>
    obtain ⟨ihFresh, ihInside⟩ := ih
    refine ⟨?_, ?_⟩
    · simp only [isDottedRest, if_true, Bool.and_eq_true, ihInside, isDotted_cons]
    · simp only [isDottedRest, Bool.false_eq_true, if_false]
      by_cases hdot : c = '.'
      · rw [if_pos hdot, ihFresh, hdot, isDottedTail_dot]
      · rw [if_neg hdot, Bool.and_eq_true, ihInside, isDottedTail_cons hdot]

theorem isDottedName_iff {cs : List Char} : isDottedName cs = true ↔ IsDotted cs :=
  (isDottedRest_iff cs).1

theorem isTypeName_iff {cs : List Char} : isTypeName cs = true ↔ IsTypePath cs := by
  unfold isTypeName
  split
  · next cs =>
    rw [isDottedName_iff]
    refine ⟨fun h => ⟨cs, h, .inr rfl⟩, fun ⟨name, hname, h⟩ => ?_⟩
    rcases h with rfl | h
    · exact absurd (isDotted_cons.1 hname).1 (by decide)
    · obtain ⟨_, rfl⟩ := List.cons.inj h
      exact hname
  · next hdot =>
    rw [isDottedName_iff]
    refine ⟨fun h => ⟨cs, h, .inl rfl⟩, fun ⟨name, hname, h⟩ => ?_⟩
    rcases h with rfl | rfl
    · exact hname
    · exact absurd rfl (hdot name)

theorem isDottedChar_of_mem_dotted {cs : List Char} (h : IsDotted cs) :
    ∀ c ∈ cs, isDottedChar c = true := by
  obtain ⟨first, parts, hfirst, hparts, rfl⟩ := h
  have hname : ∀ {p : List Char}, isIdentifier p = true → ∀ c ∈ p, isDottedChar c = true :=
    fun hp c hc => by simp [isDottedChar, isNameChar_of_mem_identifier hp c hc]
  intro c hc
  rcases List.mem_append.1 hc with hc | hc
  · exact hname hfirst c hc
  · obtain ⟨p, hp, hc⟩ := List.mem_flatMap.1 hc
    rcases List.mem_cons.1 hc with rfl | hc
    · decide
    · exact hname (hparts p hp) c hc

theorem isDottedChar_of_mem_typePath {cs : List Char} (h : IsTypePath cs) :
    ∀ c ∈ cs, isDottedChar c = true := by
  obtain ⟨name, hname, rfl | rfl⟩ := h
  · exact isDottedChar_of_mem_dotted hname
  · exact List.forall_mem_cons.2 ⟨by decide, isDottedChar_of_mem_dotted hname⟩

theorem typePath_ne_nil {cs : List Char} (h : IsTypePath cs) : cs ≠ [] := by
  intro hnil
  subst hnil
  obtain ⟨name, hname, rfl | h⟩ := h
  · exact not_isDotted_nil hname
  · cases h

theorem IsDotted.isTypePath {cs : List Char} (h : IsDotted cs) : IsTypePath cs :=
  ⟨cs, h, .inl rfl⟩

theorem notAhead_typePath {cs rest : List Char} (h : IsTypePath cs) :
    NotAhead isBlank (cs ++ rest) :=
  notAhead_append_of_ne_nil
    (notAhead_of_forall not_isDottedChar_of_isBlank (isDottedChar_of_mem_typePath h))
    (typePath_ne_nil h)

/-! ## Names of options -/

theorem isOptionChar_of_mem_optionName {cs : List Char} (h : isOptionName cs = true) :
    ∀ c ∈ cs, isOptionChar c = true := by
  cases cs with
  | nil => cases h
  | cons c cs =>
    simp only [isOptionName, Bool.and_eq_true, List.all_eq_true] at h
    refine List.forall_mem_cons.2 ⟨?_, h.2⟩
    have hc := h.1
    simp only [isOptionStart, isOptionChar, isDottedChar, Bool.or_eq_true] at hc ⊢
    rcases hc with hc | hc
    · exact .inl (.inl (.inl (isNameChar_of_isNameStart hc)))
    · exact .inl (.inr hc)

theorem optionName_ne_nil {cs : List Char} (h : isOptionName cs = true) : cs ≠ [] := by
  intro hnil
  subst hnil
  cases h

theorem notAhead_optionName {cs rest : List Char} (h : isOptionName cs = true) :
    NotAhead isBlank (cs ++ rest) :=
  notAhead_append_of_ne_nil
    (notAhead_of_forall not_isOptionChar_of_isBlank (isOptionChar_of_mem_optionName h))
    (optionName_ne_nil h)

end ProtoSchema.Text
