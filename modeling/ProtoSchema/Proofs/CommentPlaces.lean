import ProtoSchema.Proofs.Comments

/-!
# Where comments start

`beforeComment` finds the comment of a line with a scan that goes from state to state. Here the same
is said of the characters alone.

**Literals.** A `LiteralBody` may stand between two quotes: a backslash in it takes the next
character with it, and the quote itself stands only behind a backslash. In a `Closed` text every
quote that opens a literal has one that closes it, so behind such a text the line is outside every
literal.

**Comments.** A comment starts at the first marker behind a closed text (`MarkerBehind`), and
`CommentSplit` cuts the line there. A line without such a marker is all in front of its comment.

Results:
* `closed_iff`: a text is closed exactly when the scan ends outside every literal;
* `commentSplit_iff`, `eq_code_iff`: the one way to cut a line, and the code that it leaves;
* `code_of_unclosed`: a literal that is never closed reaches to the end of the line;
* `code_code`, `code_append_comment`, `code_stable`: what the code of a line does not depend on.
-/
namespace ProtoSchema.Text

/-! ## Literals -/

/-- The characters that open a literal. -/
def IsQuote (c : Char) : Prop :=
  c = '"' ∨ c = '\''

/-- What may stand between a quote that opens a literal and the one that closes it. -/
inductive LiteralBody (quote : Char) : List Char → Prop
  | nil : LiteralBody quote []
  | char {c : Char} {cs : List Char} : c ≠ '\\' → c ≠ quote → LiteralBody quote cs →
      LiteralBody quote (c :: cs)
  | escape {c : Char} {cs : List Char} : LiteralBody quote cs → LiteralBody quote ('\\' :: c :: cs)

/-- A text in which every literal is closed. -/
inductive Closed : List Char → Prop
  | nil : Closed []
  | char {c : Char} {cs : List Char} : ¬ IsQuote c → Closed cs → Closed (c :: cs)
  | literal {quote : Char} {body cs : List Char} : IsQuote quote → LiteralBody quote body →
      Closed cs → Closed (quote :: (body ++ quote :: cs))

theorem next_outside_of_isQuote {c : Char} (h : IsQuote c) : Scan.outside.next c = .literal c :=
  if_pos h

theorem next_outside_of_not_isQuote {c : Char} (h : ¬ IsQuote c) :
    Scan.outside.next c = .outside :=
  if_neg h

theorem IsQuote.ne_of {quote c : Char} (h : IsQuote quote) (hc : ¬ IsQuote c) : quote ≠ c :=
  fun heq => hc (heq ▸ h)

theorem not_isQuote_backslash : ¬ IsQuote '\\' := by
  unfold IsQuote
  decide

theorem not_isQuote_slash : ¬ IsQuote '/' := by
  unfold IsQuote
  decide

theorem next_literal_backslash (quote : Char) : (Scan.literal quote).next '\\' = .escape quote := by
  rw [Scan.next, if_pos rfl]

theorem next_literal_quote {quote : Char} (h : IsQuote quote) :
    (Scan.literal quote).next quote = .outside := by
  rw [Scan.next, if_neg (h.ne_of not_isQuote_backslash), if_pos rfl]

theorem next_literal_of_ne {quote c : Char} (hbackslash : c ≠ '\\') (hquote : c ≠ quote) :
    (Scan.literal quote).next c = .literal quote := by
  rw [Scan.next, if_neg hbackslash, if_neg hquote]

theorem next_escape (quote c : Char) : (Scan.escape quote).next c = .literal quote :=
  rfl

theorem LiteralBody.foldl_next {quote : Char} {body : List Char} (h : LiteralBody quote body) :
    body.foldl Scan.next (.literal quote) = .literal quote := by
  induction h with
  | nil => rfl
  | char hbackslash hquote _ ih =>
    rw [List.foldl_cons, next_literal_of_ne hbackslash hquote, ih]
  | escape _ ih =>
    rw [List.foldl_cons, List.foldl_cons, next_literal_backslash, next_escape, ih]

theorem Closed.foldl_next {cs : List Char} (h : Closed cs) :
    cs.foldl Scan.next .outside = .outside := by
  induction h with
  | nil => rfl
  | char hc _ ih => rw [List.foldl_cons, next_outside_of_not_isQuote hc, ih]
  | literal hquote hbody _ ih =>
    rw [List.foldl_cons, next_outside_of_isQuote hquote, List.foldl_append, hbody.foldl_next,
      List.foldl_cons, next_literal_quote hquote, ih]

/-- How a text goes on from a state of the scan if it ends outside every literal. -/
def Closes : Scan → List Char → Prop
  | .outside, cs => Closed cs
  | .literal quote, cs =>
    ∃ body rest, cs = body ++ quote :: rest ∧ LiteralBody quote body ∧ Closed rest
  | .escape quote, cs =>
    ∃ c body rest, cs = c :: (body ++ quote :: rest) ∧ LiteralBody quote body ∧ Closed rest

theorem closes_of_foldl_next {scan : Scan} {cs : List Char}
    (h : cs.foldl Scan.next scan = .outside) : Closes scan cs := by
  -- A character may lead from any state to another, so the induction is over all of them at once.
  induction cs generalizing scan with
  | nil =>
    obtain rfl : scan = .outside := h
    exact .nil
  | cons c cs ih =>
    have hrest : Closes (scan.next c) cs := ih h
    cases scan with
    | outside =>
      by_cases hc : IsQuote c
      · rw [next_outside_of_isQuote hc] at hrest
        obtain ⟨body, rest, rfl, hbody, hclosed⟩ := hrest
        exact .literal hc hbody hclosed
      · rw [next_outside_of_not_isQuote hc] at hrest
        exact .char hc hrest
    | literal quote =>
      by_cases hbackslash : c = '\\'
      · rw [hbackslash, next_literal_backslash] at hrest
        obtain ⟨d, body, rest, rfl, hbody, hclosed⟩ := hrest
        exact ⟨'\\' :: d :: body, rest, by rw [hbackslash]; rfl, .escape hbody, hclosed⟩
      · by_cases hquote : c = quote
        · rw [hquote, Scan.next, if_neg (hquote ▸ hbackslash), if_pos rfl] at hrest
          exact ⟨[], cs, by rw [hquote]; rfl, .nil, hrest⟩
        · rw [next_literal_of_ne hbackslash hquote] at hrest
          obtain ⟨body, rest, rfl, hbody, hclosed⟩ := hrest
          exact ⟨c :: body, rest, rfl, .char hbackslash hquote hbody, hclosed⟩
    | escape quote =>
      obtain ⟨body, rest, rfl, hbody, hclosed⟩ := hrest
      exact ⟨c, body, rest, rfl, hbody, hclosed⟩

theorem closed_iff {cs : List Char} : Closed cs ↔ cs.foldl Scan.next .outside = .outside :=
  ⟨Closed.foldl_next, closes_of_foldl_next⟩

/-! ## Markers -/

/-- Behind `front`, and outside every literal, the line has a comment marker. -/
def MarkerBehind (line front : List Char) : Prop :=
  Closed front ∧ front ++ commentMarker <+: line

theorem MarkerBehind.length_lt {line front : List Char} (h : MarkerBehind line front) :
    front.length < line.length := by
  have hlength := h.2.length_le
  rw [List.length_append] at hlength
  exact Nat.lt_of_lt_of_le (Nat.lt_add_of_pos_right (by decide)) hlength

/-- The scan stops at a marker outside every literal, or in front of it. -/
theorem beforeComment_isPrefix_of_foldl {scan : Scan} {front cs : List Char}
    (hscan : front.foldl Scan.next scan = .outside) (hmarker : front ++ commentMarker <+: cs) :
    beforeComment scan cs <+: front := by
  induction cs generalizing scan front with
  | nil => exact List.nil_prefix
  | cons c cs ih =>
    rw [beforeComment]
    split
    · exact List.nil_prefix
    · next hnone =>
      cases front with
      | nil => exact absurd ⟨hscan, List.isPrefixOf_iff_prefix.2 hmarker⟩ hnone
      | cons d front =>
        obtain ⟨rfl, hrest⟩ := List.cons_prefix_cons.1 hmarker
        exact List.cons_prefix_cons.2 ⟨rfl, ih hscan hrest⟩

/-- Where the scan stops short of the end, it is outside every literal and has met a marker. -/
theorem marker_of_beforeComment_ne {scan : Scan} {cs : List Char} (h : beforeComment scan cs ≠ cs) :
    (beforeComment scan cs).foldl Scan.next scan = .outside ∧
      beforeComment scan cs ++ commentMarker <+: cs := by
  induction cs generalizing scan with
  | nil => exact absurd rfl h
  | cons c cs ih =>
    rw [beforeComment] at h ⊢
    split at h
    · next hmarker =>
      rw [if_pos hmarker]
      exact ⟨hmarker.1, List.isPrefixOf_iff_prefix.1 hmarker.2⟩
    · next hnone =>
      obtain ⟨hscan, hmarker⟩ := ih fun heq => h (by rw [heq])
      rw [if_neg hnone]
      exact ⟨hscan, List.cons_prefix_cons.2 ⟨rfl, hmarker⟩⟩

section Places

variable {line front comment : List Char}

theorem beforeComment_isPrefix_of_markerBehind (h : MarkerBehind line front) :
    beforeComment .outside line <+: front :=
  beforeComment_isPrefix_of_foldl h.1.foldl_next h.2

theorem markerBehind_beforeComment (h : beforeComment .outside line ≠ line) :
    MarkerBehind line (beforeComment .outside line) :=
  ⟨closed_iff.2 (marker_of_beforeComment_ne h).1, (marker_of_beforeComment_ne h).2⟩

theorem beforeComment_ne_of_markerBehind (h : MarkerBehind line front) :
    beforeComment .outside line ≠ line := by
  intro heq
  have hlength := (beforeComment_isPrefix_of_markerBehind h).length_le
  rw [heq] at hlength
  exact absurd h.length_lt (Nat.not_lt.2 hlength)

theorem beforeComment_eq_iff :
    beforeComment .outside line = line ↔ ∀ front, ¬ MarkerBehind line front :=
  ⟨fun h _ hmarker => beforeComment_ne_of_markerBehind hmarker h, fun h =>
    Classical.byContradiction fun hne => h _ (markerBehind_beforeComment hne)⟩

/-- The line falls into what stands in front of its comment and the comment, which starts at the
first marker outside every literal and is empty if there is none. -/
structure CommentSplit (line front comment : List Char) : Prop where
  append : front ++ comment = line
  marked : comment = [] ∨ MarkerBehind line front
  first : ∀ front', MarkerBehind line front' → front <+: front'

theorem commentSplit_iff :
    CommentSplit line front comment ↔
      front ++ comment = line ∧ front = beforeComment .outside line := by
  constructor
  · rintro ⟨happend, hmarked, hfirst⟩
    refine ⟨happend, ?_⟩
    by_cases hnone : beforeComment .outside line = line
    · rcases hmarked with rfl | hmarker
      · rw [hnone, ← happend, List.append_nil]
      · exact absurd hnone (beforeComment_ne_of_markerBehind hmarker)
    · have hfront := hfirst _ (markerBehind_beforeComment hnone)
      rcases hmarked with rfl | hmarker
      · -- the whole line cannot be a first part of what stands in front of a marker
        rw [List.append_nil] at happend
        have hlength := (markerBehind_beforeComment hnone).length_lt
        exact absurd hlength (Nat.not_lt.2 (happend ▸ hfront.length_le))
      · exact hfront.eq_of_length_le (beforeComment_isPrefix_of_markerBehind hmarker).length_le
  · rintro ⟨happend, rfl⟩
    refine ⟨happend, ?_, fun _ => beforeComment_isPrefix_of_markerBehind⟩
    by_cases hnone : beforeComment .outside line = line
    · rw [hnone, List.append_right_eq_self] at happend
      exact .inl happend
    · exact .inr (markerBehind_beforeComment hnone)

/-- The code of a line is what stands in front of its comment, up to the blanks at the end. -/
theorem eq_code_iff {kept : List Char} :
    kept = code line ↔
      ∃ w comment, CommentSplit line (kept ++ w) comment ∧ AllBlank w ∧
        NotAhead isBlank kept.reverse := by
  constructor
  · rintro rfl
    obtain ⟨w, hw, hsplit, hend⟩ := exists_trimEnd (beforeComment .outside line)
    obtain ⟨comment, hcomment⟩ := beforeComment_isPrefix .outside line
    refine ⟨w, comment, commentSplit_iff.2 ?_, hw, hend⟩
    rw [code, ← hsplit]
    exact ⟨hcomment, rfl⟩
  · rintro ⟨w, comment, hsplit, hw, hend⟩
    rw [code, ← (commentSplit_iff.1 hsplit).2, trimEnd_append hw hend]

/-! ## Literals that stay open -/

theorem beforeComment_literal_of_unclosed {quote : Char} {body : List Char}
    (h : ∀ inner, LiteralBody quote inner → ¬ inner ++ [quote] <+: body) :
    beforeComment (.literal quote) body = body := by
  refine Classical.byContradiction fun hne => ?_
  obtain ⟨hscan, hmarker⟩ := marker_of_beforeComment_ne hne
  obtain ⟨inner, rest, hsplit, hinner, -⟩ := closes_of_foldl_next hscan
  rw [hsplit, ← List.singleton_append, List.append_assoc, List.append_assoc,
    ← List.append_assoc] at hmarker
  exact h inner hinner ((List.prefix_append _ _).trans hmarker)

/-- A literal that nothing closes reaches to the end of the line. -/
theorem code_of_unclosed {quote : Char} {body : List Char} (hclosed : Closed front)
    (hnone : ∀ front', ¬ MarkerBehind front front') (hquote : IsQuote quote)
    (hopen : ∀ inner, LiteralBody quote inner → ¬ inner ++ [quote] <+: body) :
    code (front ++ quote :: body) = trimEnd (front ++ quote :: body) := by
  have hseam : (quote :: body).head? ≠ some '/' := fun h =>
    hquote.ne_of not_isQuote_slash (Option.some.inj h)
  have hbody : beforeComment .outside (quote :: body) = quote :: body := by
    refine beforeComment_cons_eq.2 ⟨fun h => hquote.ne_of not_isQuote_slash h.2.1, ?_⟩
    rw [next_outside_of_isQuote hquote, beforeComment_literal_of_unclosed hopen]
  rw [code, beforeComment_append_eq (beforeComment_eq_iff.2 hnone) (.inl hseam),
    hclosed.foldl_next, hbody]

/-! ## Code of code, and added comments -/

theorem code_code (line : List Char) : code (code line) = code line := by
  refine code_eq (beforeComment_code line) ?_
  obtain ⟨w, -, -, hend⟩ := exists_trimEnd (beforeComment .outside line)
  exact hend

/-- A comment at the end of a line adds nothing to its code, unless it stands in a literal or a
slash in front of it takes part in the marker. -/
theorem code_append_comment {w : List Char} (hopen : Closed line ∨ ∃ front, MarkerBehind line front)
    (hw : AllBlank w) (hseam : w ≠ [] ∨ line.getLast? ≠ some '/') (comment : List Char) :
    code (line ++ w ++ commentMarker ++ comment) = code line := by
  rw [List.append_assoc, List.append_assoc]
  by_cases hnone : beforeComment .outside line = line
  · have hclosed : Closed line :=
      hopen.resolve_right fun ⟨front, h⟩ => beforeComment_ne_of_markerBehind h hnone
    have hhead : (w ++ (commentMarker ++ comment)).head? ≠ some '/' ∨
        line.getLast? ≠ some '/' := by
      refine hseam.imp_left fun hne hhead => ?_
      obtain ⟨c, w, rfl⟩ := List.exists_cons_of_ne_nil hne
      exact (hw.plain c List.mem_cons_self).2.2 (Option.some.inj hhead)
    have hcomment : beforeComment .outside (commentMarker ++ comment) = [] := rfl
    rw [code, beforeComment_append_eq hnone hhead, hclosed.foldl_next,
      beforeComment_plain_append hw.plain, hcomment, List.append_nil, trimEnd_append_allBlank hw,
      code, hnone]
  · rw [code, beforeComment_append_of_ne hnone, code]

end Places

/-- The code of a line is its own code, and it is the code of the line with one more comment, if the
line ends outside every literal or has a comment already. The blanks in front of the added comment
are free, but a slash at the end of the line needs one. -/
theorem code_stable (line : List Char) :
    code (code line) = code line ∧
    ∀ w comment, (Closed line ∨ ∃ front, MarkerBehind line front) → AllBlank w →
      (w ≠ [] ∨ line.getLast? ≠ some '/') →
      code (line ++ w ++ commentMarker ++ comment) = code line :=
  ⟨code_code line, fun _ comment hopen hw hseam => code_append_comment hopen hw hseam comment⟩

/-- A marker in a literal, and quotes and a marker in the comment. -/
theorem code_stable_runs :
    Closed "option x = '//'; /".toList ∧
    code ("option x = '//'; /".toList ++ " ".toList ++ commentMarker ++ "\"it's // \\".toList) =
      "option x = '//'; /".toList := by
  have hclosed : Closed "option x = '//'; /".toList := closed_iff.2 (by decide)
  have hblank : AllBlank " ".toList := List.all_eq_true.1 (by decide)
  refine ⟨hclosed, ?_⟩
  rw [(code_stable "option x = '//'; /".toList).2 _ _ (.inl hclosed) hblank (.inl (by decide))]
  decide

end ProtoSchema.Text
